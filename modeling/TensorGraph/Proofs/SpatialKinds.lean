import TensorGraph.Proofs.Accounting
import TensorGraph.Proofs.CoherentTypes

/-!
# Kinds for a number of spatial axes

A window operator of an imported graph that is of a kind for `k` spatial axes reads data of `k + 2`
axes and writes as many, but for a few exceptions (`importGraph_kindAxes`). The kind is picked by
the kernel or by the weights, whatever the data. That the data has the axes is for typing to see:
the rules of convolutions and of pools look, that of transposed convolutions does not.
-/

namespace TensorGraph

open Onnx Typing ValueType

/-- A tensor of `r` axes: their sizes, if they are known, are as many. -/
def ValueType.IsTensorOf (t : ValueType) (r : Nat) : Prop :=
  ∃ e rank dims, t = .tensor e rank dims ∧ rank.equals (.ofNat r) = true ∧
    ∀ ds, dims = some ds → ds.length = r

/-- Some node of the file bears the name of the operator. -/
def Onnx.ModelMessage.Spells (m : ModelMessage) (o : Operator) : Prop :=
  ∃ raw ∈ m.nodes, raw.operator = o.name

namespace Node

variable (n : Node)

def operandType? (place : Nat) : Option ValueType := n.inputs[place]?.map Value.type

def resultType? : Option ValueType := n.outputs.head?.map Value.type

/-- The first operand and the first output have two axes beside the `k` spatial ones. -/
structure HasKindAxes (k : Nat) : Prop where
  operand : ∃ t, n.operandType? 0 = some t ∧ t.rank.equals (.ofNat (k + 2)) = true
  result : ∃ t, n.resultType? = some t ∧ t.IsTensorOf (k + 2)

/-- The kind follows the kernel, if there are sizes in it, or the file names the kind itself. -/
def KindOfKernel (m : ModelMessage) (k : Nat) : Prop :=
  ∀ kernel, n.intList "kernel_shape" [] = .ok kernel → kernel ≠ [] →
    kernel.length = k ∨ m.Spells n.operator

/-- What keeps a node of a kind for `k` spatial axes from having them. -/
inductive OffKind (k : Nat) : Prop
  /-- The rank of what is convolved the other way round is never looked at. -/
  | transposed {t : ValueType} (hop : n.operator ∈ Operator.transposedConvolutions)
    (ht : n.operandType? 0 = some t) (hrank : t.rank.equals (.ofNat (k + 2)) = false)
  /-- The window of a convolution has other than `k` sizes. -/
  | window {t w : ValueType} {ds ws kernel : List Size} (hop : n.operator ∈ Operator.convolutions)
    (ht : n.operandType? 0 = some t) (hw : n.operandType? 1 = some w) (hds : t.dims? = some ds)
    (hws : w.dims? = some ws) (hkernel : kernelSizes n (ws.drop 2) = .ok kernel)
    (hcovers : coversAxes n = .ok false) (hcount : kernel.length ≠ k)
  /-- The strides of a convolution cover other than `k` axes. -/
  | strides {t w : ValueType} {ds ws kernel : List Size} {strides : List Int}
    (hop : n.operator ∈ Operator.convolutions) (ht : n.operandType? 0 = some t)
    (hw : n.operandType? 1 = some w) (hds : t.dims? = some ds) (hws : w.dims? = some ws)
    (hkernel : kernelSizes n (ws.drop 2) = .ok kernel) (hcovers : coversAxes n = .ok true)
    (hstrides : n.intList "strides" (List.replicate kernel.length 1) = .ok strides)
    (hcount : min (if kernel.length = 0 then ds.length else min kernel.length ds.length)
      strides.length ≠ k)
  /-- The window of a pool has other than `k` sizes. -/
  | kernel {kernel : List Int} (hop : n.operator ∈ Operator.pools)
    (hkernel : n.intList "kernel_shape" [] = .ok kernel) (hcount : kernel.length ≠ k)
  /-- The strides of a pool cover fewer than `k` axes. -/
  | cover {strides : List Int} (hop : n.operator ∈ Operator.pools)
    (hcovers : coversAxes n = .ok true)
    (hstrides : n.intList "strides" (List.replicate k 1) = .ok strides)
    (hcount : strides.length < k)
  /-- The data of a pool, whose sizes are counted, has another rank than sizes. -/
  | miscounted {t : ValueType} {ds : List Size} (hop : n.operator ∈ Operator.pools)
    (ht : n.operandType? 0 = some t) (hds : t.dims? = some ds)
    (hrank : t.rank.equals (.ofNat ds.length) = false)

end Node

variable {m : ModelMessage} {n n' : Node} {s s' : ImportState} {p : Passage} {ps : List Passage}
  {rest : List NodeMessage} {t u : ValueType} {v w x : Value} {r k : Nat}

lemma ValueType.isTensorOf_ofRank {e : ElementType} {rank : Size} {dims : Option (List Size)} :
    (ofRank e rank dims).IsTensorOf (r + 1) ↔
      rank.equals (.ofNat (r + 1)) = true ∧ ∀ ds, dims = some ds → ds.length = r + 1 := by
  unfold ofRank
  split
  · next hzero =>
    refine iff_of_false (by simp [IsTensorOf]) fun ⟨hrank, _⟩ => ?_
    exact absurd (Size.ofNat_inj_of_equals hzero hrank) (Nat.succ_ne_zero r).symm
  · exact ⟨by rintro ⟨_, _, _, h, hrank⟩; cases h; exact hrank, fun h => ⟨_, _, _, rfl, h⟩⟩

namespace Node

lemma operandType?_of_input {i : Nat} (hv : n.input i = .ok v) :
    n.operandType? i = some v.type := by
  rw [operandType?, input_eq_ok.mp hv, Option.map_some]

lemma exists_input_of_operandType? {i : Nat} (ht : n.operandType? i = some t) :
    ∃ v, n.input i = .ok v ∧ v.type = t := by
  obtain ⟨v, hv, rfl⟩ := Option.map_eq_some_iff.mp ht
  exact ⟨v, input_eq_ok.mpr hv, rfl⟩

lemma OffKind.congr (hop : n.operator = n'.operator) (hattributes : n.attributes = n'.attributes)
    (htypes : n.operandType? = n'.operandType?) (h : n.OffKind k) : n'.OffKind k := by
  have hcovers : coversAxes n = coversAxes n' := by
    simp only [coversAxes, attribute?_congr hattributes]
  cases h with
  | transposed hop' ht hrank => exact .transposed (hop ▸ hop') (htypes ▸ ht) hrank
  | window hop' ht hw hds hws hkernel hcovers' hcount =>
    exact .window (hop ▸ hop') (htypes ▸ ht) (htypes ▸ hw) hds hws
      (kernelSizes_congr hattributes _ ▸ hkernel) (hcovers ▸ hcovers') hcount
  | strides hop' ht hw hds hws hkernel hcovers' hstrides hcount =>
    exact .strides (hop ▸ hop') (htypes ▸ ht) (htypes ▸ hw) hds hws
      (kernelSizes_congr hattributes _ ▸ hkernel) (hcovers ▸ hcovers')
      (intList_congr hattributes _ _ ▸ hstrides) hcount
  | kernel hop' hkernel hcount =>
    exact .kernel (hop ▸ hop') (intList_congr hattributes _ _ ▸ hkernel) hcount
  | cover hop' hcovers' hstrides hcount =>
    exact .cover (hop ▸ hop') (hcovers ▸ hcovers') (intList_congr hattributes _ _ ▸ hstrides) hcount
  | miscounted hop' ht hds hrank => exact .miscounted (hop ▸ hop') (htypes ▸ ht) hds hrank

end Node

namespace Operator

lemma nodup_windows : (convolutions ++ transposedConvolutions ++ pools).Nodup := by decide

variable {o : Operator}

lemma not_transposed_of_convolution (h : o ∈ convolutions) : o ∉ transposedConvolutions := fun h' =>
  (List.nodup_append.mp (List.nodup_append.mp nodup_windows).1).2.2 o h o h' rfl

lemma not_pool_of_convolution (h : o ∈ convolutions) : o ∉ pools := fun h' =>
  (List.nodup_append.mp nodup_windows).2.2 o (List.mem_append_left _ h) o h' rfl

lemma not_pool_of_transposed (h : o ∈ transposedConvolutions) : o ∉ pools := fun h' =>
  (List.nodup_append.mp nodup_windows).2.2 o (List.mem_append_right _ h) o h' rfl

/-- A kind for a number of spatial axes is a convolution, one the other way round, or a pool. -/
lemma windows_of_spatialAxes? (h : o.spatialAxes? = some k) :
    o ∈ convolutions ∨ o ∈ transposedConvolutions ∨ o ∈ pools := by
  revert h
  cases o <;> simp [spatialAxes?, convolutions, transposedConvolutions, pools]

end Operator

/-- A convolution that is off its kind gives other than `k` sizes. -/
lemma Node.OffKind.of_convolution (h : n.OffKind k) (hop : n.operator ∈ Operator.convolutions) :
    ∃ t w ds ws kernel, n.operandType? 0 = some t ∧ n.operandType? 1 = some w ∧
      t.dims? = some ds ∧ w.dims? = some ws ∧ kernelSizes n (ws.drop 2) = .ok kernel ∧
      ∀ spatial, spatialDims n ds kernel = .ok spatial → spatial.length ≠ k := by
  cases h with
  | transposed hop' => exact absurd hop' (Operator.not_transposed_of_convolution hop)
  | kernel hop' | cover hop' | miscounted hop' =>
    exact absurd hop' (Operator.not_pool_of_convolution hop)
  | window _ ht hw hds hws hkernel hcovers hcount =>
    refine ⟨_, _, _, _, _, ht, hw, hds, hws, hkernel, fun spatial hspatial => ?_⟩
    obtain ⟨-, hlength⟩ | ⟨_, hcovers', -⟩ := length_spatialDims hspatial
    · exact hlength ▸ hcount
    · cases hcovers.symm.trans hcovers'
  | strides _ ht hw hds hws hkernel hcovers hstrides hcount =>
    refine ⟨_, _, _, _, _, ht, hw, hds, hws, hkernel, fun spatial hspatial => ?_⟩
    obtain ⟨hcovers', -⟩ | ⟨_, -, hstrides', hlength⟩ := length_spatialDims hspatial
    · cases hcovers.symm.trans hcovers'
    · obtain rfl := Except.ok.inj (hstrides.symm.trans hstrides')
      exact hlength ▸ hcount

section Rules

variable (hk : n.operator.spatialAxes? = some k)

include hk

/-- A convolution is of data of the rank that its kind asks for. -/
lemma conv_rank (hx : n.input 0 = .ok x) (h : conv n = .ok u) :
    x.type.rank.equals (.ofNat (k + 2)) = true := by
  unfold conv at h
  split at h
  swap
  · cases h
  next a b _ o hinputs _ =>
  obtain rfl : a = x := by simpa [Node.input, hinputs] using hx
  simp only [spatialCount, hk, Except.bind_eq_ok] at h
  obtain ⟨_, ⟨⟩, _, ⟨⟩, h⟩ := h
  split at h
  · cases h
  · next hrank =>
    rw [Bool.not_eq_true', Bool.not_eq_false] at hrank
    exact hrank

lemma conv_kindAxes (hop : n.operator ∈ Operator.convolutions) (hx : n.input 0 = .ok x)
    (h : conv n = .ok u) :
    x.type.rank.equals (.ofNat (k + 2)) = true ∧ u.IsTensorOf (k + 2) ↔ ¬ n.OffKind k := by
  obtain ⟨_, w, -, hw⟩ := conv_operands h
  have hrank := conv_rank hk hx h
  have ht := Node.operandType?_of_input hx
  have hw' := Node.operandType?_of_input hw
  rw [and_iff_right hrank]
  obtain ⟨ds, ws, kernel, spatial, sizes, hds, hws, hkernel, hspatial, hsizes, -, rfl⟩ |
    ⟨hunknown, rfl⟩ := conv_eq hx hw h
  · rw [isTensorOf_ofRank, and_iff_right hrank]
    simp only [Option.some.injEq, forall_eq', hsizes]
    constructor
    · intro hlength hoff
      obtain ⟨t, w', ds', ws', kernel', ht', hw'', hds', hws', hkernel', hcount⟩ :=
        hoff.of_convolution hop
      obtain rfl := Option.some.inj (ht.symm.trans ht')
      obtain rfl := Option.some.inj (hw'.symm.trans hw'')
      obtain rfl := Option.some.inj (hds.symm.trans hds')
      obtain rfl := Option.some.inj (hws.symm.trans hws')
      obtain rfl := Except.ok.inj (hkernel.symm.trans hkernel')
      exact hcount spatial hspatial (Nat.add_right_cancel hlength)
    · intro hplain
      by_contra hlength
      obtain ⟨hcovers, hcount⟩ | ⟨strides, hcovers, hstrides, hcount⟩ := length_spatialDims hspatial
      · exact hplain (.window hop ht hw' hds hws hkernel hcovers (by omega))
      · exact hplain (.strides hop ht hw' hds hws hkernel hcovers hstrides (by omega))
  · rw [isTensorOf_ofRank]
    refine iff_of_true ⟨hrank, by simp⟩ fun hoff => ?_
    obtain ⟨t, w', ds, ws, -, ht', hw'', hds, hws, -⟩ := hoff.of_convolution hop
    obtain rfl := Option.some.inj (ht.symm.trans ht')
    obtain rfl := Option.some.inj (hw'.symm.trans hw'')
    simp [hds, hws] at hunknown

lemma convTranspose_kindAxes (hop : n.operator ∈ Operator.transposedConvolutions)
    (hx : n.input 0 = .ok x) (h : convTranspose n = .ok u) :
    x.type.rank.equals (.ofNat (k + 2)) = true ∧ u.IsTensorOf (k + 2) ↔ ¬ n.OffKind k := by
  have ht := Node.operandType?_of_input hx
  have hoff : n.OffKind k ↔ x.type.rank.equals (.ofNat (k + 2)) = false := by
    refine ⟨fun hoff => ?_, fun hrank => .transposed hop ht hrank⟩
    cases hoff with
    | transposed _ ht' hrank => exact Option.some.inj (ht.symm.trans ht') ▸ hrank
    | window hop' | strides hop' =>
      exact absurd hop (Operator.not_transposed_of_convolution hop')
    | kernel hop' | cover hop' | miscounted hop' =>
      exact absurd hop' (Operator.not_pool_of_transposed hop)
  rw [hoff, Bool.not_eq_false, and_iff_left_iff_imp]
  intro hrank
  have hconv := h
  simp only [convTranspose, hx, Except.ok_bind] at h
  obtain ⟨w, hw, h⟩ := Except.bind_eq_ok.mp h
  split at h
  · next ds ws hds hws =>
    obtain ⟨count, axes, sizes, hcount, haxes, hsizes, -, rfl⟩ :=
      convTranspose_eq hx hw hds hws hconv
    obtain rfl : k = axes := by
      simp only [spatialCount, hk] at hcount
      obtain rfl := Except.ok.inj hcount
      exact (Size.eq_toNat_of_countBeside haxes).symm
    rw [isTensorOf_ofRank]
    exact ⟨hrank, fun ds' hds' => Option.some.inj hds' ▸ hsizes⟩
  · rw [Except.pure_eq_ok] at h
    rw [← h, isTensorOf_ofRank]
    exact ⟨hrank, by simp⟩

omit hk in
lemma pool_kindAxes (hop : n.operator ∈ Operator.pools) (hx : n.input 0 = .ok x)
    (hknown : x.type.dims?.isSome) (h : pool n = .ok u) :
    x.type.rank.equals (.ofNat (k + 2)) = true ∧ u.IsTensorOf (k + 2) ↔ ¬ n.OffKind k := by
  have ht := Node.operandType?_of_input hx
  obtain ⟨ds, hds⟩ := Option.isSome_iff_exists.mp hknown
  obtain ⟨kernel, spatial, sizes, hkernel, hne, hlength, hspatial, hsizes, rfl⟩ := pool_eq hx hds h
  rw [isTensorOf_ofRank, Size.equals_ofNat, decide_eq_true_iff]
  simp only [Option.some.injEq, forall_eq']
  constructor
  · rintro ⟨hrank, hds', hsizes'⟩ hoff
    obtain rfl : k = kernel.length := by omega
    cases hoff with
    | transposed hop' => exact Operator.not_pool_of_transposed hop' hop
    | window hop' | strides hop' => exact Operator.not_pool_of_convolution hop' hop
    | kernel _ hkernel' hcount => exact hcount (Except.ok.inj (hkernel'.symm.trans hkernel) ▸ rfl)
    | cover _ hcovers hstrides hcount =>
      obtain ⟨hcovers', -⟩ | ⟨strides, -, hstrides', hlength'⟩ := length_spatialDims hspatial
      · cases hcovers.symm.trans hcovers'
      · rw [List.length_map] at hstrides' hlength'
        obtain rfl := Except.ok.inj (hstrides.symm.trans hstrides')
        omega
    | miscounted _ ht' hds'' hrank' =>
      obtain rfl := Option.some.inj (ht.symm.trans ht')
      obtain rfl := Option.some.inj (hds.symm.trans hds'')
      rw [hlength, hrank] at hrank'
      cases hrank'
  · intro hplain
    have hcount : kernel.length = k := by
      by_contra hcount
      exact hplain (.kernel hop hkernel hcount)
    have hrank : x.type.rank.equals (.ofNat ds.length) = true := by
      rw [← Bool.not_eq_false]
      exact fun hrank => hplain (.miscounted hop ht hds hrank)
    refine ⟨by rwa [hlength, hcount] at hrank, by omega, ?_⟩
    rw [hsizes]
    obtain ⟨-, hlength'⟩ | ⟨strides, hcovers, hstrides, hlength'⟩ := length_spatialDims hspatial
    · rw [hlength', List.length_map, hcount]
    · rw [List.length_map] at hstrides hlength'
      have hpos := List.length_pos_iff.mpr hne
      have hcover : ¬ strides.length < k := fun hfew =>
        hplain (.cover hop hcovers (hcount ▸ hstrides) hfew)
      rw [if_neg (by omega)] at hlength'
      omega

end Rules

/-! ## The nodes of a graph -/

lemma Node.attribute?_of_intList {key : String} {l : List Int} (h : n.intList key [] = .ok l)
    (hne : l ≠ []) : n.attribute? key = some (.ints l) := by
  unfold Node.intList at h
  split at h
  · exact absurd (Except.ok.inj h).symm hne
  · next a ha =>
    split at h
    · next is his =>
      obtain rfl := Except.ok.inj h
      unfold Attribute.intList? at his
      split at his <;> simp_all
    · cases h

/-- The sizes of the kernel, if there are some, count the axes of the window. -/
lemma Node.windowAxes?_of_kernel {kernel : List Int}
    (hkernel : n.intList "kernel_shape" [] = .ok kernel) (hne : kernel ≠ []) :
    n.windowAxes? = .ok (some (.ofNat kernel.length)) := by
  have htrue : (Attribute.ints kernel).isTrue = .ok true := by simp [Attribute.isTrue, hne]
  have hlength : (Attribute.ints kernel).length = .ok kernel.length := by
    simp [Attribute.length, Attribute.items, Except.map]
  simp only [Node.windowAxes?, Node.attribute?_of_intList hkernel hne, htrue, hlength,
    Except.ok_bind]
  rfl

lemma specialise_picks (h : n.specialise = .ok n') (hk : n'.operator.spatialAxes? = some k)
    {kernel : List Int} (hkernel : n.intList "kernel_shape" [] = .ok kernel) (hne : kernel ≠ []) :
    kernel.length = k ∨ n'.operator = n.operator := by
  unfold Node.specialise at h
  split at h
  · obtain rfl := Except.pure_eq_ok.mp h
    exact .inr rfl
  · rw [Node.windowAxes?_of_kernel hkernel hne, Except.ok_bind] at h
    split at h
    · next o ho =>
      obtain rfl := Except.pure_eq_ok.mp h
      simp only [Option.bind_some] at ho
      obtain ⟨count, hcount, ho⟩ := Option.bind_eq_some_iff.mp ho
      obtain rfl : (kernel.length : Int) = count := Option.some.inj hcount
      exact .inl (Option.some.inj ((Operator.spatialAxes?_ofSpatialAxes? ho).symm.trans hk))
    · obtain rfl := Except.pure_eq_ok.mp h
      exact .inr rfl

/-- A node of a kind for a number of spatial axes passes the stages after its kind has been picked
with its operator and its attributes. -/
lemma Step.Body.of_kind (h : Step.Body s p) (hk : p.typed.operator.spatialAxes? = some k) :
    p.typed.operator = p.specialised.operator ∧ p.typed.attributes = p.converted.attributes := by
  have hreshaped : p.reshaped = p.lifted := by
    cases h.reshapes with
    | same node => exact node
    | reshape _ _ _ _ _ _ node => simp [h.operator_typed, node, Operator.spatialAxes?] at hk
  have hoperator := h.operator_typed
  rw [hreshaped, h.operator_lifted] at hoperator
  have hfused : p.fused = p.specialised := by
    cases h.fuses with
    | same node => exact node
    | gemm _ operator' => simp [hoperator, operator', Operator.spatialAxes?] at hk
    | product _ node | biased _ _ _ _ _ _ _ node =>
      simp [hoperator, node, Operator.spatialAxes?] at hk
  obtain ⟨outputs, -, hinfer⟩ := infer_ok h.infer
  refine ⟨by rw [hoperator, hfused], ?_⟩
  rw [hinfer, hreshaped, h.lifts.node, h.elides.node]
  change p.fused.attributes = _
  rw [hfused, (specialise_ok h.specialise).2]

lemma Step.types_inputs (h : Step s p s') (hs : s.registry.Sound) :
    p.final.inputs.map Value.type = p.typed.inputs.map Value.type := by
  rw [h.inputs_final hs, List.map_map]
  exact List.map_congr_left fun _ _ => type_renamedOperand

lemma Step.types_outputs (h : Step s p s')
    (ht : ImportState.isTransparent p.typed.operator = false) :
    p.final.outputs.map Value.type = p.typed.outputs.map Value.type := by
  have hrename := h.renameOutputs
  rw [if_neg (by simp [ht])] at hrename
  rw [Passage.final, eq_renamedOutputs hrename, map_type_renamedOutputs]

lemma Operator.not_transparent_of_spatialAxes? {o : Operator} (h : o.spatialAxes? = some k) :
    ImportState.isTransparent o = false := by
  revert h
  cases o <;> simp [spatialAxes?, ImportState.isTransparent]

/-- Typing gives the first output of a node the type that its rule says. -/
lemma Node.infer_rule {rule : Node → Except Error ValueType} (hrule : rule? n.operator = some rule)
    (h : n.infer = .ok n') : ∃ u, rule n = .ok u ∧ n'.resultType? = some u ∧
      n'.operandType? = n.operandType? := by
  simp only [Node.infer, Node.typedOutputs, hrule, Except.bind_eq_ok, Except.pure_eq_ok] at h
  obtain ⟨vs, ⟨u, hu, hvs⟩, rfl⟩ := h
  split at hvs
  · cases hvs
  · rw [Except.pure_eq_ok] at hvs
    exact ⟨u, hu, by rw [← hvs]; rfl, rfl⟩

/-- Typing gives a node the axes of its kind, unless it is off its kind. -/
lemma Node.infer_kindAxes (h : n.infer = .ok n') (hk : n.operator.spatialAxes? = some k)
    (ht : n.operandType? 0 = some t) (hknown : t.dims?.isSome) :
    n'.HasKindAxes k ↔ ¬ n.OffKind k := by
  obtain ⟨x, hx, rfl⟩ := exists_input_of_operandType? ht
  have haxes : ∀ u, n'.resultType? = some u → n'.operandType? = n.operandType? →
      (n'.HasKindAxes k ↔ x.type.rank.equals (.ofNat (k + 2)) = true ∧ u.IsTensorOf (k + 2)) := by
    intro u hu hsame
    constructor
    · rintro ⟨⟨t, ht', hrank⟩, u', hu', htensor⟩
      rw [hsame, ht] at ht'
      exact ⟨Option.some.inj ht' ▸ hrank, Option.some.inj (hu.symm.trans hu') ▸ htensor⟩
    · rintro ⟨hrank, htensor⟩
      exact ⟨⟨_, hsame ▸ ht, hrank⟩, u, hu, htensor⟩
  rcases Operator.windows_of_spatialAxes? hk with hop | hop | hop
  · obtain ⟨u, hrule, hu, hsame⟩ := infer_rule (rule?_convolutions hop) h
    rw [haxes u hu hsame, conv_kindAxes hk hop hx hrule]
  · obtain ⟨u, hrule, hu, hsame⟩ := infer_rule (rule?_transposedConvolutions hop) h
    rw [haxes u hu hsame, convTranspose_kindAxes hk hop hx hrule]
  · obtain ⟨u, hrule, hu, hsame⟩ := infer_rule (rule?_pools hop) h
    rw [haxes u hu hsame, pool_kindAxes hop hx hknown hrule]

/-- A passage picks the kind of its node by the kernel. -/
lemma Step.Body.kindOfKernel (h : Step.Body s p) (hmessage : p.message ∈ m.nodes)
    (hk : p.typed.operator.spatialAxes? = some k) : p.final.KindOfKernel m k := by
  obtain ⟨hoperator, hattributes⟩ := h.of_kind hk
  intro kernel hkernel hne
  have hkernel : p.converted.intList "kernel_shape" [] = .ok kernel :=
    (Node.intList_congr hattributes.symm _ _).trans hkernel
  refine (specialise_picks h.specialise (hoperator ▸ hk) hkernel hne).imp_right fun hsame => ?_
  refine ⟨p.message, hmessage, ?_⟩
  rw [h.operator_message, ← hsame, ← hoperator]
  rfl

/-- A passage ends with a node that has the axes of its kind, unless it is off its kind. -/
lemma Step.final_kindAxes (h : Step s p s') (hs : s.registry.Sound)
    (hk : p.typed.operator.spatialAxes? = some k) (ht : p.final.operandType? 0 = some t)
    (hknown : t.dims?.isSome) :
    p.final.HasKindAxes k ↔ ¬ p.final.OffKind k := by
  obtain ⟨outputs, -, hinfer⟩ := infer_ok h.infer
  have hattributes : p.reshaped.attributes = p.typed.attributes := by rw [hinfer]
  -- renaming leaves the types as they are, and typing what it reads of the node
  have hoperands : p.final.operandType? = p.typed.operandType? := by
    funext i
    simp only [Node.operandType?, ← List.getElem?_map, h.types_inputs hs]
  have hoperands' : p.typed.operandType? = p.reshaped.operandType? := by
    rw [hinfer]
    rfl
  have hresult : p.final.resultType? = p.typed.resultType? := by
    simp only [Node.resultType?, ← List.head?_map,
      h.types_outputs (Operator.not_transparent_of_spatialAxes? hk)]
  have haxes : p.final.HasKindAxes k ↔ p.typed.HasKindAxes k :=
    ⟨fun h => ⟨hoperands ▸ h.operand, hresult ▸ h.result⟩,
      fun h => ⟨hoperands ▸ h.operand, hresult ▸ h.result⟩⟩
  rw [haxes,
    Node.infer_kindAxes h.infer (h.operator_typed ▸ hk) (hoperands' ▸ hoperands ▸ ht) hknown]
  exact not_congr ⟨.congr h.operator_typed.symm hattributes (hoperands.trans hoperands').symm,
    .congr h.operator_typed hattributes.symm (hoperands.trans hoperands')⟩

/-- What an imported model makes of its window operators: the kernel picks the kind of a node, and a
node of a kind for `k` spatial axes has them, unless it is off its kind. -/
theorem importGraph_kindAxes {checkFirst : Bool} {g : Graph}
    (h : m.importGraph checkFirst = .ok g) (hn : n ∈ g.nodes)
    (hk : n.operator.spatialAxes? = some k) (ht : n.operandType? 0 = some t)
    (hknown : t.dims?.isSome) :
    n.KindOfKernel m k ∧ (n.HasKindAxes k ↔ ¬ n.OffKind k) := by
  obtain ⟨ps, s, run, rfl⟩ := importGraph_ok h
  obtain ⟨i, p, hp, -, rfl⟩ := (mem_graph_nodes run.nodes).mp hn
  obtain ⟨before, after, hps⟩ := List.append_of_mem (List.mem_of_getElem? hp)
  obtain ⟨rest, s₁, s₂, run₁, next, step, -⟩ := run.split hps
  have hmessage : p.message ∈ m.nodes := by
    rw [← run₁.messages]
    simp
  exact ⟨step.kindOfKernel hmessage hk, step.final_kindAxes run₁.sound hk ht hknown⟩

/-- A convolution, or one the other way round, with weights for two spatial axes. -/
def weighed (o : Operator) (dims : List Nat) : ModelMessage where
  inputs := [{ name := "x", elementType := 1, dims := dims.map fun d => .size d }]
  outputs := [{ name := "y", elementType := 1, dims := [.size 1, .size 1, .size 2, .size 2] }]
  initializers := [{ name := "w", dataType := 7, dims := [1, 1, 2, 2], int64s := [1, 2, 3, 4] }]
  nodes := [{ operator := o.name, inputs := ["x", "w"], outputs := ["y"] }]

theorem importGraph_kindAxes_weighed :
    ∃ g n t, (weighed .conv [1, 1, 3, 3]).importGraph false = .ok g ∧ n ∈ g.nodes ∧
      n.operator.spatialAxes? = some 2 ∧ n.operandType? 0 = some t ∧ t.dims?.isSome ∧
      (n.KindOfKernel (weighed .conv [1, 1, 3, 3]) 2 ∧ (n.HasKindAxes 2 ↔ ¬ n.OffKind 2)) ∧
      n.resultType? = some (.tensor .float32 4 (some [1, 1, 2, 2])) := by
  obtain ⟨g, hg, hnodes⟩ : ∃ g, (weighed .conv [1, 1, 3, 3]).importGraph false = .ok g ∧
      (g.nodes.map fun n => (n.operator, n.operandType? 0, n.resultType?)) =
        [(.conv2d, some (.tensor .float32 4 (some [1, 1, 3, 3])),
          some (.tensor .float32 4 (some [1, 1, 2, 2])))] := Except.exists_ok (by decide +kernel)
  obtain ⟨n, hnodes, hn⟩ := List.map_eq_singleton_iff.mp hnodes
  simp only [Prod.mk.injEq] at hn
  have hmem : n ∈ g.nodes := hnodes ▸ List.mem_singleton_self n
  have hk : n.operator.spatialAxes? = some 2 := hn.1 ▸ rfl
  exact ⟨g, n, _, hg, hmem, hk, hn.2.1, rfl, importGraph_kindAxes hg hmem hk hn.2.1 rfl, hn.2.2⟩

/-- Data of three spatial axes passes where weights of two have picked the kind. -/
theorem weighed_offKind :
    ∃ g n, (weighed .convTranspose [1, 1, 3, 3, 3]).importGraph false = .ok g ∧ n ∈ g.nodes ∧
      n.operator.spatialAxes? = some 2 ∧
      n.operandType? 0 = some (.tensor .float32 5 (some [1, 1, 3, 3, 3])) ∧
      n.resultType? = some (.tensor .float32 5 (some [1, 1, 4, 4])) ∧ ¬ n.HasKindAxes 2 := by
  obtain ⟨g, hg, hnodes⟩ : ∃ g, (weighed .convTranspose [1, 1, 3, 3, 3]).importGraph false = .ok g ∧
      (g.nodes.map fun n => (n.operator, n.operandType? 0, n.resultType?)) =
        [(.convTranspose2d, some (.tensor .float32 5 (some [1, 1, 3, 3, 3])),
          some (.tensor .float32 5 (some [1, 1, 4, 4])))] := Except.exists_ok (by decide +kernel)
  obtain ⟨n, hnodes, hn⟩ := List.map_eq_singleton_iff.mp hnodes
  simp only [Prod.mk.injEq] at hn
  refine ⟨g, n, hg, hnodes ▸ List.mem_singleton_self n, hn.1 ▸ rfl, hn.2.1, hn.2.2, fun h => ?_⟩
  obtain ⟨t, ht, hrank⟩ := h.operand
  obtain rfl := Option.some.inj (hn.2.1.symm.trans ht)
  cases hrank

end TensorGraph
