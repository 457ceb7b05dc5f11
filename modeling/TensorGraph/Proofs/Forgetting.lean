import TensorGraph.Proofs.TypingView

/-!
# Forgotten sizes

The sizes of a tensor may be known or not. Let a second node know the same of its operands as a
first one, or less. It may be refused where the first one is typed, but where both are typed it has
the outputs of the first, only that their sizes may not be known (`Node.infer_forgets`).
-/

namespace TensorGraph

open Typing

/-- The second type is the first one, but that the sizes of a tensor may have been forgotten. -/
inductive ValueType.Forgets : ValueType → ValueType → Prop where
  | same (t : ValueType) : Forgets t t
  | sizes (t : ElementType) (dim : Size) (dims : List Size) :
    Forgets (.tensor t dim (some dims)) (.tensor t dim none)

/-- The sizes of a tensor, if they are known, are as many as it has axes. -/
def ValueType.Coherent : ValueType → Prop
  | .tensor _ dim (some dims) => dim = .ofNat dims.length
  | _ => True

/-- What is known has been forgotten or is the same. -/
def Forgotten {α : Type} (x y : Option α) : Prop := y = none ∨ y = x

/-- The results of two computations are related, if both succeed. -/
def IfBoth {α β : Type} (R : α → β → Prop) (x : Except Error α) (y : Except Error β) : Prop :=
  ∀ a b, x = .ok a → y = .ok b → R a b

section Outcomes

variable {α β γ δ : Type} {R : α → β → Prop} {S : γ → δ → Prop} {x : Except Error α}
  {y : Except Error β}

namespace IfBoth

lemma of_eq {R : α → α → Prop} (hR : ∀ a, R a a) {x y : Except Error α} (h : x = y) :
    IfBoth R x y := by
  intro a b hx hy
  rw [h, hy, Except.ok.injEq] at hx
  exact hx ▸ hR b

lemma pure {a : α} {b : β} (h : R a b) : IfBoth R (Pure.pure a) (Pure.pure b) := by
  intro a' b' ha hb
  rw [Except.pure_eq_ok] at ha hb
  exact ha ▸ hb ▸ h

lemma error_left (e : Error) : IfBoth R (.error e) y := by
  intro a b hx
  cases hx

lemma error_right (e : Error) : IfBoth R x (.error e) := by
  intro a b _ hy
  cases hy

lemma bind {f : α → Except Error γ} {g : β → Except Error δ} (h : IfBoth R x y)
    (hf : ∀ a b, R a b → IfBoth S (f a) (g b)) : IfBoth S (x >>= f) (y >>= g) := by
  intro c d hc hd
  obtain ⟨a, ha, hc⟩ := Except.bind_eq_ok.mp hc
  obtain ⟨b, hb, hd⟩ := Except.bind_eq_ok.mp hd
  exact hf a b (h a b ha hb) c d hc hd

lemma bind_same {x : Except Error α} {f : α → Except Error γ} {g : α → Except Error δ}
    (hf : ∀ a, IfBoth S (f a) (g a)) : IfBoth S (x >>= f) (x >>= g) :=
  (of_eq (fun _ => rfl) rfl : IfBoth (· = ·) x x).bind fun a _ h => h ▸ hf a

/-- What the first computation alone takes care of. -/
lemma bind_left {f : α → Except Error γ} {z : Except Error δ} (hf : ∀ a, IfBoth S (f a) z) :
    IfBoth S (x >>= f) z := by
  intro c d hc hd
  obtain ⟨a, -, hc⟩ := Except.bind_eq_ok.mp hc
  exact hf a c d hc hd

end IfBoth

end Outcomes

variable {α β : Type} {t t' : ValueType} {v w : Value} {vs ws : List Value}

namespace Forgotten

variable {x y : Option α}

lemma refl (x : Option α) : Forgotten x x := .inr rfl

lemma map (h : Forgotten x y) (f : α → β) : Forgotten (x.map f) (y.map f) := by
  rcases h with rfl | rfl
  · exact .inl rfl
  · exact .refl _

lemma bind (h : Forgotten x y) (f : α → Option β) : Forgotten (x.bind f) (y.bind f) := by
  rcases h with rfl | rfl
  · exact .inl rfl
  · exact .refl _

/-- Where the second computation knows nothing, it does not matter what the first one knows. -/
lemma none_right (x : Except Error (Option α)) : IfBoth Forgotten x (pure none) := by
  intro a b _ hb
  exact .inl (Except.pure_eq_ok.mp hb).symm

end Forgotten

namespace ValueType

lemma Forgets.element (h : t.Forgets t') : t'.element = t.element := by cases h <;> rfl

lemma Forgets.rank (h : t.Forgets t') : t'.rank = t.rank := by cases h <;> rfl

lemma Forgets.eq_shape_iff (h : t.Forgets t') (rank : Size) :
    t' = .shape rank ↔ t = .shape rank := by
  cases h <;> simp

lemma Forgets.dims (h : t.Forgets t') : Forgotten t.dims? t'.dims? := by
  cases h with
  | same => exact .refl _
  | sizes => exact .inl rfl

lemma Forgets.leadingDim? (h : t.Forgets t') : Forgotten (leadingDim? t) (leadingDim? t') :=
  h.dims.bind List.head?

lemma forgets_ofRank {d d' : Option (List Size)} (h : Forgotten d d') (t : ElementType)
    (rank : Size) : (ofRank t rank d).Forgets (ofRank t rank d') := by
  unfold ofRank
  split
  · exact .same _
  · rcases h with rfl | rfl
    · cases d with
      | none => exact .same _
      | some dims => exact .sizes t rank dims
    · exact .same _

end ValueType

section Values

variable (h : List.Forall₂ (Value.Over ValueType.Forgets) vs ws)

include h

lemma elements_forgets : List.Forall₂ (fun v w => v.type.element = w.type.element) vs ws :=
  h.imp fun _ _ hv => hv.type.element.symm

lemma ranks_forgets : List.Forall₂ (fun v w => v.type.rank = w.type.rank) vs ws :=
  h.imp fun _ _ hv => hv.type.rank.symm

lemma mapM_dims_forgets : Forgotten (vs.mapM (·.type.dims?)) (ws.mapM (·.type.dims?)) := by
  induction h with
  | nil => exact .refl _
  | cons hv _ ih =>
    rw [List.mapM_cons, List.mapM_cons]
    rcases hv.type.dims with hd | hd
    · exact .inl (by rw [hd]; rfl)
    · rcases ih with ih | ih
      · refine .inl ?_
        rw [ih]
        cases Value.type _ |>.dims? <;> rfl
      · exact .inr (by rw [hd, ih])

lemma sizeCounts?_forgets : sizeCounts? vs = sizeCounts? ws := by
  unfold sizeCounts?
  induction h with
  | nil => rfl
  | cons hv _ ih =>
    have ht := hv.type
    rw [List.mapM_cons, List.mapM_cons, ih]
    revert ht
    generalize Value.type _ = t, Value.type _ = t'
    rintro (_ | _) <;> rfl

lemma broadcastShape_forgets : IfBoth Forgotten (broadcastShape vs) (broadcastShape ws) := by
  unfold broadcastShape
  rcases mapM_dims_forgets h with hd | hd <;> rw [hd]
  · exact Forgotten.none_right _
  · exact .of_eq .refl rfl

end Values

/-- Where the sizes of an operand are known, more may be known of the result. -/
lemma forgets_of_known {f : List Size → Except Error ValueType} {x : Except Error ValueType}
    (hf : ∀ a, IfBoth ValueType.Forgets (f a) x) :
    ∀ {d e : Option (List Size)}, Forgotten d e → IfBoth ValueType.Forgets
      (match d with | some a => f a | none => x) (match e with | some a => f a | none => x) := by
  rintro d e (rfl | rfl)
  · cases d with
    | none => exact .of_eq .same rfl
    | some a => exact hf a
  · exact .of_eq .same rfl

/-- Where the sizes of two operands are known, more may be known of the result. -/
lemma forgets_of_known₂ {f : List Size → List Size → Except Error ValueType}
    {x : Except Error ValueType} (hf : ∀ a b, IfBoth ValueType.Forgets (f a b) x) :
    ∀ {d e d' e' : Option (List Size)}, Forgotten d e → Forgotten d' e' →
      IfBoth ValueType.Forgets (match d, d' with | some a, some b => f a b | _, _ => x)
        (match e, e' with | some a, some b => f a b | _, _ => x) := by
  rintro d e d' e' (rfl | rfl) (rfl | rfl)
  · cases d <;> cases d' <;> first | exact hf _ _ | exact .of_eq .same rfl
  · cases d <;> cases e' <;> first | exact hf _ _ | exact .of_eq .same rfl
  · cases e <;> cases d' <;> first | exact hf _ _ | exact .of_eq .same rfl
  · exact .of_eq .same rfl

/-- Where no size is zero, none is kept. -/
lemma keepZeros_of_notMem {n : Node} {target : List Int} (h : 0 ∉ target) (dims : List Size) :
    keepZeros n dims target = .ok (target.map .whole) := by
  have hmap : keepZeros n dims target = .ok (target.zipIdx.map fun e => Size.whole e.1) := by
    refine Except.mapM_eq_ok_map fun e he => ?_
    have hne : e.1 ≠ 0 := ne_of_mem_of_not_mem (List.fst_mem_of_mem_zipIdx he) h
    simp [hne, pure, Except.pure]
  rw [hmap]
  have hfst := congrArg (List.map Size.whole) (List.zipIdx_map_fst 0 target)
  rw [List.map_map] at hfst
  exact congrArg Except.ok hfst

lemma fillInferred_of_notMem {target : List Int} (h : -1 ∉ target) (dims : List Size) :
    fillInferred dims (target.map .whole) = .ok (target.map .whole) := by
  have hnone : (target.map Size.whole).findIdx? (·.equals inferred) = none := by
    rw [List.findIdx?_eq_none_iff]
    intro x hx
    obtain ⟨i, hi, rfl⟩ := List.mem_map.mp hx
    simpa [inferred] using ne_of_mem_of_not_mem hi h
  unfold fillInferred
  rw [hnone]

lemma reshapeTo_forgets {n n' : Node} (hn : n.attributes = n'.attributes) (h : t.Forgets t')
    (target : List Int) :
    IfBoth ValueType.Forgets (reshapeTo n t target) (reshapeTo n' t' target) := by
  simp only [reshapeTo, keepZeros_congr hn, h.element]
  split
  · exact .error_right _
  refine forgets_of_known (fun dims => ?_) h.dims
  by_cases hplain : -1 ∈ target ∨ 0 ∈ target
  · rw [if_pos hplain]
    refine .bind_left fun kept => .bind_left fun filled => .pure ?_
    exact ValueType.forgets_ofRank (.inl rfl) _ _
  · -- the target itself says all sizes
    obtain ⟨hinferred, hkept⟩ := not_or.mp hplain
    rw [if_neg hplain, keepZeros_of_notMem hkept, Except.ok_bind, fillInferred_of_notMem hinferred]
    exact .of_eq .same rfl

lemma reshapeAtRun_forgets {o o' : Option ValueType} (h : t.Forgets t')
    (ho : Option.Rel ValueType.Forgets o o') :
    IfBoth ValueType.Forgets (reshapeAtRun t o) (reshapeAtRun t' o') := by
  cases ho with
  | none => exact .error_right _
  | some hu =>
    cases hu with
    | same =>
      simp only [reshapeAtRun, h.element]
      exact .of_eq .same rfl
    | sizes => exact .error_right _

lemma unsqueezeAt_forgets (h : t.Forgets t') (axes : List Int) :
    IfBoth ValueType.Forgets (unsqueezeAt t axes) (unsqueezeAt t' axes) := by
  cases h with
  | same => exact .of_eq .same rfl
  | sizes e dim dims =>
    refine .bind_same fun rank => .bind_left fun places => .pure ?_
    exact ValueType.forgets_ofRank (.inl rfl) e rank

lemma squeezeAt_forgets (h : t.Forgets t') (axes : List Int) :
    IfBoth ValueType.Forgets (squeezeAt t axes) (squeezeAt t' axes) := by
  simp only [squeezeAt, h.element, h.rank]
  refine .bind_same fun places => .bind_same fun rank => .pure ?_
  exact ValueType.forgets_ofRank (h.dims.map _) _ rank

/-! ## Rules -/

namespace Node.Over

variable {n n' : Node} (h : n.Over (Value.Over ValueType.Forgets) n') {α : Type}

include h

lemma bind_input_ok {S : α → β → Prop} {i : Nat} {f : Value → Except Error α}
    {f' : Value → Except Error β}
    (hf : ∀ v w, n.input i = .ok v → v.Over ValueType.Forgets w → IfBoth S (f v) (f' w)) :
    IfBoth S (n.input i >>= f) (n'.input i >>= f') := by
  obtain ⟨v, w, hv, hw, hvw⟩ | ⟨-, hw⟩ := Node.input_cases h.inputs i
  · rw [hv, hw]
    exact hf v w hv hvw
  · rw [hw]
    exact .error_right _

lemma bind_input {S : α → β → Prop} {i : Nat} {f : Value → Except Error α}
    {f' : Value → Except Error β} (hf : ∀ v w, v.Over ValueType.Forgets w → IfBoth S (f v) (f' w)) :
    IfBoth S (n.input i >>= f) (n'.input i >>= f') :=
  h.bind_input_ok fun v w _ => hf v w

lemma entrywise_forgets : IfBoth ValueType.Forgets (entrywise n) (entrywise n') := by
  have hp := presentOperands_forall₂ h.inputs fun _ _ hv => hv.present
  simp only [Typing.entrywise, h.operator, h.outputs, eq_nil_congr h.inputs,
    entrywiseElement_congr (elements_forgets hp), maxRank_congr (ranks_forgets hp)]
  split
  · exact .error_right _
  · refine .bind_same fun t => .bind_same fun rank => ?_
    refine (broadcastShape_forgets hp).bind fun d d' hd => ?_
    exact .pure (ValueType.forgets_ofRank hd t rank)

lemma select_forgets : IfBoth ValueType.Forgets (select n) (select n') := by
  simp only [Typing.select, h.inputs.length_eq, h.outputs, maxRank_congr (ranks_forgets h.inputs)]
  split
  · exact .error_right _
  · refine .bind_same fun rank => (broadcastShape_forgets h.inputs).bind fun d d' hd => ?_
    refine h.bind_input fun v w hv => ?_
    rw [hv.type.element]
    exact .pure (ValueType.forgets_ofRank hd _ rank)

lemma cast_forgets : IfBoth ValueType.Forgets (cast n) (cast n') := by
  simp only [Typing.cast, h.inputs.length_eq, h.outputs, Node.attribute?_congr h.attributes]
  split
  · exact .error_right _
  split
  · refine .bind_same fun t => h.bind_input fun v w hv => .pure ?_
    have ht := hv.type
    revert ht
    generalize v.type = u, w.type = u'
    rintro (_ | ⟨u, dim, dims⟩)
    · exact .same _
    · exact .sizes t dim dims
  · exact .error_right _

lemma constantOfShape_forgets :
    IfBoth ValueType.Forgets (constantOfShape n) (constantOfShape n') := by
  simp only [Typing.constantOfShape, fillElement_congr h.attributes]
  refine .bind_same fun t => h.bind_input fun v w hv => ?_
  have ht := hv.type
  rw [hv.literal]
  split
  · exact .of_eq .same rfl
  · revert ht
    generalize v.type = u, w.type = u'
    rintro (_ | _)
    · exact .of_eq .same rfl
    · exact .error_right _

lemma shape_forgets : IfBoth ValueType.Forgets (shape n) (shape n') := by
  simp only [Typing.shape, h.inputs.length_eq, h.outputs, Node.quantity_congr h.attributes]
  split
  · exact .error_right _
  · refine h.bind_input fun v w hv => ?_
    rw [hv.type.rank]
    exact .of_eq .same rfl

lemma reshape_forgets : IfBoth ValueType.Forgets (reshape n) (reshape n') := by
  simp only [Typing.reshape, h.inputs.length_eq, h.outputs, h.integers?]
  split
  · exact .error_right _
  · refine h.bind_input fun v w hv => .bind_same fun target => ?_
    cases target with
    | some target => exact reshapeTo_forgets h.attributes.symm hv.type target
    | none => exact reshapeAtRun_forgets hv.type (h.type? 1)

lemma unsqueeze_forgets : IfBoth ValueType.Forgets (unsqueeze n) (unsqueeze n') := by
  have hcount : Forgotten (n.inputs[1]?.bind (leadingDim? ·.type))
      (n'.inputs[1]?.bind (leadingDim? ·.type)) := by
    have ht := h.type? 1
    cases hv : n.inputs[1]? <;> cases hw : n'.inputs[1]? <;> rw [hv, hw] at ht <;> cases ht
    · exact .refl _
    · next ht => exact ht.leadingDim?
  simp only [Typing.unsqueeze, h.integers?, h.output]
  refine h.bind_input fun v w hv => .bind_same fun _ => .bind_same fun axes => ?_
  cases axes with
  | some axes => exact unsqueezeAt_forgets hv.type axes
  | none =>
    rcases hcount with hc | hc <;> rw [hc]
    · exact .error_right _
    · rw [hv.type.element, hv.type.rank]
      exact .of_eq .same rfl

lemma squeeze_forgets : IfBoth ValueType.Forgets (squeeze n) (squeeze n') := by
  simp only [Typing.squeeze, h.integers?, h.output]
  refine h.bind_input fun v w hv => .bind_same fun _ => .bind_same fun axes => ?_
  cases axes with
  | some axes => exact squeezeAt_forgets hv.type axes
  | none =>
    rcases hv.type.dims with hd | hd <;> rw [hd]
    · exact .error_right _
    · rw [hv.type.element]
      exact .of_eq .same rfl

lemma flatten_forgets : IfBoth ValueType.Forgets (flatten n) (flatten n') := by
  simp only [Typing.flatten, Node.quantity_congr h.attributes]
  refine h.bind_input fun v w hv => ?_
  rw [hv.type.element, hv.type.rank]
  refine .bind_same fun _ => .bind_same fun axis => ?_
  refine forgets_of_known (fun dims => ?_) hv.type.dims
  refine .bind_left fun i => .bind_left fun before => .bind_left fun after => .pure ?_
  exact ValueType.forgets_ofRank (.inl rfl) _ _

lemma transpose_forgets : IfBoth ValueType.Forgets (transpose n) (transpose n') := by
  simp only [Typing.transpose, h.inputs.length_eq, h.outputs, permutation_congr h.attributes]
  split
  · exact .error_right _
  · refine h.bind_input fun v w hv => ?_
    rw [hv.type.element, hv.type.rank]
    refine .bind_same fun perm => ?_
    split
    · exact .error_right _
    · refine .bind_same fun axes => forgets_of_known (fun dims => ?_) hv.type.dims
      exact .bind_left fun dims => .pure (ValueType.forgets_ofRank (.inl rfl) _ _)

lemma concat_forgets : IfBoth ValueType.Forgets (concat n) (concat n') := by
  simp only [Typing.concat, h.outputs, eq_nil_congr h.inputs, sizeCounts?_forgets h.inputs,
    any_rank_congr (ranks_forgets h.inputs), joinAxis_congr h.attributes]
  split
  · exact .error_right _
  split
  · exact .of_eq .same rfl
  · refine h.bind_input fun v w hv => ?_
    rw [hv.type.element, hv.type.rank]
    split
    · exact .error_right _
    · refine .bind_same fun axis => ?_
      rcases mapM_dims_forgets h.inputs with hd | hd <;> rw [hd]
      · split
        · refine .bind_left fun dims => .pure ?_
          exact ValueType.forgets_ofRank (.inl rfl) _ _
        · exact .of_eq .same rfl
      · exact .of_eq .same rfl

/-- The selection from a vector of sizes guesses a length where it knows none. -/
lemma gather_forgets (hdata : ∀ v, n.input 0 = .ok v → ∀ rank, v.type ≠ .shape rank) :
    IfBoth ValueType.Forgets (gather n) (gather n') := by
  obtain ⟨v, w, hv, hw, hvw⟩ | ⟨-, hw⟩ := Node.input_cases h.inputs 0
  · obtain ⟨i, j, hi, hj, hij⟩ | ⟨-, hj⟩ := Node.input_cases h.inputs 1
    · have hdata' : ∀ rank, w.type ≠ .shape rank :=
        fun rank ht => hdata v hv rank ((hvw.type.eq_shape_iff rank).mp ht)
      rw [gather_of_ne_shape hv hi (hdata v hv), gather_of_ne_shape hw hj hdata',
        hvw.type.element, hvw.type.rank, hij.type.rank, Node.quantity_congr h.attributes]
      refine .bind_same fun axis => .bind_same fun place => ?_
      refine forgets_of_known₂ (fun ds is => ?_) hvw.type.dims hij.type.dims
      refine .bind_left fun dims => .bind_same fun sum => .bind_same fun rank => .pure ?_
      exact ValueType.forgets_ofRank (.inl rfl) _ _
    · simp only [Typing.gather, hw, hj]
      exact .error_right _
  · simp only [Typing.gather, hw]
    exact .error_right _

lemma matMul_forgets : IfBoth ValueType.Forgets (matMul n) (matMul n') := by
  have hin := h.inputs
  unfold Typing.matMul
  rw [h.outputs]
  generalize n.inputs = vs, n'.inputs = ws, n.outputs = os at hin
  rcases hin with _ | ⟨ha, _ | ⟨hb, _ | _⟩⟩ <;> rcases os with _ | ⟨_, _ | _⟩ <;>
    try exact .error_right _
  simp only [ha.type.element, ha.type.rank, hb.type.element, hb.type.rank]
  refine .bind_same fun t => .bind_same fun rank => ?_
  refine forgets_of_known₂ (fun sa sb => ?_) ha.type.dims hb.type.dims
  refine .bind_left fun less => .bind_left fun less' => ?_
  split
  · exact .of_eq .same rfl
  · refine .bind_left fun batch => .bind_left fun inner => .bind_left fun inner' => ?_
    split
    · exact .error_left _
    · refine .bind_left fun rows => .bind_left fun columns => .pure ?_
      exact ValueType.forgets_ofRank (.inl rfl) _ _

lemma linear_forgets : IfBoth ValueType.Forgets (linear n) (linear n') := by
  simp only [Typing.linear]
  refine h.bind_input fun v w hv => h.bind_input fun v' w' hv' => ?_
  rw [hv.type.element, hv.type.rank, hv'.type.rank]
  split
  · exact .error_right _
  · refine forgets_of_known₂ (fun sx sw => ?_) hv.type.dims hv'.type.dims
    exact .bind_left fun width => .pure (ValueType.forgets_ofRank (.inl rfl) _ _)

lemma gemm_forgets : IfBoth ValueType.Forgets (gemm n) (gemm n') := by
  simp only [Typing.gemm, Node.flag_congr h.attributes]
  refine h.bind_input fun v w hv => h.bind_input fun v' w' hv' => ?_
  rw [hv.type.element]
  refine forgets_of_known₂ (fun sx sw => ?_) hv.type.dims hv'.type.dims
  refine .bind_left fun a => .bind_left fun rows => .bind_left fun b => .bind_left fun columns => ?_
  exact .pure (ValueType.forgets_ofRank (.inl rfl) _ _)

lemma conv_forgets : IfBoth ValueType.Forgets (conv n) (conv n') := by
  have hin := h.inputs
  simp only [Typing.conv, h.operator, h.outputs, groupsDivide_congr h.attributes,
    kernelSizes_congr h.attributes, spatialDims_congr h.attributes]
  generalize n.inputs = vs, n'.inputs = ws, n.outputs = os at hin
  rcases hin with _ | ⟨ha, _ | ⟨hb, _⟩⟩ <;> rcases os with _ | ⟨_, _ | _⟩ <;>
    try exact .error_right _
  simp only [ha.type.element, ha.type.rank]
  refine .bind_same fun axes => .bind_same fun expected => ?_
  split
  · exact .error_right _
  refine forgets_of_known₂ (fun sx sw => ?_) ha.type.dims hb.type.dims
  refine .bind_left fun channels => .bind_left fun divides => ?_
  split
  · exact .error_left _
  · refine .bind_left fun kernel => .bind_left fun spatial => .bind_left fun batch => ?_
    exact .bind_left fun channels => .pure (ValueType.forgets_ofRank (.inl rfl) _ _)

lemma convTranspose_forgets : IfBoth ValueType.Forgets (convTranspose n) (convTranspose n') := by
  simp only [Typing.convTranspose, h.operator, kernelSizes_congr h.attributes,
    Node.intList_congr h.attributes, groupedChannels_congr h.attributes]
  refine h.bind_input fun v w hv => h.bind_input fun v' w' hv' => ?_
  rw [hv.type.element, hv.type.rank]
  refine forgets_of_known₂ (fun sx sw => ?_) hv.type.dims hv'.type.dims
  repeat refine .bind_left fun _ => ?_
  exact .pure (ValueType.forgets_ofRank (.inl rfl) _ _)

/-- The result has as many axes as there are sizes, or else the rank of the operand. -/
lemma pool_forgets (hco : ∀ v ∈ n.inputs, v.type.Coherent) :
    IfBoth ValueType.Forgets (pool n) (pool n') := by
  simp only [Typing.pool, h.operator, h.outputs, Node.intList_congr h.attributes,
    spatialDims_congr h.attributes]
  split
  · exact .error_right _
  refine h.bind_input_ok fun v w hv hvw => .bind_same fun kernel => ?_
  have hcoherent := hco v (List.mem_of_getElem? (Node.input_eq_ok.mp hv))
  have ht := hvw.type
  split
  · exact .error_right _
  revert ht hcoherent
  generalize v.type = t, w.type = t'
  rintro hcoherent (_ | ⟨t, dim, dims⟩)
  · exact .of_eq .same rfl
  · obtain rfl : dim = .ofNat dims.length := hcoherent
    simp only [ValueType.dims?]
    split
    · exact .error_left _
    · exact .bind_left fun spatial => .pure (ValueType.forgets_ofRank (.inl rfl) _ _)

lemma globalPool_forgets : IfBoth ValueType.Forgets (globalPool n) (globalPool n') := by
  unfold Typing.globalPool
  refine h.bind_input fun v w hv => .pure ?_
  rw [hv.type.element, hv.type.rank]
  exact ValueType.forgets_ofRank (hv.type.dims.map _) _ _

lemma reduce_forgets : IfBoth ValueType.Forgets (reduce n) (reduce n') := by
  have hplaces : ∀ rank, reducedPlaces n rank = reducedPlaces n' rank := by
    intro rank
    simp only [reducedPlaces, greatestAxis, h.operator, Node.quantity_congr h.attributes,
      h.integers?]
  simp only [Typing.reduce, hplaces, h.operator, Node.flag_congr h.attributes]
  refine h.bind_input fun v w hv => ?_
  rw [hv.type.element, hv.type.rank]
  refine .bind_same fun places => .bind_same fun keep => ?_
  split
  · exact .pure (ValueType.forgets_ofRank (hv.type.dims.map _) _ _)
  · refine .bind_same fun rank => .pure ?_
    exact ValueType.forgets_ofRank (hv.type.dims.map _) _ _

lemma constant_forgets : IfBoth ValueType.Forgets (Typing.constant n) (Typing.constant n') := by
  simp only [Typing.constant, Node.constant, Node.attribute?_congr h.attributes, h.name]
  exact .of_eq .same rfl

/-- A rule gives the second node the type of the first, but that sizes may have been forgotten. -/
theorem rule_forgets {rule : Node → Except Error ValueType} (hrule : rule? n.operator = some rule)
    (hco : ∀ v ∈ n.inputs, v.type.Coherent)
    (hdata : n.operator = .gather → ∀ v, n.input 0 = .ok v → ∀ rank, v.type ≠ .shape rank) :
    IfBoth ValueType.Forgets (rule n) (rule n') := by
  cases ho : n.operator <;>
    simp only [ho, rule?, Option.some.injEq, reduceCtorEq] at hrule <;> subst hrule
  case select => exact h.select_forgets
  case cast => exact h.cast_forgets
  case constant => exact h.constant_forgets
  case constantOfShape => exact h.constantOfShape_forgets
  case shape => exact h.shape_forgets
  case reshape => exact h.reshape_forgets
  case unsqueeze => exact h.unsqueeze_forgets
  case squeeze => exact h.squeeze_forgets
  case flatten => exact h.flatten_forgets
  case transpose => exact h.transpose_forgets
  case concat => exact h.concat_forgets
  case gather => exact h.gather_forgets (hdata ho)
  case matMul => exact h.matMul_forgets
  case linear => exact h.linear_forgets
  case gemm => exact h.gemm_forgets
  case conv | conv1d | conv2d | conv3d => exact h.conv_forgets
  case convTranspose | convTranspose1d | convTranspose2d | convTranspose3d =>
    exact h.convTranspose_forgets
  case maxPool | maxPool1d | maxPool2d | averagePool | averagePool1d | averagePool2d =>
    exact h.pool_forgets hco
  case globalAveragePool | globalMaxPool => exact h.globalPool_forgets
  case reduceMax | reduceMean | reduceMin | reduceProd | reduceSum | argMax =>
    exact h.reduce_forgets
  all_goals exact h.entrywise_forgets

end Node.Over

lemma forall₂_forgets_refl (vs : List Value) :
    List.Forall₂ (fun v w => v.type.Forgets w.type) vs vs :=
  List.forall₂_same.mpr fun v _ => .same v.type

/-- Where a node is typed, with and without some of the sizes of its operands, its outputs have the
same types but for the sizes that may not be known any more. A selection from a vector of sizes is
an exception. -/
theorem Node.infer_forgets {n n' m m' : Node} (h : n.Over (Value.Over ValueType.Forgets) n')
    (hco : ∀ v ∈ n.inputs, v.type.Coherent)
    (hdata : n.operator = .gather → ∀ v, n.input 0 = .ok v → ∀ rank, v.type ≠ .shape rank)
    (hm : n.infer = .ok m) (hm' : n'.infer = .ok m') :
    List.Forall₂ (fun v w => v.type.Forgets w.type) m.outputs m'.outputs := by
  simp only [Node.infer, Node.typedOutputs, h.operator, h.outputs, Except.bind_eq_ok,
    Except.pure_eq_ok] at hm hm'
  obtain ⟨vs, hvs, rfl⟩ := hm
  obtain ⟨ws, hws, rfl⟩ := hm'
  cases hrule : rule? n.operator with
  | none =>
    rw [hrule, Except.ok.injEq] at hvs hws
    exact hvs ▸ hws ▸ h.keepType .same
  | some rule =>
    rw [hrule] at hvs hws
    obtain ⟨t, ht, hvs⟩ := Except.bind_eq_ok.mp hvs
    obtain ⟨t', ht', hws⟩ := Except.bind_eq_ok.mp hws
    have htypes := h.rule_forgets hrule hco hdata t t' ht ht'
    cases hout : n.outputs with
    | nil => simp [hout, outOfRange] at hvs
    | cons v outputs =>
      rw [hout, Except.pure_eq_ok] at hvs hws
      exact hvs ▸ hws ▸ .cons htypes (forall₂_forgets_refl outputs)

/-- A pool over a plane whose sizes are known, or not. -/
def planePool (dims : Option (List Size)) : Node where
  operator := .maxPool2d
  name := "maxpool2d1"
  inputs := [{ name := "x", type := .tensor .float32 4 dims }]
  outputs := [{ name := "y" }]
  attributes := Table.insert ∅ "kernel_shape" (.ints [2, 2])

theorem Node.infer_forgets_planePool :
    ∃ m m', (planePool (some [1, 3, 8, 8])).infer = .ok m ∧ (planePool none).infer = .ok m' ∧
      m.outputs.map Value.type = [.tensor .float32 4 (some [1, 3, 7, 7])] ∧
      List.Forall₂ (fun v w => v.type.Forgets w.type) m.outputs m'.outputs := by
  obtain ⟨m, hm, htype⟩ : ∃ m, (planePool (some [1, 3, 8, 8])).infer = .ok m ∧
      m.outputs.map Value.type = [.tensor .float32 4 (some [1, 3, 7, 7])] :=
    Except.exists_ok (by decide +kernel)
  obtain ⟨m', hm', -⟩ : ∃ m', (planePool none).infer = .ok m' ∧ m'.operator = .maxPool2d :=
    Except.exists_ok (by decide +kernel)
  have hover : (planePool (some [1, 3, 8, 8])).Over (Value.Over ValueType.Forgets)
      (planePool none) :=
    ⟨rfl, rfl, .cons ⟨rfl, rfl, rfl, .sizes _ _ _⟩ .nil, rfl, rfl⟩
  refine ⟨m, m', hm, hm', htype, Node.infer_forgets hover ?_ ?_ hm hm'⟩
  · intro v hv
    obtain rfl := List.mem_singleton.mp hv
    rfl
  · simp [planePool]

end TensorGraph
