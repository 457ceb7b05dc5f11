import TensorGraph.Proofs.Safety.Rules

/-!
# Safe typing

Typing refuses a node without a defect with a coded error (`Node.coded_infer`): so do the rules for
operators with windows, and with them all.
-/

namespace TensorGraph

open Typing ValueType Onnx

variable {n : Node} {v w x : Value} {ds ws is : List Int} {r : Nat} {key : String}

lemma floorDiv_whole {i j : Int} (hj : j ≠ 0) :
    Size.floorDiv (.whole i) (.whole j) = .ok (.whole (Int.fdiv i j)) := if_neg hj

lemma exists_coverCount (size : Int) {stride : Int} (h : stride ≠ 0) :
    ∃ s, coverCount (.whole size) stride = .ok s := by
  unfold coverCount
  rw [Size.neg_whole, Except.ok_bind, floorDiv_whole h]
  exact ⟨_, rfl⟩

lemma exists_windowCount {size kernel stride : Int} (h : stride ≠ 0) (dilation before after : Int) :
    ∃ s, windowCount (.whole size) (.whole kernel) stride dilation before after = .ok s := by
  have hsub : ∀ k : Int, Size.sub (.whole k) 1 = .ok (.whole (k - 1)) := fun _ => rfl
  unfold windowCount
  simp only [Size.add_whole, Size.sub_whole, Size.mul_whole, hsub, Except.ok_bind, floorDiv_whole h]
  exact ⟨_, rfl⟩

lemma length_splitPads (pads : List Int) (axes : Nat) :
    (splitPads pads axes).1.length = axes ∧ (splitPads pads axes).2.length = axes := by
  unfold splitPads
  split
  · next h =>
    rw [List.length_take, List.length_drop]
    omega
  · split
    · next h => exact ⟨h, h⟩
    · simp

lemma coded_kernelSizes (n : Node) (default : List Size) :
    FailsOnly Error.Coded (kernelSizes n default) := by
  unfold kernelSizes
  split <;> simp

lemma kernelSizes_whole {kernel : List Size}
    (h : kernelSizes n ((ws.map .whole).drop 2) = .ok kernel) :
    ∃ ks : List Int, kernel = ks.map .whole := by
  unfold kernelSizes at h
  split at h
  · rw [← List.map_drop, Except.ok.injEq] at h
    exact ⟨_, h.symm⟩
  · obtain ⟨ks, -, rfl⟩ := Except.map_eq_ok.mp h
    exact ⟨ks, rfl⟩

lemma Node.Slides.auto_pad {axes : Nat} (h : n.Slides x axes) :
    ("auto_pad", Attribute.Kind.plain) ∈ n.operator.signature := by
  have hkey : ∀ o ∈ Operator.convolutions ++ Operator.pools,
      ("auto_pad", Attribute.Kind.plain) ∈ o.signature := by
    decide
  apply hkey
  cases h with
  | conv hop => exact List.mem_append_left _ hop
  | pool hop => exact List.mem_append_right _ hop

/-- Along each axis, a window that moves has a number of places. -/
lemma exists_windowCounts {ks strides dilations : List Int} (pads : List Int) (hn : ¬ n.Defective)
    (hslides : n.Slides x ks.length) (hds : x.type.Sized ds) (hcovers : coversAxes n = .ok false)
    (hstrides : n.intList "strides" (List.replicate ks.length 1) = .ok strides)
    (hdilations : n.intList "dilations" (List.replicate ks.length 1) = .ok dilations) {i : Nat}
    (hi : i < ks.length) : ∃ s, (do
      windowCount (← Place.get (Place.onward (ds.map Size.whole) (-ks.length)) i)
        (← Place.get (ks.map Size.whole) i) (← Place.get strides i) (← Place.get dilations i)
        (← Place.get (splitPads pads ks.length).1 i)
        (← Place.get (splitPads pads ks.length).2 i)) = .ok s := by
  have hfits : ¬ ds.length < ks.length := fun h => hn (.window hslides hds hcovers h)
  have honward : (Place.onward ds (-ks.length)).length = ks.length := by
    simp only [Place.onward, Place.clamp, List.length_drop]
    split <;> omega
  obtain ⟨hbefore, hafter⟩ := length_splitPads pads ks.length
  obtain ⟨d, hget⟩ := Place.exists_size (Place.onward ds (-ks.length)) i (by omega)
  obtain ⟨k, hget'⟩ := Place.exists_size ks i (by omega)
  obtain ⟨stride, hmem, hstride⟩ := Node.exists_steps hn hslides hcovers (by simp) hstrides hi
  obtain ⟨dilation, -, hdilation⟩ := Node.exists_steps hn hslides hcovers (by simp) hdilations hi
  obtain ⟨before, -, hbefore⟩ := Place.exists_get (splitPads pads ks.length).1 i (by omega)
  obtain ⟨after, -, hafter⟩ := Place.exists_get (splitPads pads ks.length).2 i (by omega)
  have hmoves : stride ≠ 0 := by
    rintro rfl
    exact hn (.stride hslides hstrides hmem)
  simp only [onward_map_whole, hget, hget', hstride, hdilation, hbefore, hafter, Except.ok_bind]
  exact exists_windowCount hmoves dilation before after

lemma coded_spatialDims {ks : List Int} (hn : ¬ n.Defective) (hslides : n.Slides x ks.length)
    (hds : x.type.Sized ds) :
    FailsOnly Error.Coded (spatialDims n (ds.map .whole) (ks.map .whole)) := by
  have hform : ¬ n.Malformed := mt .malformed hn
  obtain ⟨covers, hcovers⟩ := Node.exists_coversAxes hform hslides.auto_pad
  simp only [spatialDims, List.length_map, failsOnly_bind, Node.coded_intList, true_and, hcovers,
    failsOnly_ok, Except.ok.injEq, forall_eq']
  intro strides hstrides dilations hdilations pads _
  cases covers with
  | true =>
    rw [if_pos rfl]
    refine failsOnly_mapM fun e he => ?_
    obtain ⟨hsize, hmem⟩ := List.of_mem_zip he
    have hwhole : ∃ k : Int, e.1 = .whole k := by
      split at hsize
      · obtain ⟨k, -, hk⟩ := List.mem_map.mp hsize
        exact ⟨k, hk.symm⟩
      · rw [onward_map_whole] at hsize
        obtain ⟨k, -, hk⟩ := List.mem_map.mp hsize
        exact ⟨k, hk.symm⟩
    obtain ⟨k, hk⟩ := hwhole
    have hmoves : e.2 ≠ 0 := by
      intro hzero
      exact hn (.stride hslides hstrides (hzero ▸ hmem))
    obtain ⟨s, hs⟩ := exists_coverCount k hmoves
    simp [hk, hs]
  | false =>
    rw [if_neg (by simp)]
    refine failsOnly_mapM fun i hi => ?_
    have hlt : i < ks.length := List.mem_range.mp hi
    obtain ⟨s, hs⟩ := exists_windowCounts pads hn hslides hds hcovers hstrides hdilations hlt
    have hne : ks.length ≠ 0 := by omega
    simp only [if_neg hne, hs, failsOnly_ok]

lemma exists_groupsDivide (hn : ¬ n.Defective) (hop : n.operator ∈ Operator.convolutions)
    (channels : Int) : ∃ b, groupsDivide n (.whole channels) = .ok b := by
  have hform : ¬ n.Malformed := mt .malformed hn
  have hkey : ∀ o ∈ Operator.convolutions, ("group", Attribute.Kind.integer) ∈ o.signature := by
    decide
  unfold groupsDivide Node.quantity
  cases ha : n.attribute? "group" with
  | none => exact ⟨_, rfl⟩
  | some a =>
    obtain ⟨g, rfl, -⟩ := Node.attribute_isOf hform _ (hkey n.operator hop) ha
    have hg : g ≠ 0 := by
      rintro rfl
      exact hn (.groups hop ha)
    exact ⟨_, if_neg hg⟩

/-- The number of spatial axes of a convolution is an integer, negative only over any number of
axes. -/
lemma exists_spatialCount (o : Operator) (r : Nat) : ∃ k : Int,
    spatialCount o (.ofNat r) = .ok (.whole k) ∧ (0 ≤ k ∨ o.spatialAxes? = none) := by
  unfold spatialCount
  split
  · next k _ => exact ⟨k, rfl, .inl (by omega)⟩
  · next hnone => exact ⟨r - 2, rfl, .inr hnone⟩

lemma eq_conv_of_spatialAxes? (hop : n.operator ∈ Operator.convolutions)
    (hnone : n.operator.spatialAxes? = none) : n.operator = .conv := by
  have hkinds : ∀ o ∈ Operator.convolutions, o.spatialAxes? = none → o = .conv := by decide
  exact hkinds n.operator hop hnone

/-- The axes that a convolution reads are there, unless it runs over any number of axes. -/
lemma Node.Convolves.exists_axes (h : n.Convolves x w ds ws) (hn : ¬ n.Defective)
    (hkind : n.operator = .conv ∨ 2 ≤ ds.length) : ∃ batch channels outputs : Int,
      Place.get (ds.map Size.whole) 0 = .ok (.whole batch) ∧
        Place.get (ds.map Size.whole) 1 = .ok (.whole channels) ∧
          Place.get (ws.map Size.whole) 0 = .ok (.whole outputs) := by
  have hlong : ¬ (n.operator = .conv ∧ ds.length < 2 ∨ ws = []) :=
    fun hshort => hn (.channels h hshort)
  obtain ⟨hdata, hweights⟩ := not_or.mp hlong
  have hpositive : 0 < ws.length := List.length_pos_iff.mpr hweights
  have htwo : 2 ≤ ds.length := by
    rcases hkind with hop | htwo
    · by_contra hshort
      exact hdata ⟨hop, by omega⟩
    · exact htwo
  obtain ⟨batch, hbatch⟩ := Place.exists_size ds 0 (by omega)
  obtain ⟨channels, hchannels⟩ := Place.exists_size ds 1 (by omega)
  obtain ⟨outputs, houtputs⟩ := Place.exists_size ws 0 (by omega)
  exact ⟨batch, channels, outputs, hbatch, hchannels, houtputs⟩

lemma coded_conv (hn : ¬ n.Defective) (hop : n.operator ∈ Operator.convolutions) :
    FailsOnly Error.Coded (conv n) := by
  have hform : ¬ n.Malformed := mt .malformed hn
  unfold conv
  split
  swap
  · simp
  next x w _ _ hinputs _ =>
  have hrule : (rule? n.operator).isSome := by rw [rule?_convolutions hop]; rfl
  have hx : n.input 0 = .ok x := Node.input_eq_ok.mpr (by simp [hinputs])
  have hw : n.input 1 = .ok w := Node.input_eq_ok.mpr (by simp [hinputs])
  have hproper : x.type.Proper := Node.proper_of_mem hform hrule (by simp [hinputs])
  have hproper' : w.type.Proper := Node.proper_of_mem hform hrule (by simp [hinputs])
  obtain ⟨r, -, hr⟩ := hproper.exists_axes
  obtain ⟨k, hk, hcount⟩ := exists_spatialCount n.operator r
  have hadd : Size.add (.whole k) 2 = .ok (.whole (k + 2)) := rfl
  have hequals : (Size.ofNat r).equals (.whole (k + 2)) = decide ((r : Int) = k + 2) := rfl
  simp only [hr.rank, hk, hadd, hequals, Except.ok_bind]
  split
  · simp
  next hrank =>
  have hrank : (r : Int) = k + 2 := by simpa using hrank
  split
  swap
  · simp
  next sx sw hsx hsw =>
  obtain ⟨ds, rfl, hds, -⟩ := hproper.exists_sizes hsx
  obtain ⟨ws, rfl, hws, -⟩ := hproper'.exists_sizes hsw
  have hconv : n.Convolves x w ds ws := ⟨hop, hx, hw, hds, hws⟩
  have hlength : ds.length = r := by simpa using hr.length _ hsx
  have hkind : n.operator = .conv ∨ 2 ≤ ds.length := by
    rcases hcount with hcount | hnone
    · exact .inr (by omega)
    · exact .inl (eq_conv_of_spatialAxes? hop hnone)
  obtain ⟨batch, channels, outputs, hbatch, hchannels, houtputs⟩ := hconv.exists_axes hn hkind
  obtain ⟨divide, hdivide⟩ := exists_groupsDivide hn hop channels
  simp only [hchannels, hdivide, Except.ok_bind, hbatch, houtputs]
  split
  · simp
  simp only [failsOnly_bind, coded_kernelSizes, true_and]
  intro kernel hkernel
  obtain ⟨ks, rfl⟩ := kernelSizes_whole hkernel
  have hslides : n.Slides x ks.length := .conv hop hx hw hsw hkernel (List.length_map _)
  simp [coded_spatialDims hn hslides hds]

lemma coded_pool (hn : ¬ n.Defective) (hop : n.operator ∈ Operator.pools) :
    FailsOnly Error.Coded (pool n) := by
  have hform : ¬ n.Malformed := mt .malformed hn
  have hrequired : ∀ o ∈ Operator.pools, 0 < o.required := by decide
  obtain ⟨x, hmem, hx⟩ := Node.exists_input hform (hrequired n.operator hop)
  have hrule : (rule? n.operator).isSome := by rw [rule?_pools hop]; rfl
  have hproper : x.type.Proper := Node.proper_of_mem hform hrule hmem
  unfold pool
  split
  · simp
  simp only [hx, Except.ok_bind, failsOnly_bind, Node.coded_intList, true_and]
  intro ks hks
  split
  · simp
  cases hdims : x.type.dims? with
  | none => simp
  | some sizes =>
    obtain ⟨ds, rfl, hds, -⟩ := hproper.exists_sizes hdims
    have hslides : n.Slides x ks.length := .pool hop hx hks rfl
    simp [coded_spatialDims hn hslides hds]

lemma exists_scatteredSize (size kernel stride dilation padding before after : Int) :
    ∃ s, scatteredSize (.whole size) (.whole kernel) stride dilation padding before after = .ok s := by
  have hsub : ∀ k : Int, Size.sub (.whole k) 1 = .ok (.whole (k - 1)) := fun _ => rfl
  unfold scatteredSize
  simp only [Size.add_whole, Size.mul_whole, hsub, Except.ok_bind]
  exact ⟨_, rfl⟩

lemma exists_groupedChannels (hn : ¬ n.Malformed)
    (hop : n.operator ∈ Operator.transposedConvolutions) (channels : Int) :
    ∃ s, groupedChannels n (.whole channels) = .ok s := by
  have hkey : ∀ o ∈ Operator.transposedConvolutions,
      ("group", Attribute.Kind.integer) ∈ o.signature := by
    decide
  unfold groupedChannels
  cases ha : n.attribute? "group" with
  | none => exact ⟨_, rfl⟩
  | some a =>
    obtain ⟨g, rfl, -⟩ := Node.attribute_isOf hn _ (hkey n.operator hop) ha
    exact ⟨_, rfl⟩

lemma spatialAxes?_le {o : Operator} {k : Nat} (h : o.spatialAxes? = some k) : k ≤ 3 := by
  unfold Operator.spatialAxes? at h
  split at h <;> simp at h <;> omega

lemma exists_countBeside_spatialCount {o : Operator} (hr : r < 2 ^ 63) (held : Nat) : ∃ s,
    spatialCount o (.ofNat r) = .ok s ∧ s.countBeside held = .ok (o.spatialAxes?.getD (r - 2)) := by
  have hexists : ∃ k : Int, spatialCount o (.ofNat r) = .ok (.whole k) ∧ k < 2 ^ 63 := by
    unfold spatialCount
    split
    · next k hk =>
      have := spatialAxes?_le hk
      exact ⟨k, rfl, by omega⟩
    · exact ⟨r - 2, rfl, by omega⟩
  obtain ⟨k, hk, hle⟩ := hexists
  have hcount := Size.countBeside_whole hle held
  exact ⟨.whole k, hk, by rw [hcount, countBeside_spatialCount hk hcount]⟩

namespace Node.Scatters

variable {axes : Nat} {default : Int}

lemma exists_axes (h : n.Scatters x w ds ws axes) (hn : ¬ n.Defective) :
    (∃ batch : Int, Place.get (ds.map Size.whole) 0 = .ok (.whole batch)) ∧
      (∃ channels : Int, Place.get (ws.map Size.whole) 1 = .ok (.whole channels)) ∧
        ∀ i < axes, ∃ d : Int, Place.get (ds.map Size.whole) (i + 2) = .ok (.whole d) := by
  have hlong : ¬ (ds = [] ∨ 0 < axes ∧ ds.length < axes + 2 ∨ ws.length < 2) :=
    fun hshort => hn (.scattered h hshort)
  obtain ⟨hdata, hspatial, hweights⟩ := by simpa only [not_or, not_and, Nat.not_lt] using hlong
  have hpositive : 0 < ds.length := List.length_pos_iff.mpr hdata
  refine ⟨Place.exists_size ds 0 (by omega), Place.exists_size ws 1 (by omega), ?_⟩
  intro i hi
  have hlength := hspatial (by omega)
  exact Place.exists_size ds (i + 2) (by omega)

lemma exists_kernel {ks : List Int} (h : n.Scatters x w ds ws axes) (hn : ¬ n.Defective)
    (hkernel : kernelSizes n ((ws.map .whole).drop 2) = .ok (ks.map .whole)) {i : Nat}
    (hi : i < axes) : ∃ k : Int, Place.get (ks.map Size.whole) i = .ok (.whole k) := by
  have hlength : ¬ (ks.map Size.whole).length < axes :=
    fun hshort => hn (.scatteredWindow h hkernel hshort)
  rw [List.length_map] at hlength
  exact Place.exists_size ks i (by omega)

lemma exists_step (h : n.Scatters x w ds ws axes) (hn : ¬ n.Defective)
    (hkey : (key, default) ∈ Operator.scatterLists)
    (his : n.intList key (List.replicate axes default) = .ok is) {i : Nat} (hi : i < axes) :
    ∃ k, Place.get is i = .ok k := by
  have hlength : ¬ is.length < axes := fun hshort => hn (.scatteredSteps h hkey his hshort)
  obtain ⟨k, -, hk⟩ := Place.exists_get is i (by omega)
  exact ⟨k, hk⟩

end Node.Scatters

lemma coded_convTranspose (hn : ¬ n.Defective)
    (hop : n.operator ∈ Operator.transposedConvolutions) :
    FailsOnly Error.Coded (convTranspose n) := by
  have hform : ¬ n.Malformed := mt .malformed hn
  have hrule : (rule? n.operator).isSome := by rw [rule?_transposedConvolutions hop]; rfl
  have hrequired : ∀ o ∈ Operator.transposedConvolutions, o.required = 2 := by decide
  have htwo := hrequired n.operator hop
  obtain ⟨x, hxmem, hx⟩ := Node.exists_input (i := 0) hform (by omega)
  obtain ⟨w, hwmem, hw⟩ := Node.exists_input (i := 1) hform (by omega)
  have hproper : x.type.Proper := Node.proper_of_mem hform hrule hxmem
  have hproper' : w.type.Proper := Node.proper_of_mem hform hrule hwmem
  simp only [convTranspose, hx, hw, Except.ok_bind]
  split
  swap
  · simp
  next sx sw hsx hsw =>
  obtain ⟨ds, rfl, hds, hlist⟩ := hproper.exists_sizes hsx
  obtain ⟨ws, rfl, hws, -⟩ := hproper'.exists_sizes hsw
  obtain ⟨s, hs, hcount⟩ := exists_countBeside_spatialCount (o := n.operator) hlist.length_lt
    ds.length
  generalize haxes : n.operator.spatialAxes?.getD (ds.length - 2) = axes at hcount
  have hscatters : n.Scatters x w ds ws axes := ⟨hop, hx, hw, hds, hws, haxes⟩
  obtain ⟨⟨batch, hbatch⟩, ⟨c, hchannels⟩, hspatial⟩ := hscatters.exists_axes hn
  obtain ⟨grouped, hgrouped⟩ := exists_groupedChannels hform hop c
  simp only [hds.rank, hs, Except.ok_bind, List.length_map, hcount, hchannels, hbatch, hgrouped,
    failsOnly_bind, coded_kernelSizes, Node.coded_intList, true_and, failsOnly_pure, implies_true,
    and_true]
  intro kernel hkernel strides hstrides dilations hdilations padding hpadding pads _
  obtain ⟨ks, rfl⟩ := kernelSizes_whole hkernel
  obtain ⟨hbefore, hafter⟩ := length_splitPads pads axes
  refine failsOnly_mapM fun i hi => ?_
  have hlt : i < axes := List.mem_range.mp hi
  obtain ⟨d, hget⟩ := hspatial i hlt
  obtain ⟨k, hk⟩ := hscatters.exists_kernel hn hkernel hlt
  obtain ⟨stride, hstride⟩ := hscatters.exists_step hn (by simp [Operator.scatterLists]) hstrides hlt
  obtain ⟨dilation, hdilation⟩ :=
    hscatters.exists_step hn (by simp [Operator.scatterLists]) hdilations hlt
  obtain ⟨extra, hextra⟩ := hscatters.exists_step hn (by simp [Operator.scatterLists]) hpadding hlt
  obtain ⟨before, -, hbefore⟩ := Place.exists_get (splitPads pads axes).1 i (by omega)
  obtain ⟨after, -, hafter⟩ := Place.exists_get (splitPads pads axes).2 i (by omega)
  obtain ⟨scattered, hscattered⟩ := exists_scatteredSize d k stride dilation extra before after
  simp [hget, hk, hstride, hdilation, hextra, hbefore, hafter, hscattered]

/-! ## Nodes -/

/-- A rule refuses a node without a defect with a coded error. -/
theorem coded_rule {rule : Node → Except Error ValueType} (hn : ¬ n.Defective)
    (hrule : rule? n.operator = some rule) : FailsOnly Error.Coded (rule n) := by
  have hform : ¬ n.Malformed := mt .malformed hn
  have hproper : ∀ v ∈ n.inputs, v.type.Proper :=
    fun v hv => Node.proper_of_mem hform (by simp [hrule]) hv
  generalize ho : n.operator = o at hrule
  cases o
  all_goals first | (obtain rfl := Option.some.inj hrule) | simp [rule?] at hrule
  case select => exact coded_select hproper
  case cast => exact coded_cast hn ho
  case constant => exact coded_constant hform ho
  case constantOfShape => exact coded_constantOfShape hn ho
  case shape => exact coded_shape hform ho
  case reshape => exact coded_reshape hn ho
  case unsqueeze => exact coded_unsqueeze hn ho
  case squeeze => exact coded_squeeze hn ho
  case flatten => exact coded_flatten hform ho
  case transpose => exact coded_transpose hform ho
  case concat => exact coded_concat hform ho
  case gather => exact coded_gather hform ho
  case matMul => exact coded_matMul hproper
  case linear => exact coded_linear hform ho
  case gemm => exact coded_gemm hn ho
  case conv | conv1d | conv2d | conv3d => exact coded_conv hn (by simp [ho, Operator.convolutions])
  case convTranspose | convTranspose1d | convTranspose2d | convTranspose3d =>
    exact coded_convTranspose hn (by simp [ho, Operator.transposedConvolutions])
  case maxPool | maxPool1d | maxPool2d | averagePool | averagePool1d | averagePool2d =>
    exact coded_pool hn (by simp [ho, Operator.pools])
  case globalAveragePool => exact coded_globalPool hform (.inl ho)
  case globalMaxPool => exact coded_globalPool hform (.inr ho)
  case reduceMax | reduceMean | reduceMin | reduceProd | reduceSum | argMax =>
    exact coded_reduce hn (by simp [ho, Operator.reductions])
  all_goals exact coded_entrywise hproper

/-- Typing refuses a node without a defect with a coded error. -/
theorem Node.coded_infer (hn : ¬ n.Defective) : FailsOnly Error.Coded n.infer := by
  have hform : ¬ n.Malformed := mt .malformed hn
  obtain ⟨y, ys, hy⟩ := Node.exists_outputs hform
  have htyped : FailsOnly Error.Coded n.typedOutputs := by
    unfold typedOutputs
    split
    · simp
    · next rule hrule => simp [hy, coded_rule hn hrule]
  simp [infer, htyped]

end TensorGraph
