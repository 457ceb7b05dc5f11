import TensorGraph.Proofs.WindowCounts

/-!
# Windows of transposed convolutions

A transposed convolution spreads each entry of its operand over a window of the result. A
convolution that moves the same windows over that result has one placement for each entry again, so
that it gives the type of the operand back (`Node.SpreadsWindows.conv_resultType`): the axes may be
longer than the windows reach, if it is by less than a stride.
-/

namespace TensorGraph

open Typing ValueType

/-- A window that is spread along an axis of some size, and what the result is longer by. -/
structure SpreadWindow extends Window where
  extra : Int

namespace SpreadWindow

/-- The size of the axis along which the windows are spread. -/
def spread (w : SpreadWindow) : Int :=
  w.stride * (w.size - 1) + w.extra + (w.kernel - 1) * w.dilation + 1 - w.before - w.after

/-- The window along the axis of the result. -/
def gathered (w : SpreadWindow) : Window := { w.toWindow with size := w.spread }

end SpreadWindow

namespace Node

/-- The node spreads one window along each spatial axis of `x`, which has a channel for each of the
weights `v`. -/
structure SpreadsWindows (n : Node) (x v : Value) (batch channels perGroup : Int)
    (ws : List SpreadWindow) : Prop where
  operator : n.operator ∈ Operator.transposedConvolutions
  kind : n.KindFits ws.length
  data : n.input 0 = .ok x
  type : ∃ e, x.type = .tensor e (.ofNat (ws.length + 2))
    (some ((batch :: channels :: ws.map fun w => w.size).map .whole))
  weights : n.input 1 = .ok v
  kernel : ∃ sizes : List Int, v.type.dims? = some ((channels :: perGroup :: sizes).map .whole) ∧
    n.intList "kernel_shape" sizes = .ok (ws.map fun w => w.kernel)
  moves : n.MovesWindows (ws.map SpreadWindow.toWindow)
  extra : n.intList "output_padding" (List.replicate ws.length 0) =
    .ok (ws.map SpreadWindow.extra)
  group : ∀ a, n.attribute? "group" = some a → ∃ g : Int, 1 ≤ g ∧ a = .int g
  outputs : n.outputs ≠ []

/-- The node moves along the `k` spatial axes of an operand of type `t` the windows that `n`
spreads. -/
structure GathersWindows (m n : Node) (t : ValueType) (k : Nat) : Prop where
  operator : m.operator ∈ Operator.convolutions
  kind : m.KindFits k
  data : ∃ y, m.input 0 = .ok y ∧ y.type = t
  weights : m.input 1 = n.input 1
  outputs : ∃ z, m.outputs = [z]
  attributes : ∀ key ∈ ["kernel_shape", "strides", "dilations", "pads", "group"],
    m.attribute? key = n.attribute? key
  plain : ∀ a, m.attribute? "auto_pad" = some a →
    a.isText "SAME_UPPER" = .ok false ∧ a.isText "SAME_LOWER" = .ok false

end Node

variable {n m : Node} {t : ValueType} {x v : Value} {w : SpreadWindow} {ws : List SpreadWindow}
  {batch channels perGroup g c : Int} {k : Nat}

lemma SpreadWindow.count_gathered (h : 0 ≤ w.extra ∧ w.extra < w.stride) :
    w.gathered.count = w.size := by
  obtain ⟨hnonneg, hlt⟩ := h
  have hpos : 0 < w.stride := by omega
  have hroom : w.gathered.room = w.extra + w.stride * (w.size - 1) := by
    have hreach : (w.kernel - 1) * w.dilation = w.dilation * (w.kernel - 1) := Int.mul_comm _ _
    change w.spread + w.before + w.after - w.dilation * (w.kernel - 1) - 1 = _
    rw [spread, hreach]
    omega
  have hplaces : (w.extra + w.stride * (w.size - 1)).fdiv w.stride = w.size - 1 := by
    rw [Int.fdiv_eq_ediv_of_nonneg _ hpos.le, Int.add_mul_ediv_left _ _ hpos.ne',
      Int.ediv_eq_zero_of_lt hnonneg hlt, Int.zero_add]
  have hcount : w.gathered.count = w.gathered.room.fdiv w.stride + 1 := rfl
  rw [hcount, hroom, hplaces, Int.sub_add_cancel]

lemma SpreadWindow.scatteredSize_eq (w : SpreadWindow) : scatteredSize (.whole w.size)
    (.whole w.kernel) w.stride w.dilation w.extra w.before w.after = .ok (.whole w.spread) := rfl

/-- The channels of all groups fall into the groups evenly. -/
lemma exists_groupedChannels_of_int
    (hn : ∀ a, n.attribute? "group" = some a → ∃ g : Int, 1 ≤ g ∧ a = .int g) (c : Int) :
    ∃ d : Int, groupedChannels n (.whole c) = .ok (.whole d) ∧
      ∀ m : Node, m.attribute? "group" = n.attribute? "group" →
        groupsDivide m (.whole d) = .ok true := by
  unfold groupedChannels groupsDivide Node.quantity
  cases hgroup : n.attribute? "group" with
  | none =>
    refine ⟨c * 1, rfl, fun m hm => ?_⟩
    have hmultiple : Size.isMultipleOf (.whole (c * 1)) (.whole 1) = .ok (decide (c * 1 % 1 = 0)) :=
      rfl
    rw [hm]
    exact hmultiple.trans (congrArg Except.ok (decide_eq_true (Int.emod_one _)))
  | some a =>
    obtain ⟨g, hg, rfl⟩ := hn a hgroup
    refine ⟨g * c, rfl, fun m hm => ?_⟩
    have hmultiple : Size.isMultipleOf (.whole (g * c)) (.whole g) =
        .ok (decide (g * c % g = 0)) := if_neg (by omega)
    rw [hm]
    exact hmultiple.trans (congrArg Except.ok (decide_eq_true (Int.mul_emod_right g c)))

/-! ## All axes -/

lemma Place.get_add_two {α : Type} {a b : α} {xs : List α} {i : Nat} (hi : i < xs.length) :
    Place.get (a :: b :: xs) (i + 2) = .ok xs[i] := by
  have hlt : i + 2 < (a :: b :: xs).length := Nat.add_lt_add_right hi 2
  exact Place.get_ofNat hlt

lemma coversAxes_eq_false (h : ∀ a, m.attribute? "auto_pad" = some a →
    a.isText "SAME_UPPER" = .ok false ∧ a.isText "SAME_LOWER" = .ok false) :
    coversAxes m = .ok false := by
  unfold coversAxes
  cases ha : m.attribute? "auto_pad" with
  | none => rfl
  | some a =>
    obtain ⟨hupper, hlower⟩ := h a ha
    simp only [hupper, Except.ok_bind, hlower]
    rfl

namespace Node

lemma KindFits.spatialCount_eq (h : n.KindFits k) :
    spatialCount n.operator (.ofNat (k + 2)) = .ok (.ofNat k) := by
  rw [spatialCount_ofNat]
  cases hk : n.operator.spatialAxes? with
  | none => rfl
  | some j => rw [Option.getD_some, h j hk]

lemma GathersWindows.intList_eq (h : m.GathersWindows n t k) {key : String}
    (hkey : key ∈ ["kernel_shape", "strides", "dilations", "pads", "group"])
    (default : List Int) : m.intList key default = n.intList key default := by
  rw [intList, intList, h.attributes key hkey]

/-- The windows are those of `n`, along axes of other sizes. -/
lemma GathersWindows.movesWindows (hm : m.GathersWindows n t k)
    (h : n.MovesWindows (ws.map SpreadWindow.toWindow)) :
    m.MovesWindows (ws.map SpreadWindow.gathered) := by
  have hsame : ∀ f : Window → Int, (∀ w : SpreadWindow, f w.gathered = f w.toWindow) →
      (ws.map SpreadWindow.gathered).map f = (ws.map SpreadWindow.toWindow).map f := by
    intro f hf
    rw [List.map_map, List.map_map]
    exact List.map_congr_left fun w _ => hf w
  have hlength : (ws.map SpreadWindow.gathered).length =
      (ws.map SpreadWindow.toWindow).length := by simp
  obtain ⟨pads, hpads, hends⟩ := h.pads
  refine ⟨?_, ?_, pads, ?_, ?_⟩
  · rw [hm.intList_eq (by simp), hlength, hsame _ fun _ => rfl, h.strides]
  · rw [hm.intList_eq (by simp), hlength, hsame _ fun _ => rfl, h.dilations]
  · rw [hm.intList_eq (by simp), hpads]
  · rw [hsame _ fun _ => rfl, hsame _ fun _ => rfl]
    exact hends

/-- The type of what comes out of windows that are spread. -/
lemma SpreadsWindows.convTranspose_eq (h : n.SpreadsWindows x v batch channels perGroup ws)
    (hne : ws ≠ []) (hgrouped : groupedChannels n (.whole perGroup) = .ok (.whole c)) :
    convTranspose n = .ok (.tensor x.type.element (.ofNat (ws.length + 2))
      (some ((batch :: c :: ws.map SpreadWindow.spread).map .whole))) := by
  obtain ⟨e, htype⟩ := h.type
  obtain ⟨sizes, hdims, hkernel⟩ := h.kernel
  obtain ⟨pads, hpads, hends⟩ := h.moves.pads
  have hpos : 0 < ws.length := List.length_pos_of_ne_nil hne
  have hstrides := h.moves.strides
  have hdilations := h.moves.dilations
  rw [List.length_map, List.map_map] at hstrides hdilations
  rw [List.map_map, List.map_map] at hends
  have hsplit := splitPads_of_padsEnds hends hpos (List.length_map _) (List.length_map _)
  have hrank : x.type.rank = .ofNat (ws.length + 2) := by rw [htype]; rfl
  have hdata : x.type.dims? =
      some ((batch :: channels :: ws.map fun w : SpreadWindow => w.size).map .whole) := by
    rw [htype]
    rfl
  have hlength : ((batch :: channels :: ws.map fun w : SpreadWindow => w.size).map
      Size.whole).length = ws.length + 2 := by simp
  have hcount : (Size.ofNat ws.length).countBeside (ws.length + 2) = .ok ws.length :=
    if_pos (by omega)
  have hsizes : kernelSizes n (((channels :: perGroup :: sizes).map Size.whole).drop 2) =
      .ok ((ws.map fun w : SpreadWindow => w.kernel).map .whole) := kernelSizes_of_intList hkernel
  simp only [convTranspose, h.data, h.weights, hrank, hdata, hdims, Except.ok_bind,
    h.kind.spatialCount_eq, hsizes, hlength, hcount, hstrides, hdilations, h.extra, hpads, hsplit]
  rw [mapM_range (g := fun w => Size.whole w.spread) fun i hi => ?_]
  · have hsecond : Place.get ((channels :: perGroup :: sizes).map Size.whole) 1 =
        .ok (.whole perGroup) := rfl
    simp only [Except.ok_bind, hsecond, hgrouped]
    have hfirst : Place.get ((batch :: channels :: ws.map fun w : SpreadWindow => w.size).map
        Size.whole) 0 = .ok (.whole batch) := rfl
    rw [hfirst, Except.ok_bind, ofRank_of_pos (Nat.succ_pos _), List.map_cons, List.map_cons,
      List.map_map]
    rfl
  · simp only [List.map_cons, Place.get_add_two, Place.get_ofNat, List.length_map, hi,
      List.getElem_map, Except.ok_bind, Function.comp_apply]
    exact ws[i].scatteredSize_eq

/-- Along each axis, the windows have a placement for each entry that is spread. -/
lemma GathersWindows.spatialDims_eq (h : m.GathersWindows n t k)
    (hmoves : n.MovesWindows (ws.map SpreadWindow.toWindow)) (hne : ws ≠ [])
    (hextra : ∀ w ∈ ws, 0 ≤ w.extra ∧ w.extra < w.stride) :
    spatialDims m ((batch :: c :: ws.map SpreadWindow.spread).map .whole)
      ((ws.map fun w : SpreadWindow => w.kernel).map .whole) =
        .ok ((ws.map fun w : SpreadWindow => w.size).map .whole) := by
  have hstride : ∀ w ∈ ws.map SpreadWindow.gathered, w.stride ≠ 0 := by
    intro w hw
    obtain ⟨s, hs, rfl⟩ := List.mem_map.mp hw
    have hpos : 0 < s.stride := (hextra s hs).1.trans_lt (hextra s hs).2
    exact hpos.ne'
  have hcounts : (ws.map SpreadWindow.gathered).map Window.count =
      ws.map fun w : SpreadWindow => w.size := by
    rw [List.map_map]
    exact List.map_congr_left fun w hw => SpreadWindow.count_gathered (hextra w hw)
  have hsizes : (ws.map SpreadWindow.gathered).map Window.size = ws.map SpreadWindow.spread := by
    rw [List.map_map]
    rfl
  have hkernel : (ws.map SpreadWindow.gathered).map Window.kernel =
      ws.map fun w : SpreadWindow => w.kernel := by
    rw [List.map_map]
    rfl
  rw [← hsizes, ← hkernel, ← hcounts]
  exact (h.movesWindows hmoves).spatialDims_counts (List.map_eq_nil_iff.not.mpr hne) hstride
    (coversAxes_eq_false h.plain)

/-- A convolution that moves the windows over the result of a transposed one gives the type of its
operand back. The axes of the result may be longer than the windows reach, if it is by less than a
stride. -/
theorem SpreadsWindows.conv_resultType (h : n.SpreadsWindows x v batch channels perGroup ws)
    (hne : ws ≠ []) (hextra : ∀ w ∈ ws, 0 ≤ w.extra ∧ w.extra < w.stride) :
    ∃ t, n.resultType = .ok t ∧
      ∀ m : Node, m.GathersWindows n t ws.length → m.resultType = .ok x.type := by
  obtain ⟨y, ys, hy⟩ := List.exists_cons_of_ne_nil h.outputs
  obtain ⟨c, hgrouped, hdivide⟩ := exists_groupedChannels_of_int h.group perGroup
  have hresult : n.resultType = convTranspose n :=
    resultType_eq (rule?_transposedConvolutions h.operator) hy
  refine ⟨_, hresult.trans (h.convTranspose_eq hne hgrouped), fun m hm => ?_⟩
  obtain ⟨u, hu, hutype⟩ := hm.data
  obtain ⟨z, hz⟩ := hm.outputs
  have hrank : u.type.rank = .ofNat (ws.length + 2) := by rw [hutype]; rfl
  have hsizes : u.type.dims? = some ((batch :: c :: ws.map SpreadWindow.spread).map .whole) := by
    rw [hutype]
    rfl
  have helement : u.type.element = x.type.element := by rw [hutype]; rfl
  obtain ⟨e, htype⟩ := h.type
  obtain ⟨sizes, hdims, hkernel⟩ := h.kernel
  rw [resultType_eq (rule?_convolutions hm.operator) hz,
    conv_eq_ok_iff hu (hm.weights.trans h.weights) hrank hsizes hdims]
  have hkernel' : kernelSizes m (sizes.map .whole) =
      .ok ((ws.map fun w : SpreadWindow => w.kernel).map .whole) :=
    kernelSizes_of_intList ((hm.intList_eq (by simp) sizes).trans hkernel)
  refine ⟨⟨z, hz⟩, hm.kind, hdivide m (hm.attributes _ (by simp)), _, _, hkernel',
    hm.spatialDims_eq h.moves hne hextra, ?_⟩
  rw [helement, htype]
  rfl

end Node

/-- Windows of three entries, with stride two, and of two entries that stand apart. -/
def spreadWindows : List SpreadWindow :=
  [{ size := 4, kernel := 3, stride := 2, dilation := 1, before := 1, after := 1, extra := 1 },
    { size := 5, kernel := 2, stride := 1, dilation := 2, before := 0, after := 1, extra := 0 }]

/-- A node that reads `t` through the windows, in three groups of channels. -/
def throughWindows (o : Operator) (t : ValueType) : Node where
  operator := o
  name := "windows"
  inputs := [{ name := "x", type := t },
    { name := "w", type := .tensor .float32 4 (some [6, 2, 3, 2]) }]
  outputs := [{ name := "y" }]
  attributes := ((((Table.insert ∅ "strides" (.ints [2, 1])).insert "dilations"
    (.ints [1, 2])).insert "pads" (.ints [1, 0, 1, 1])).insert "group" (.int 3)).insert
      "output_padding" (.ints [1, 0])

lemma kindFits_throughWindows {o : Operator} (ho : o.spatialAxes? = some 2) (t : ValueType) :
    (throughWindows o t).KindFits 2 := fun _ hj => Option.some.inj (hj.symm.trans ho)

lemma spreadsWindows_throughWindows :
    (throughWindows .convTranspose2d (.tensor .float32 4 (some [1, 6, 4, 5]))).SpreadsWindows
      { name := "x", type := .tensor .float32 4 (some [1, 6, 4, 5]) }
      { name := "w", type := .tensor .float32 4 (some [6, 2, 3, 2]) } 1 6 2 spreadWindows where
  operator := by decide
  kind := kindFits_throughWindows rfl _
  data := rfl
  type := ⟨_, rfl⟩
  weights := rfl
  kernel := ⟨[3, 2], rfl, rfl⟩
  moves := ⟨rfl, rfl, _, rfl, .ends⟩
  extra := rfl
  group := fun _ ha => ⟨3, by decide, (Option.some.inj ha).symm⟩
  outputs := List.cons_ne_nil _ _

theorem Node.conv_throughWindows : ∃ t,
    (throughWindows .convTranspose2d (.tensor .float32 4 (some [1, 6, 4, 5]))).resultType = .ok t ∧
      (throughWindows .conv2d t).resultType = .ok (.tensor .float32 4 (some [1, 6, 4, 5])) := by
  have hextra : ∀ w ∈ spreadWindows, 0 ≤ w.extra ∧ w.extra < w.stride := by
    simp [spreadWindows]
  obtain ⟨t, ht, hback⟩ :=
    spreadsWindows_throughWindows.conv_resultType (List.cons_ne_nil _ _) hextra
  refine ⟨t, ht, hback (throughWindows .conv2d t) ?_⟩
  have hop : Operator.conv2d ∈ Operator.convolutions := by decide
  exact ⟨hop, kindFits_throughWindows rfl _, ⟨_, rfl, rfl⟩, rfl, ⟨_, rfl⟩, fun _ _ => rfl,
    fun _ ha => by cases ha⟩

end TensorGraph
