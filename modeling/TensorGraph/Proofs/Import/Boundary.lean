import TensorGraph.Proofs.Registry

/-!
# The registry before the first node

What the registry of a model holds before any node is imported (`Registry.ofModel_declares`): the
declared graph inputs and outputs, and the arrays of the file.
-/

namespace TensorGraph.Registry

open Onnx

variable {m : ModelMessage} {r r' : Registry} {ins outs : List ValueMessage} {x : String}
  {v : Value}

/-- A table of the arrays `as`, each under its name. -/
structure HoldsArrays (as : List TensorMessage) (t : Table String Value) : Prop where
  contains : ∀ {x}, t.contains x = true ↔ x ∈ as.map TensorMessage.name
  name : ∀ {x v}, t.get? x = some v → v.name = x
  literal : ∀ {x v}, t.get? x = some v → v.literal.isSome
  array : ∀ {x v}, t.get? x = some v → ∃ a ∈ as, a.name = x ∧ a.toValue = .ok v

lemma toValue_ok {a : TensorMessage} (h : a.toValue = .ok v) :
    v.name = a.name ∧ v.literal.isSome := by
  simp only [TensorMessage.toValue, Value.ofLiteral, Except.bind_eq_ok, Except.pure_eq_ok] at h
  obtain ⟨l, -, t, -, rfl⟩ := h
  exact ⟨rfl, rfl⟩

theorem initializersOf_holds {t : Table String Value} (h : initializersOf m = .ok t) :
    HoldsArrays m.initializers t := by
  have start : HoldsArrays [] ∅ :=
    ⟨by simp [Table.contains_eq_isSome_get?], by simp, by simp, by simp⟩
  refine Except.foldlM_prefix HoldsArrays (fun seen t t' a h ht => ?_) h start
  simp only [Except.bind_eq_ok, Except.pure_eq_ok] at h
  obtain ⟨v, hv, rfl⟩ := h
  obtain ⟨hname, hlit⟩ := toValue_ok hv
  refine ⟨fun {x} => ?_, fun {x w} hw => ?_, fun {x w} hw => ?_, fun {x w} hw => ?_⟩
  · rw [Table.contains_eq_isSome_get?, Table.get?_insert]
    have := ht.contains (x := x)
    rw [Table.contains_eq_isSome_get?] at this
    split <;> simp_all
  · rw [Table.get?_insert] at hw
    split at hw
    · next hx => rw [← Option.some.inj hw, hname, hx]
    · exact ht.name hw
  · rw [Table.get?_insert] at hw
    split at hw
    · rwa [← Option.some.inj hw]
    · exact ht.literal hw
  · rw [Table.get?_insert] at hw
    split at hw
    · next hx => exact ⟨a, by simp, hx.symm, Option.some.inj hw ▸ hv⟩
    · obtain ⟨b, hb, hname, hvalue⟩ := ht.array hw
      exact ⟨b, by simp [hb], hname, hvalue⟩

/-- What is read under a name keeps that name. -/
lemma HoldsArrays.name_resolve {as : List TensorMessage} (h : HoldsArrays as r.initializers)
    (hv : r.resolve x = .ok v) : v.name = x :=
  name_of_resolve (fun _ _ ha => h.name ha) hv

/-! ## Declarations -/

lemma declared_ok {d : ValueMessage} (h : d.toValue = .ok v) :
    v.name = d.name ∧ v.literal = none := by
  simp only [ValueMessage.toValue, Except.bind_eq_ok, Except.pure_eq_ok] at h
  obtain ⟨t, -, rfl⟩ := h
  exact ⟨rfl, rfl⟩

lemma used_declared {d : ValueMessage} (h : d.toValue = .ok v) : v.used = false := by
  simp only [ValueMessage.toValue, Except.bind_eq_ok, Except.pure_eq_ok] at h
  obtain ⟨t, -, rfl⟩ := h
  rfl

/-- The value of the graph input `d` at a place. -/
def inputValue (r : Registry) (d : ValueMessage) (place : Nat) (v : Value) : Value :=
  { match r.initializers.get? d.name with
    | some a => v.copyFrom a
    | none => v with
    name := s!"input{place + 1}" }

lemma initializers_addInput {d : ValueMessage} (h : r.addInput d = .ok r') :
    r'.initializers = r.initializers := by
  simp only [Registry.addInput, Except.bind_eq_ok, Except.pure_eq_ok] at h
  obtain ⟨v, -, rfl⟩ := h
  rfl

lemma initializers_addOutput {d : ValueMessage} (h : r.addOutput d = .ok r') :
    r'.initializers = r.initializers := by
  simp only [Registry.addOutput, Except.bind_eq_ok, Except.pure_eq_ok] at h
  obtain ⟨v, -, rfl⟩ := h
  rfl

lemma initializers_foldlM {f : Registry → ValueMessage → Except Error Registry}
    {ds : List ValueMessage} (hf : ∀ r d r', f r d = .ok r' → r'.initializers = r.initializers)
    (h : ds.foldlM f r = .ok r') : r'.initializers = r.initializers :=
  Except.foldlM_invariant (fun r₁ => r₁.initializers = r.initializers)
    (fun r₁ d r₂ h₁ hr => (hf r₁ d r₂ h₁).trans hr) h rfl

/-- The registry of a model has its arrays. -/
lemma initializers_ofModel (h : ofModel m = .ok r) : initializersOf m = .ok r.initializers := by
  simp only [ofModel, Except.bind_eq_ok] at h
  obtain ⟨t, ht, r₁, h₁, h₂⟩ := h
  have hins := initializers_foldlM (fun _ _ _ => initializers_addInput) h₁
  have houts := initializers_foldlM (fun _ _ _ => initializers_addOutput) h₂
  rw [ht, houts, hins]

lemma sound_addInput {d : ValueMessage} (hr : r.Sound) (h : r.addInput d = .ok r') : r'.Sound := by
  simp only [Registry.addInput, Except.bind_eq_ok, Except.pure_eq_ok] at h
  obtain ⟨v, -, rfl⟩ := h
  refine sound_of_insert hr (rfl : _ = r.slots.insert d.name (.input r.inputs.length)) (by simp [Has])
    (fun {slot} hs => ?_) (by simp [Has])
  cases slot with
  | input i => simp only [Has, List.length_append] at hs ⊢; omega
  | _ => exact hs

lemma sound_addOutput {d : ValueMessage} (hr : r.Sound) (h : r.addOutput d = .ok r') :
    r'.Sound := by
  simp only [Registry.addOutput, Except.bind_eq_ok, Except.pure_eq_ok] at h
  obtain ⟨v, -, rfl⟩ := h
  refine sound_of_insert hr (rfl : _ = r.slots.insert d.name (.output r.outputs.length)) (by simp [Has])
    (fun {slot} hs => ?_) (by simp [Has])
  cases slot with
  | output i => simp only [Has, List.length_append] at hs ⊢; omega
  | _ => exact hs

/-- The registry holds the graph inputs `ins` and the graph outputs `outs` as they are declared. -/
structure Declares (r : Registry) (ins outs : List ValueMessage) : Prop where
  sound : r.Sound
  interior : r.interior = []
  missed : r.missed = []
  inputs : r.inputs.length = ins.length
  outputs : r.outputs.length = outs.length
  input : ∀ {x i}, r.slots.get? x = some (.input i) → ∃ d v, ins[i]? = some d ∧ d.name = x ∧
    d.toValue = .ok v ∧ r.value (.input i) = r.inputValue d i v
  output : ∀ {x i}, r.slots.get? x = some (.output i) → ∃ d, outs[i]? = some d ∧ d.name = x ∧
    d.toValue = .ok (r.value (.output i))
  input_names : r.inputNames = (List.range ins.length).map fun i => s!"input{i + 1}"
  known : ∀ {x}, x ∈ ins.map ValueMessage.name ∨ x ∈ outs.map ValueMessage.name →
    (r.slots.get? x).isSome
  outer : ∀ {x}, x ∈ outs.map ValueMessage.name → ∃ i, r.slots.get? x = some (.output i)

lemma getD_concat_length (vs : List Value) (v : Value) :
    (vs ++ [v]).getD vs.length default = v := by
  simp [List.getD_eq_getElem?_getD]

namespace Declares

lemma not_interior (h : r.Declares ins outs) (i : Nat) : r.slots.get? x ≠ some (.interior i) := by
  intro hs
  have := h.sound.has hs
  simp [Has, h.interior] at this

/-- Of graph outputs with different names each is the value under its name. -/
lemma slot_output (h : r.Declares ins outs) (hnd : (outs.map ValueMessage.name).Nodup) {i : Nat}
    {d : ValueMessage} (hd : outs[i]? = some d) : r.slots.get? d.name = some (.output i) := by
  obtain ⟨j, hj⟩ := h.outer (List.mem_map_of_mem (List.mem_of_getElem? hd))
  obtain ⟨d', hd', hname, -⟩ := h.output hj
  have hi : (outs.map ValueMessage.name)[i]? = some d.name := by simp [hd]
  have hj' : (outs.map ValueMessage.name)[j]? = some d.name := by simp [hd', hname]
  have hlt := (List.getElem?_eq_some_iff.mp hi).1
  rw [(List.getElem?_inj hlt hnd).mp (hi.trans hj'.symm)]
  exact hj

lemma addInput {d : ValueMessage} (h : r.Declares ins []) (h' : r.addInput d = .ok r') :
    r'.Declares (ins ++ [d]) [] := by
  have hsound := sound_addInput h.sound h'
  simp only [Registry.addInput, Except.bind_eq_ok, Except.pure_eq_ok] at h'
  obtain ⟨v, hv, rfl⟩ := h'
  refine {
    sound := hsound
    interior := h.interior
    missed := h.missed
    inputs := by simp [h.inputs]
    outputs := h.outputs
    input := ?input
    output := ?output
    input_names := ?input_names
    known := ?known
    outer := by simp }
  case input_names =>
    have hlen : r.inputs.length = ins.length := h.inputs
    have hnames := h.input_names
    unfold inputNames at hnames ⊢
    rw [List.map_append, hnames, List.length_append, List.length_singleton, List.range_succ,
      List.map_append, hlen]
    rfl
  case input =>
    intro x i hs
    simp only [Table.get?_insert] at hs
    split at hs
    · next hx =>
      obtain rfl : r.inputs.length = i := by simpa using hs
      refine ⟨d, v, by simp [← h.inputs], hx.symm, hv, ?_⟩
      exact getD_concat_length _ _
    · obtain ⟨d', v', hd, hname, hv', hval⟩ := h.input hs
      have hlt : i < r.inputs.length := h.sound.has hs
      refine ⟨d', v', by rw [List.getElem?_append_left (h.inputs ▸ hlt), hd], hname, hv', ?_⟩
      rw [inputValue] at hval ⊢
      rw [← hval]
      simp [value, List.getD_eq_getElem?_getD, List.getElem?_append_left hlt]
  case output =>
    intro x i hs
    simp only [Table.get?_insert] at hs
    split at hs
    · simp at hs
    · exact h.output hs
  case known =>
    intro x hx
    simp only [Table.get?_insert]
    split
    · rfl
    · next hne => exact h.known (by simpa [hne] using hx)

lemma addOutput {d : ValueMessage} (h : r.Declares ins outs) (h' : r.addOutput d = .ok r') :
    r'.Declares ins (outs ++ [d]) := by
  have hsound := sound_addOutput h.sound h'
  simp only [Registry.addOutput, Except.bind_eq_ok, Except.pure_eq_ok] at h'
  obtain ⟨v, hv, rfl⟩ := h'
  refine {
    sound := hsound
    interior := h.interior
    missed := h.missed
    inputs := h.inputs
    outputs := by simp [h.outputs]
    input := ?input
    output := ?output
    input_names := h.input_names
    known := ?known
    outer := ?outer }
  case input =>
    intro x i hs
    simp only [Table.get?_insert] at hs
    split at hs
    · simp at hs
    · exact h.input hs
  case output =>
    intro x i hs
    simp only [Table.get?_insert] at hs
    split at hs
    · next hx =>
      obtain rfl : r.outputs.length = i := by simpa using hs
      refine ⟨d, by simp [← h.outputs], hx.symm, ?_⟩
      simpa [value, List.getD_eq_getElem?_getD] using hv
    · obtain ⟨d', hd, hname, hval⟩ := h.output hs
      have hlt : i < r.outputs.length := h.sound.has hs
      refine ⟨d', by rw [List.getElem?_append_left (h.outputs ▸ hlt), hd], hname, ?_⟩
      rw [hval]
      simp [value, List.getD_eq_getElem?_getD, List.getElem?_append_left hlt]
  case known =>
    intro x hx
    simp only [Table.get?_insert]
    split
    · rfl
    · next hne => exact h.known (by simpa [hne] using hx)
  case outer =>
    intro x hx
    simp only [Table.get?_insert]
    split
    · exact ⟨_, rfl⟩
    · next hne => exact h.outer (by simpa [hne] using hx)

end Declares

/-- Before the first node the registry of a model holds its graph inputs, its graph outputs and
its arrays. -/
theorem ofModel_declares (h : ofModel m = .ok r) :
    r.Declares m.inputs m.outputs ∧ HoldsArrays m.initializers r.initializers := by
  refine ⟨?_, initializersOf_holds (initializers_ofModel h)⟩
  simp only [ofModel, Except.bind_eq_ok] at h
  obtain ⟨t, ht, r₁, h₁, h₂⟩ := h
  have start : ({ initializers := t } : Registry).Declares [] [] :=
    { sound := ⟨by simp, by simp⟩
      interior := rfl
      missed := rfl
      inputs := rfl
      outputs := rfl
      input := by simp
      output := by simp
      input_names := rfl
      known := by simp
      outer := by simp }
  have hins := Except.foldlM_prefix (fun ins r => r.Declares ins [])
    (fun _ _ _ _ h hr => hr.addInput h) h₁ start
  exact Except.foldlM_prefix (fun outs r => r.Declares m.inputs outs)
    (fun _ _ _ _ h hr => hr.addOutput h) h₂ hins

end TensorGraph.Registry
