import TensorGraph.Proofs.Import.Messages

/-!
# Names that stand for something for good

A name that has been read and is that of no literal stands for a value of the same type from then on
(`Step.stands_of_read`, `Step.stands`). The output of an identity that is left out and the name that
its readers are led to stand for values of one type (`Run.sameType_elided`).
-/

namespace TensorGraph

open Onnx ModelMessage Registry

variable {m : ModelMessage} {r r' : Registry} {s s' : ImportState} {p : Passage} {ps : List Passage}
  {rest : List NodeMessage} {n : Node} {v : Value} {x y : String} {t : ValueType}

/-- The name stands for a value of type `t` that is not a literal: it is the empty one, or it has
been read in vain, or it is that of such a graph input, which counts as used, or of what a node has
produced. -/
inductive Registry.Stands (r : Registry) (x : String) (t : ValueType) : Prop where
  | omitted (empty : x = "") (type : t = default)
  | missed (named : x ≠ "") (slot : r.slots.get? x = none) (mem : x ∈ r.missed)
      (unknown : r.initializers.get? x = none) (type : t = default)
  | held {slot : Slot} (named : x ≠ "") (slot_eq : r.slots.get? x = some slot)
      (read : ∀ i, slot ≠ .output i) (type : (r.value slot).type = t)
      (bare : (r.value slot).literal = none)
      (used : ∀ i, slot = .input i → (r.value slot).used = true)

lemma Registry.Stands.resolve (h : r.Stands x t) :
    ∃ v, r.resolve x = .ok v ∧ v.name = x ∧ v.type = t ∧ v.literal = none := by
  cases h with
  | omitted empty type =>
    subst empty type
    exact ⟨_, resolve_empty, rfl, rfl, rfl⟩
  | missed named slot _ unknown type =>
    subst type
    exact ⟨{ name := x }, by simp [Registry.resolve, named, slot, unknown], rfl, rfl, rfl⟩
  | @held slot named slot_eq read type bare _ =>
    cases slot with
    | output i => exact absurd rfl (read i)
    | input i =>
      exact ⟨{ r.value (.input i) with name := x, used := true },
        by simp [Registry.resolve, named, slot_eq], rfl, type, bare⟩
    | interior i =>
      exact ⟨{ r.value (.interior i) with name := x },
        by simp [Registry.resolve, named, slot_eq], rfl, type, bare⟩

/-- A name that stands for something goes on to do so where what is known of it stays, but that it may
count as used. -/
lemma Registry.Stands.mono (h : r.Stands x t) (hinit : r'.initializers = r.initializers)
    (hmissed : x ∈ r.missed → x ∈ r'.missed)
    (hslot : x ≠ "" → r'.slots.get? x = r.slots.get? x)
    (hvalue : x ≠ "" → ∀ slot, r.slots.get? x = some slot →
      r'.value slot = r.value slot ∨ r'.value slot = { r.value slot with used := true }) :
    r'.Stands x t := by
  cases h with
  | omitted empty type => exact .omitted empty type
  | missed named slot mem unknown type =>
    exact .missed named ((hslot named).trans slot) (hmissed mem) (hinit ▸ unknown) type
  | held named slot_eq read type bare used =>
    refine .held named ((hslot named).trans slot_eq) read ?_ ?_ fun i hi => ?_
    · rcases hvalue named _ slot_eq with e | e <;> rw [e] <;> exact type
    · rcases hvalue named _ slot_eq with e | e <;> rw [e] <;> exact bare
    · rcases hvalue named _ slot_eq with e | e
      · rw [e, used i hi]
      · rw [e]

lemma Registry.SameOutside.stands {names : List String} (h : SameOutside names r r') (hx : x ∉ names)
    (hs : r.Stands x t) : r'.Stands x t :=
  hs.mono h.initializers (fun hmem => h.missed ▸ hmem) (fun _ => h.slots hx)
    fun _ _ hslot => .inl (h.value hx hslot)

lemma Registry.Marked.stands (h : Marked r r') (hs : r.Stands x t) : r'.Stands x t :=
  hs.mono h.initializers (@h.missed x) (fun _ => by rw [h.slots]) fun _ slot _ => h.value slot

lemma Registry.Stands.type_eq {t' : ValueType} (h : r.Stands x t) (h' : r.Stands x t') : t = t' := by
  obtain ⟨v, hv, -, rfl, -⟩ := h.resolve
  obtain ⟨w, hw, -, rfl, -⟩ := h'.resolve
  rw [Except.ok.inj (hv.symm.trans hw)]

namespace Step

/-- A Constant or an identity writes one value, which has a name. -/
def Single (p : Passage) : Prop :=
  ImportState.isTransparent p.typed.operator = true → ∃ v, p.typed.outputs = [v] ∧ v.name ≠ ""

lemma Body.single_of_mem (h : Body s p) (hm : m.WellFormed) (hmem : p.message ∈ m.nodes) :
    Single p := by
  intro ht
  obtain ⟨v, hne, -, hv, -⟩ := h.single_typed hm hmem ht
  exact ⟨v, hv, hne⟩

lemma Body.outputs_of_identity {u : Value} (h : Body s p) (hop : p.typed.operator = .identity)
    (hu : p.typed.inputs.head? = some u) :
    p.typed.outputs = p.outputNames.map fun y => { bareValue y with type := u.type } := by
  have hreshaped := h.reshaped_of_transparent (by rw [hop]; rfl)
  have hinfer := h.infer
  rw [h.inputs_typed] at hu
  rw [h.operator_typed] at hop
  obtain ⟨us, hus⟩ := List.head?_eq_some_iff.mp hu
  simp only [Node.infer, Node.typedOutputs, hop, Typing.rule?, Typing.keepType, hus] at hinfer
  rw [← Except.ok.inj hinfer, hreshaped, h.outputs_lifted, List.map_map]
  rfl

variable (h : Step s p s') (hs : s.registry.Sound) (hsingle : Single p)

include h hs hsingle

lemma not_input {i : Nat} (hx : x ∈ p.written) :
    s.registry.slots.get? x ≠ some (.input i) := by
  intro hi
  obtain ⟨hne, v, hv, rfl⟩ := Passage.mem_written.mp hx
  obtain ⟨k, hk⟩ := List.getElem?_of_mem hv
  obtain ⟨ht, hk0⟩ := h.of_input hs hk hne hi
  obtain ⟨w, hw, -⟩ := hsingle ht
  rw [hw] at hk
  exact hk0 (by simpa using (List.getElem?_eq_some_iff.mp hk).1)

lemma not_written_of_stands (hx : s.registry.Stands x t) : x ∉ p.written := by
  intro hw
  obtain ⟨hopen, -⟩ := h.open_of_written hs hw
  cases hx with
  | omitted empty => exact (Passage.mem_written.mp hw).1 empty
  | missed _ slot mem => exact hopen (.inl ⟨slot, mem⟩)
  | @held slot _ slot_eq read =>
    cases slot with
    | output i => exact absurd rfl (read i)
    | input i => exact h.not_input hs hsingle hw slot_eq
    | interior i => exact hopen (.inr ⟨i, slot_eq⟩)

/-- What a name stands for, it stands for after a step as well. -/
theorem stands (hx : s.registry.Stands x t) : s'.registry.Stands x t := by
  have hg := h.grows hs
  have hw := h.not_written_of_stands hs hsingle hx
  exact hx.mono hg.initializers (@hg.missed x) (fun hne => (h.outside hs hw hne).1)
    fun hne => (h.outside hs hw hne).2

omit hsingle in
lemma used_of_read {i : Nat} (hv : v ∈ p.typed.inputs) (hx : v.name ∉ p.written) (hne : v.name ≠ "")
    (hi : s.registry.slots.get? v.name = some (.input i)) :
    (s'.registry.value (.input i)).used = true := by
  have hrecorded := ((h.grows_recorded hs).outer (by simp)).mpr hi
  have hread := (renameInputs_ok (h.grows_recorded hs).sound h.renameInputs).2.2 v hv hne
  have hused := hread.2 i hrecorded
  have hmarked : p.marked.slots.get? v.name = some (.input i) := by
    rw [(h.marks hs).slots, hrecorded]
  obtain ⟨names, hnames, hsame⟩ := h.outside_registry hs hx hne
  rw [h.state]
  exact (congrArg Value.used (hsame.value hnames hmarked)).trans hused

/-- A name that a node reads, and that is that of no literal, stands for something after it. -/
theorem stands_of_read {u : Value} {arrays : List TensorMessage}
    (harrays : HoldsArrays arrays s.registry.initializers) (hv : v ∈ p.typed.inputs)
    (hx : v.name ∉ p.written) (hu : s.registry.resolve v.name = .ok u) (hbare : u.literal = none) :
    s'.registry.Stands v.name u.type := by
  by_cases hne : v.name = ""
  · rw [hne, resolve_empty] at hu
    exact .omitted hne (by rw [← Except.ok.inj hu])
  obtain ⟨hslot, hvalue⟩ | ⟨i, hslot, hvalue⟩ | ⟨i, hslot, hvalue⟩ := resolve_ok hne hu
  · have hunknown : s.registry.initializers.get? v.name = none := by
      cases ha : s.registry.initializers.get? v.name with
      | none => rfl
      | some a =>
        have hlit := harrays.literal ha
        rw [hvalue, ha, Option.getD_some] at hbare
        simp [hbare] at hlit
    have hmarked : p.marked.slots.get? v.name = none := by
      rw [(h.marks hs).slots]
      exact ((h.outside_recorded hs).slots hx).trans hslot
    have hmissed : v.name ∈ p.marked.missed := by
      rcases renameInputs_closes (h.grows_recorded hs).sound h.renameInputs hv hne with
        (⟨-, hmissed⟩ | ⟨i, hi⟩) | ⟨i, hi⟩ | hmem
      · exact hmissed
      · simp [hmarked] at hi
      · simp [hmarked] at hi
      · rw [(h.grows_recorded hs).initializers, Table.contains_eq_isSome_get?, hunknown] at hmem
        simp at hmem
    refine .missed hne ((h.outside hs hx hne).1.trans hslot) ?_ ?_ ?_
    · rw [h.state]
      exact (h.grows_registry hs).missed hmissed
    · rw [(h.grows hs).initializers, hunknown]
    · rw [hvalue, hunknown]
      rfl
  · obtain ⟨hslot', hvalue'⟩ := h.outside hs hx hne
    refine .held hne (hslot'.trans hslot) (by simp) ?_ ?_ fun j hj => ?_
    · rcases hvalue' _ hslot with e | e <;> rw [e, hvalue]
    · rcases hvalue' _ hslot with e | e <;> rw [e, ← hbare, hvalue]
    · exact h.used_of_read hs hv hx hne hslot
  · refine h.stands hs hsingle (.held hne hslot (by simp) ?_ ?_ (by simp))
    · rw [hvalue]
    · rw [← hbare, hvalue]

/-- What a node writes, which has one output that is no graph output, stands for it after it. -/
theorem stands_of_written (hv : p.typed.outputs = [v]) (hne : v.name ≠ "")
    (hbare : v.literal = none) (hinner : s.registry.isOutput v.name = false) :
    s'.registry.Stands v.name v.type := by
  have hmem : v ∈ p.typed.outputs := by simp [hv]
  have hin := fun i => h.not_input (i := i) hs hsingle (Passage.mem_written.mpr ⟨hne, v, hmem, rfl⟩)
  have hnd : p.written.Nodup := by simp [Passage.written, namesOf, hv, hne]
  have closes := h.closes hs hnd hsingle
  obtain ⟨used, hfind⟩ := closes.find?_written (k := 0) (by rw [hv]; rfl) hne hin
  rw [h.state]
  cases closes.records v hmem hne with
  | input i slot => exact absurd slot (hin i)
  | output i slot => simp [Registry.isOutput, slot] at hinner
  | fresh i _ _ slot =>
    have hslot : p.registry.slots.get? v.name = some (.interior i) := by rw [closes.slots, slot]
    rw [find?_of_slot hslot] at hfind
    obtain ⟨htype, hlit⟩ : (p.registry.value (.interior i)).type = v.type ∧
        (p.registry.value (.interior i)).literal = none := by
      rw [Option.some.inj hfind]
      exact ⟨rfl, hbare⟩
    exact .held hne hslot (by simp) htype hlit (by simp)

end Step

/-- The names stand for values of one type. -/
def Registry.SameType (r : Registry) (x y : String) : Prop := ∃ t, r.Stands x t ∧ r.Stands y t

lemma Registry.SameType.trans {z : String} (h : r.SameType x y) (h' : r.SameType y z) :
    r.SameType x z := by
  obtain ⟨t, hx, hy⟩ := h
  obtain ⟨t', hy', hz⟩ := h'
  obtain rfl := hy.type_eq hy'
  exact ⟨t, hx, hz⟩

lemma Step.sameType (h : Step s p s') (hs : s.registry.Sound) (hsingle : Step.Single p)
    (hxy : s.registry.SameType x y) : s'.registry.SameType x y := by
  obtain ⟨t, hx, hy⟩ := hxy
  exact ⟨t, h.stands hs hsingle hx, h.stands hs hsingle hy⟩

lemma Run.step_single (hm : m.WellFormed) (run : Run m ps (p.message :: rest) s)
    (step : Step.Body s p) : Step.Single p :=
  step.single_of_mem hm (by simp [← run.messages])

/-- The output and the operand of an identity that is left out stand for values of one type. -/
theorem Run.sameType_out {ys : List String} {u : Value} (hm : m.WellFormed)
    (run : Run m ps (p.message :: rest) s) (step : Step s p s')
    (operator : p.typed.operator = .identity) (message : x ∈ p.message.inputs)
    (outputs : p.outputNames = y :: ys) (resolve : s.registry.resolve x = .ok u)
    (bare : u.literal = none) (inner : s.registry.isOutput y = false)
    (input : p.typed.inputs.head? = some u) : s'.registry.SameType y x := by
  have hsingle := run.step_single hm step.toBody
  have ht : ImportState.isTransparent p.typed.operator = true := by rw [operator]; rfl
  obtain ⟨v, hne, hnames, hv, -⟩ := step.single_typed hm (by simp [← run.messages]) ht
  have htyped := step.outputs_of_identity operator input
  obtain rfl : v.name = y := (List.cons.inj (hnames.symm.trans outputs)).1
  rw [hv, hnames, List.map_singleton] at htyped
  obtain ⟨hbare, htype⟩ : v.literal = none ∧ v.type = u.type := by
    rw [(List.cons.inj htyped).1]
    exact ⟨rfl, rfl⟩
  have hname : u.name = x := run.arrays.name_resolve resolve
  refine ⟨u.type, htype ▸ step.stands_of_written run.sound hsingle hv hne hbare inner, ?_⟩
  rw [← hname] at resolve message ⊢
  refine step.stands_of_read run.sound hsingle run.arrays (List.mem_of_head? input) ?_ resolve bare
  -- an identity does not read what it writes itself
  rw [Passage.written, hv]
  intro hw
  obtain ⟨hread, w, hw, hname⟩ := mem_namesOf.mp hw
  obtain rfl : w = v := List.mem_singleton.mp hw
  refine hm.not_written_of_read run.messages.symm message ?_
  rw [written_cons, List.mem_append, mem_named]
  refine .inl ⟨?_, hread⟩
  have hc := (step.transparent ht).1
  rw [Passage.outputNames_of_kept hc] at hnames
  simp [hnames, hname]

/-- The output of an identity that has been left out and the name that its readers are led to stand
for values of one type. -/
theorem Run.sameType_elided {e : Elision} (hm : m.WellFormed) (run : Run m ps rest s)
    (he : s.elisions.get? y = some e) : s.registry.SameType y e.source := by
  induction run generalizing y e with
  | start => simp at he
  | @step ps p rest s s' run next step ih =>
    have hsingle := run.step_single hm step.toBody
    have hold : s.elisions.get? y = some e → s'.registry.SameType y e.source :=
      fun he => step.sameType run.sound hsingle (ih he)
    cases step.elision with
    | past _ _ elisions => exact hold (elisions ▸ he)
    | @out x z u ys operator _ message outputs resolve bare _ elisions inner input =>
      rw [elisions, Table.get?_insert] at he
      split at he
      swap
      · exact hold he
      next hy =>
      obtain rfl := Option.some.inj he
      obtain rfl := hy
      have hsame := run.sameType_out hm step operator message outputs resolve bare inner input
      rw [run.arrays.name_resolve resolve]
      change s'.registry.SameType y (s.sourceOf x)
      unfold ImportState.sourceOf
      -- the operand may be the output of an identity that has been left out before
      cases hx : s.elisions.get? x with
      | none => exact hsame
      | some e => exact hsame.trans (step.sameType run.sound hsingle (ih hx))

end TensorGraph
