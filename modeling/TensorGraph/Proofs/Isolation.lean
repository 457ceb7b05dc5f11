import TensorGraph.Proofs.Import.Growth

/-!
# Operations on a registry, one name at a time

A registry comes from the declarations of a model, and changes by operations, some of which fail
(`Registry.Reached`). Whatever has been done to it, an operation on one name changes nothing of what
it tells about another (`Registry.Reached.isolated`).
-/

namespace TensorGraph.Registry

open Onnx

variable {m : ModelMessage} {r r' r₁ r₂ : Registry} {a b x producer : String} {v : Value}
  {vs : List Value} {slot : Slot}

/-- An operation on a registry. -/
inductive Operation where
  | resolve (name : String)
  | newName (name : String)
  | rename (name new : String)
  | insertOrRename (v : Value) (new : String)
  | record (producer : String) (vs : List Value)
  | boundary (name : String)

/-- The names of the file that an operation is about. -/
def Operation.names : Operation → List String
  | .resolve x | .newName x | .rename x _ | .boundary x => [x]
  | .insertOrRename v _ => [v.name]
  | .record _ vs => namesOf vs

/-- The registry after an operation, be it that it fails. Recording keeps what it has done before it
fails; any other operation that fails has done nothing. -/
def after (r : Registry) : Operation → Registry
  | .resolve _ | .boundary _ => r
  | .newName x => match r.newName x with
    | .ok (_, r') => r'
    | .error _ => r
  | .rename x new => match r.rename x new with
    | .ok r' => r'
    | .error _ => r
  | .insertOrRename v new => match r.insertOrRename v new with
    | .ok r' => r'
    | .error _ => r
  | .record producer vs => (r.record producer vs).1

/-- The registry has come from the declarations of some model by some operations. -/
inductive Reached : Registry → Prop where
  | start {m : ModelMessage} {r : Registry} (h : ofModel m = .ok r) : Reached r
  | step {r : Registry} (h : Reached r) (op : Operation) : Reached (r.after op)

variable {xs : List String}

/-- The registry `r'` tells the same as `r` about all names but the given ones. -/
structure TellsSame (xs : List String) (r r' : Registry) : Prop where
  sound : r'.Sound
  initializers : r'.initializers = r.initializers
  slots : ∀ {x}, x ∉ xs → r'.slots.get? x = r.slots.get? x
  find? : ∀ {x}, x ∉ xs → r'.find? x = r.find? x

lemma SameOutside.tellsSame (h : SameOutside xs r r') : TellsSame xs r r' :=
  ⟨h.sound, h.initializers, h.slots, h.find?⟩

namespace TellsSame

lemma refl (hr : r.Sound) : TellsSame xs r r := ⟨hr, rfl, fun _ => rfl, fun _ => rfl⟩

lemma trans {ys : List String} (h : TellsSame xs r r₁) (h' : TellsSame ys r₁ r₂) :
    TellsSame (xs ++ ys) r r₂ where
  sound := h'.sound
  initializers := h'.initializers.trans h.initializers
  slots hx := by
    rw [List.mem_append, not_or] at hx
    rw [h'.slots hx.2, h.slots hx.1]
  find? hx := by
    rw [List.mem_append, not_or] at hx
    rw [h'.find? hx.2, h.find? hx.1]

variable (h : TellsSame xs r r') (hb : b ∉ xs)

include h hb

lemma value (hs : r.slots.get? b = some slot) : r'.value slot = r.value slot := by
  have hfind := h.find? hb
  rw [find?_of_slot ((h.slots hb).trans hs), find?_of_slot hs] at hfind
  exact Option.some.inj hfind

lemma resolve : r'.resolve b = r.resolve b := by
  unfold Registry.resolve
  rw [h.slots hb, h.initializers]
  cases hs : r.slots.get? b with
  | none => rfl
  | some slot => cases slot <;> simp only [h.value hb hs]

lemma newName : (r'.newName b).map Prod.fst = (r.newName b).map Prod.fst := by
  unfold Registry.newName
  rw [h.slots hb]
  split
  · rfl
  cases hs : r.slots.get? b with
  | none => rfl
  | some slot =>
    cases slot with
    | input i => simp [Except.map, (marked_use i).name_value, h.value hb hs, h.initializers]
    | output i => rfl
    | interior i => simp [Except.map, h.value hb hs]

lemma isOutput : r'.isOutput b = r.isOutput b := by
  unfold Registry.isOutput
  rw [h.slots hb]

lemma boundary? : r'.boundary? b = r.boundary? b := by
  unfold Registry.boundary?
  rw [h.slots hb]
  cases hs : r.slots.get? b with
  | none => rfl
  | some slot => cases slot <;> simp only [h.value hb hs]

end TellsSame

lemma tellsSame_newName {name : Option String} (hr : r.Sound) (h : r.newName x = .ok (name, r')) :
    TellsSame [x] r r' := by
  unfold Registry.newName at h
  split at h
  · obtain ⟨-, rfl⟩ := Prod.mk.inj (Except.ok.inj h)
    exact .refl hr
  split at h
  · obtain ⟨-, rfl⟩ := Prod.mk.inj (Except.ok.inj h)
    split
    · exact .refl hr
    · exact ⟨⟨hr.has, hr.injective⟩, rfl, fun _ => rfl, fun _ => rfl⟩
  · next i hs =>
    obtain ⟨-, rfl⟩ := Prod.mk.inj (Except.ok.inj h)
    exact (SameOutside.of_modify _ hr hs).tellsSame
  · obtain ⟨-, rfl⟩ := Prod.mk.inj (Except.ok.inj h)
    exact .refl hr
  · simp at h

lemma tellsSame_rename {new : String} (hr : r.Sound) (h : r.rename x new = .ok r') :
    TellsSame [x] r r' := by
  obtain ⟨slot, hs, -, rfl⟩ := rename_ok h
  exact (SameOutside.of_modify _ hr hs).tellsSame

/-- This holds also of a recording that stops half-way. -/
lemma tellsSame_record (hr : r.Sound) : TellsSame (namesOf vs) r (r.record producer vs).1 := by
  induction vs generalizing r with
  | nil => exact .refl hr
  | cons v vs ih =>
    rw [Registry.record]
    split
    · next r₁ h₁ =>
      by_cases hv : v.name = ""
      · obtain rfl : r = r₁ := by simpa [recordOne, hv] using h₁
        rw [namesOf_cons_of_empty hv]
        exact ih hr
      · obtain ⟨hone, -⟩ := recordOne_recorded hr hv h₁
        rw [namesOf_cons_of_ne hv]
        exact hone.tellsSame.trans (ih hone.sound)
    · exact .refl hr

/-- An operation changes what is told about its own names at most. -/
theorem tellsSame_after (hr : r.Sound) (op : Operation) : TellsSame op.names r (r.after op) := by
  cases op with
  | resolve x => exact .refl hr
  | boundary x => exact .refl hr
  | newName x =>
    rw [after]
    split
    · next h => exact tellsSame_newName hr h
    · exact .refl hr
  | rename x new =>
    rw [after]
    split
    · next h => exact tellsSame_rename hr h
    · exact .refl hr
  | insertOrRename v new =>
    rw [after]
    split
    · next h => exact (insertOrRename_outside hr h).tellsSame
    · exact .refl hr
  | record producer vs => exact tellsSame_record hr

/-! ## Any history -/

lemma Reached.sound (h : r.Reached) : r.Sound := by
  induction h with
  | start h => exact (ofModel_declares h).1.sound
  | step _ op ih => exact (tellsSame_after ih op).sound

/-- Whatever has been done to a registry, an operation that is about no name but `a` leaves what it
tells about any other name `b`, be it that the operation fails. -/
theorem Reached.isolated {op : Operation} (h : r.Reached) (ha : ∀ x ∈ op.names, x = a)
    (hb : b ≠ a) :
    (r.after op).resolve b = r.resolve b ∧
      ((r.after op).newName b).map Prod.fst = (r.newName b).map Prod.fst ∧
      (r.after op).isOutput b = r.isOutput b ∧ (r.after op).boundary? b = r.boundary? b := by
  have same := tellsSame_after h.sound op
  have hmem : b ∉ op.names := fun hmem => hb (ha b hmem)
  exact ⟨same.resolve hmem, same.newName hmem, same.isOutput hmem, same.boundary? hmem⟩

/-- The name `x` is that of a graph input and of a graph output, which takes it over. -/
def sharedBoundary : ModelMessage where
  inputs := [{ name := "x", elementType := 1, dims := [.size 2] },
    { name := "u", elementType := 1, dims := [.size 3] }]
  outputs := [{ name := "x", elementType := 1, dims := [.size 2] }]

/-- Records something under `y` twice, the second time in vain. -/
def recordTwice : Operation := .record "relu1" [{ name := "y" }, { name := "" }, { name := "y" }]

theorem Reached.isolated_recordTwice :
    ∃ r, Reached r ∧
      (r.record "relu1" [{ name := "y" }, { name := "" }, { name := "y" }]).2 =
        .error (.naming (.producedTwice "y")) ∧
      (r.after recordTwice).slots.get? "y" = some (.interior 0) ∧
      ((r.after recordTwice).resolve "u" = r.resolve "u" ∧
        ((r.after recordTwice).newName "u").map Prod.fst = (r.newName "u").map Prod.fst ∧
        (r.after recordTwice).isOutput "u" = r.isOutput "u" ∧
        (r.after recordTwice).boundary? "u" = r.boundary? "u") := by
  obtain ⟨r, h, herror, hslot⟩ : ∃ r, ofModel sharedBoundary = .ok r ∧
      (((r.after (.newName "x")).record "relu1"
        [{ name := "y" }, { name := "" }, { name := "y" }]).2 =
        .error (.naming (.producedTwice "y")) ∧
      ((r.after (.newName "x")).after recordTwice).slots.get? "y" = some (.interior 0)) :=
    Except.exists_ok (by decide +kernel)
  have reached : Reached (r.after (.newName "x")) := .step (.start h) _
  exact ⟨_, reached, herror, hslot, reached.isolated (a := "y") (by decide) (by decide)⟩

end TensorGraph.Registry
