import Mathlib.Data.List.Nodup
import TensorGraph.Import
import TensorGraph.Proofs.Registry

/-!
# The operands and outputs of a node in the registry

What the last stages of an import do to the registry. Renaming the operands marks it at most
(`renameInputs_ok`). Recording the outputs and renaming them changes what is held under their names,
and under no others (`Registry.record_ok`, `renameOutputs_ok`, `renameLiteral_ok`).
-/

namespace TensorGraph

open Registry

/-- The names of values that have one. -/
def namesOf (vs : List Value) : List String := (vs.map Value.name).filter (· ≠ "")

variable {r r' r₁ r₂ : Registry} {v w : Value} {vs ws : List Value} {x producer : String} {n : Node}

lemma mem_namesOf : x ∈ namesOf vs ↔ x ≠ "" ∧ ∃ v ∈ vs, v.name = x := by
  simp [namesOf, and_comm]

lemma mem_namesOf_of_mem (hv : v ∈ vs) (h : v.name ≠ "") : v.name ∈ namesOf vs :=
  mem_namesOf.mpr ⟨h, v, hv, rfl⟩

lemma namesOf_cons_of_empty (h : v.name = "") : namesOf (v :: vs) = namesOf vs := by
  simp [namesOf, h]

lemma namesOf_cons_of_ne (h : v.name ≠ "") : namesOf (v :: vs) = v.name :: namesOf vs := by
  simp [namesOf, h]

namespace Registry

/-- How `r'` holds a value that has been recorded in `r`. -/
inductive Recorded (r r' : Registry) (v : Value) : Prop where
  | fresh (i : Nat) (new : r.slots.get? v.name = none) (unread : v.name ∉ r.missed)
      (slot : r'.slots.get? v.name = some (.interior i)) (value : r'.find? v.name = some v)
  | input (i : Nat) (slot : r.slots.get? v.name = some (.input i))
      (slot' : r'.slots.get? v.name = some (.input i))
      (value : r'.find? v.name = some ((r.value (.input i)).copyFrom v))
  | output (i : Nat) (slot : r.slots.get? v.name = some (.output i))
      (slot' : r'.slots.get? v.name = some (.output i))
      (value : r'.find? v.name = some { (r.value (.output i)).copyFrom v with used := true })

/-- The registry `r'` differs from `r` at the given names at most. -/
structure SameOutside (names : List String) (r r' : Registry) : Prop where
  sound : r'.Sound
  initializers : r'.initializers = r.initializers
  missed : r'.missed = r.missed
  inputs : r'.inputs.length = r.inputs.length
  outputs : r'.outputs.length = r.outputs.length
  slots : ∀ {x}, x ∉ names → r'.slots.get? x = r.slots.get? x
  find? : ∀ {x}, x ∉ names → r'.find? x = r.find? x

namespace SameOutside

variable {names names' : List String}

lemma refl (hr : r.Sound) : SameOutside names r r :=
  ⟨hr, rfl, rfl, rfl, rfl, fun _ => rfl, fun _ => rfl⟩

lemma value {slot : Slot} (h : SameOutside names r r') (hx : x ∉ names)
    (hs : r.slots.get? x = some slot) : r'.value slot = r.value slot := by
  have hfind := h.find? hx
  rw [find?_of_slot ((h.slots hx).trans hs), find?_of_slot hs] at hfind
  exact Option.some.inj hfind

lemma trans (h : SameOutside names r r₁) (h' : SameOutside names' r₁ r₂) :
    SameOutside (names ++ names') r r₂ where
  sound := h'.sound
  initializers := h'.initializers.trans h.initializers
  missed := h'.missed.trans h.missed
  inputs := h'.inputs.trans h.inputs
  outputs := h'.outputs.trans h.outputs
  slots hx := by
    rw [List.mem_append, not_or] at hx
    rw [h'.slots hx.2, h.slots hx.1]
  find? hx := by
    rw [List.mem_append, not_or] at hx
    rw [h'.find? hx.2, h.find? hx.1]

/-- What differs at one of the names after that, still differs at these names at most. -/
lemma trans_mem (h : SameOutside names r r₁) (hx : x ∈ names) (h' : SameOutside [x] r₁ r₂) :
    SameOutside names r r₂ := by
  have hboth := h.trans h'
  have hnot : ∀ {y}, y ∉ names → y ∉ names ++ [x] := by
    intro y hy
    simp only [List.mem_append, List.mem_singleton, not_or]
    exact ⟨hy, fun e => hy (e ▸ hx)⟩
  exact { hboth with
    slots := fun hy => hboth.slots (hnot hy)
    find? := fun hy => hboth.find? (hnot hy) }

lemma of_modify (f : Value → Value) {slot : Slot} (hr : r.Sound)
    (hs : r.slots.get? x = some slot) : SameOutside [x] r (r.modify f slot) where
  sound := sound_modify f hr
  initializers := initializers_modify f
  missed := missed_modify f
  inputs := by cases slot <;> simp [modify]
  outputs := by cases slot <;> simp [modify]
  slots _ := by rw [slots_modify]
  find? hy := find?_modify_of_ne f hr hs (by simpa using hy)

lemma of_addInterior (hr : r.Sound) : SameOutside [x] r (r.addInterior x v) where
  sound := sound_addInterior hr
  initializers := rfl
  missed := rfl
  inputs := rfl
  outputs := rfl
  slots hy := by simp [slots_addInterior, show _ ≠ _ by simpa using hy]
  find? hy := find?_addInterior_of_ne hr (by simpa using hy)

end SameOutside

lemma recordOne_recorded (hr : r.Sound) (hv : v.name ≠ "")
    (h : r.recordOne producer v = .ok r') : SameOutside [v.name] r r' ∧ Recorded r r' v := by
  obtain ⟨hs, hm, rfl⟩ | ⟨i, hs, rfl⟩ | ⟨i, hs, rfl⟩ := recordOne_ok hv h
  · exact ⟨.of_addInterior hr,
      .fresh r.interior.length hs hm (by simp [slots_addInterior]) find?_addInterior_self⟩
  · exact ⟨.of_modify _ hr hs, .input i hs (by rw [slots_modify, hs])
      (by rw [find?_modify_self _ hr hs, find?_of_slot hs]; rfl)⟩
  · exact ⟨.of_modify _ hr hs, .output i hs (by rw [slots_modify, hs])
      (by rw [find?_modify_self _ hr hs, find?_of_slot hs]; rfl)⟩

/-- What is recorded under one name stays so while other names are recorded. -/
lemma Recorded.mono {names : List String} (h : Recorded r r₁ v) (hs : SameOutside names r₁ r₂)
    (hv : v.name ∉ names) : Recorded r r₂ v := by
  cases h with
  | fresh i new unread slot value =>
    exact .fresh i new unread ((hs.slots hv).trans slot) ((hs.find? hv).trans value)
  | input i slot slot' value =>
    exact .input i slot ((hs.slots hv).trans slot') ((hs.find? hv).trans value)
  | output i slot slot' value =>
    exact .output i slot ((hs.slots hv).trans slot') ((hs.find? hv).trans value)

lemma Recorded.of_sameOutside {names : List String} (hs : SameOutside names r r₁)
    (hv : v.name ∉ names) (h : Recorded r₁ r₂ v) : Recorded r r₂ v := by
  have hslot := hs.slots hv
  have hvalue : ∀ slot, r.slots.get? v.name = some slot → r₁.value slot = r.value slot :=
    fun _ h₀ => hs.value hv h₀
  cases h with
  | fresh i new unread slot value =>
    exact .fresh i (hslot ▸ new) (hs.missed ▸ unread) slot value
  | input i slot slot' value =>
    rw [hslot] at slot
    exact .input i slot slot' (hvalue _ slot ▸ value)
  | output i slot slot' value =>
    rw [hslot] at slot
    exact .output i slot slot' (hvalue _ slot ▸ value)

lemma record_cons_ok (h : r.record producer (v :: vs) = (r', .ok ())) :
    ∃ r₁, r.recordOne producer v = .ok r₁ ∧ r₁.record producer vs = (r', .ok ()) := by
  simp only [record] at h
  split at h
  · next r₁ h₁ => exact ⟨r₁, h₁, h⟩
  · simp at h

/-- What recording one value keeps, recording the values keeps. -/
lemma record_invariant {P : Registry → Prop}
    (hstep : ∀ {r r₁ v}, v ∈ vs → r.recordOne producer v = .ok r₁ → P r → P r₁)
    (h : r.record producer vs = (r', .ok ())) (hr : P r) : P r' := by
  induction vs generalizing r with
  | nil =>
    obtain rfl : r = r' := by simpa [record] using h
    exact hr
  | cons v vs ih =>
    obtain ⟨r₁, h₁, h⟩ := record_cons_ok h
    exact ih (fun hv => hstep (List.mem_cons_of_mem _ hv)) h (hstep List.mem_cons_self h₁ hr)

/-- Recording values of different names records each of them, and nothing else. -/
theorem record_ok (hr : r.Sound) (hnd : (namesOf vs).Nodup)
    (h : r.record producer vs = (r', .ok ())) :
    SameOutside (namesOf vs) r r' ∧ ∀ v ∈ vs, v.name ≠ "" → Recorded r r' v := by
  induction vs generalizing r with
  | nil =>
    obtain rfl : r = r' := by simpa [record] using h
    exact ⟨.refl hr, by simp⟩
  | cons v vs ih =>
    obtain ⟨r₁, h₁, h⟩ := record_cons_ok h
    by_cases hv : v.name = ""
    · obtain rfl : r = r₁ := by simpa [recordOne, hv] using h₁
      rw [namesOf_cons_of_empty hv] at hnd ⊢
      obtain ⟨hout, hrec⟩ := ih hr hnd h
      refine ⟨hout, fun w hw hne => ?_⟩
      obtain rfl | hw := List.mem_cons.mp hw
      · exact absurd hv hne
      · exact hrec w hw hne
    · rw [namesOf_cons_of_ne hv] at hnd ⊢
      obtain ⟨hnotin, hnd⟩ := List.nodup_cons.mp hnd
      obtain ⟨hone, hfirst⟩ := recordOne_recorded hr hv h₁
      obtain ⟨hout, hrec⟩ := ih hone.sound hnd h
      refine ⟨hone.trans hout, fun w hw hne => ?_⟩
      obtain rfl | hw := List.mem_cons.mp hw
      · exact hfirst.mono hout hnotin
      · have : w.name ≠ v.name := fun e => hnotin (e ▸ mem_namesOf_of_mem hw hne)
        exact (hrec w hw hne).of_sameOutside hone (by simpa using this)

end Registry

/-- An operand under its new name, if it gets one. -/
def Registry.renamedOperand (r : Registry) (v : Value) : Value :=
  match r.nameFor v.name with
  | some name => { v with name, used := true }
  | none => { v with name := "", used := false }

lemma Registry.Marked.renamedOperand (h : Marked r r') (v : Value) :
    r'.renamedOperand v = r.renamedOperand v := by
  simp only [Registry.renamedOperand, h.nameFor]

lemma renameInputs_cons_ok (h : ImportState.renameInputs r (v :: vs) = .ok (r', ws)) :
    ∃ name r₁ us, r.newName v.name = .ok (name, r₁) ∧
      ImportState.renameInputs r₁ vs = .ok (r', us) ∧ ws = (match name with
        | some name => { v with name, used := true }
        | none => { v with name := "", used := false }) :: us := by
  simp only [ImportState.renameInputs, Except.bind_eq_ok, Except.pure_eq_ok, Prod.exists,
    Prod.mk.injEq] at h
  obtain ⟨name, r₁, h₁, r₂, us, h₂, rfl, rfl⟩ := h
  exact ⟨name, r₁, us, h₁, h₂, rfl⟩

/-- Renaming operands marks the registry at most. No operand is a graph output, and the graph
inputs among them count as used after it. -/
theorem renameInputs_ok (hr : r.Sound) (h : ImportState.renameInputs r vs = .ok (r', ws)) :
    Marked r r' ∧ ws = vs.map r.renamedOperand ∧
      ∀ v ∈ vs, v.name ≠ "" → (∀ i, r.slots.get? v.name ≠ some (.output i)) ∧
        ∀ i, r.slots.get? v.name = some (.input i) → (r'.value (.input i)).used = true := by
  induction vs generalizing r ws with
  | nil =>
    obtain ⟨rfl, rfl⟩ := Prod.mk.inj (Except.ok.inj h)
    exact ⟨.refl r, rfl, by simp⟩
  | cons v vs ih =>
    obtain ⟨name, r₁, us, h₁, h₂, rfl⟩ := renameInputs_cons_ok h
    obtain ⟨rfl, hmark, hout, huse⟩ := newName_ok hr h₁
    obtain ⟨hmark', rfl, hrest⟩ := ih (hmark.sound hr) h₂
    refine ⟨hmark.trans hmark', ?_, fun w hw hne => ?_⟩
    · rw [List.map_congr_left fun w _ => hmark.renamedOperand w]
      rfl
    · obtain rfl | hw := List.mem_cons.mp hw
      · refine ⟨hout hne, fun i hi => ?_⟩
        rcases hmark'.value (.input i) with e | e
        · rw [e, huse i hne hi]
        · rw [e]
      · rw [← hmark.slots]
        exact hrest w hw hne

/-! ## Outputs -/

/-- The outputs of a node under their new names; `number` is that of the first. -/
def renamedOutputs (n : Node) (number : Nat) (vs : List Value) : List Value :=
  (vs.zipIdx number).map fun (v, k) =>
    if v.name = "" then v else { v with name := ImportState.outputName n k }

lemma getElem?_renamedOutputs {number a : Nat} :
    (renamedOutputs n number vs)[a]? = vs[a]?.map fun v =>
      if v.name = "" then v else { v with name := ImportState.outputName n (number + a) } := by
  simp [renamedOutputs, List.getElem?_zipIdx, Option.map_map, Function.comp_def]

lemma map_type_renamedOutputs {number : Nat} :
    (renamedOutputs n number vs).map Value.type = vs.map Value.type := by
  refine List.ext_getElem? fun a => ?_
  rw [List.getElem?_map, List.getElem?_map, getElem?_renamedOutputs, Option.map_map]
  refine congrArg (Option.map · vs[a]?) (funext fun v => ?_)
  simp only [Function.comp_apply]
  split <;> rfl

/-- The outputs `vs` of a node, of which `r'` holds those with a name under their new names. -/
structure Settled (n : Node) (number : Nat) (vs : List Value) (r r' : Registry) : Prop where
  outside : SameOutside (namesOf vs) r r'
  slots : r'.slots = r.slots
  renamed : ∀ {a v}, vs[a]? = some v → v.name ≠ "" →
    (∀ i, r.slots.get? v.name ≠ some (.input i)) ∧ ∃ w, r.find? v.name = some w ∧
      r'.find? v.name = some { w with name := ImportState.outputName n (number + a) }

/-- An output without a name is passed over, and one with a name is renamed; then come the others. -/
lemma renameOutputs_cons_ok {number : Nat}
    (h : ImportState.renameOutputs n r number (v :: vs) = .ok (r', ws)) : ∃ us,
    (v.name = "" ∧ ImportState.renameOutputs n r (number + 1) vs = .ok (r', us) ∧ ws = v :: us) ∨
      (v.name ≠ "" ∧ ∃ r₁, r.rename v.name (ImportState.outputName n number) = .ok r₁ ∧
        ImportState.renameOutputs n r₁ (number + 1) vs = .ok (r', us) ∧
        ws = { v with name := ImportState.outputName n number } :: us) := by
  simp only [ImportState.renameOutputs] at h
  split at h
  · next hv =>
    simp only [Except.bind_eq_ok, Except.pure_eq_ok, Prod.exists, Prod.mk.injEq] at h
    obtain ⟨_, us, h, rfl, rfl⟩ := h
    exact ⟨us, .inl ⟨hv, h, rfl⟩⟩
  · next hv =>
    simp only [Except.bind_eq_ok, Except.pure_eq_ok, Prod.exists, Prod.mk.injEq] at h
    obtain ⟨r₁, hrename, _, us, h, rfl, rfl⟩ := h
    exact ⟨us, .inr ⟨hv, r₁, hrename, h, rfl⟩⟩

/-- What renaming one output keeps, renaming the outputs keeps. -/
lemma renameOutputs_invariant {P : Registry → Prop} {number : Nat}
    (hstep : ∀ {r r₁ v new}, v ∈ vs → v.name ≠ "" → r.rename v.name new = .ok r₁ → P r → P r₁)
    (h : ImportState.renameOutputs n r number vs = .ok (r', ws)) (hr : P r) : P r' := by
  induction vs generalizing r ws number with
  | nil =>
    obtain ⟨rfl, -⟩ := Prod.mk.inj (Except.ok.inj h)
    exact hr
  | cons v vs ih =>
    obtain ⟨us, ⟨-, h, -⟩ | ⟨hv, r₁, hrename, h, -⟩⟩ := renameOutputs_cons_ok h
    · exact ih (fun hv => hstep (List.mem_cons_of_mem _ hv)) h hr
    · exact ih (fun hv => hstep (List.mem_cons_of_mem _ hv)) h
        (hstep List.mem_cons_self hv hrename hr)

/-- A Constant or an identity has its first output renamed or entered. -/
lemma renameLiteral_eq_ok : ImportState.renameLiteral n r = .ok (r', ws) ↔
    ∃ v vs, n.outputs = v :: vs ∧
      r.insertOrRename v (ImportState.outputName n 1) = .ok r' ∧
      ws = { v with name := ImportState.outputName n 1 } :: vs := by
  unfold ImportState.renameLiteral
  cases n.outputs with
  | nil => simp [outOfRange]
  | cons v vs =>
    simp only [Except.bind_eq_ok, Except.pure_eq_ok, Prod.mk.injEq, List.cons.injEq]
    constructor
    · rintro ⟨r₁, hrename, rfl, rfl⟩
      exact ⟨v, vs, ⟨rfl, rfl⟩, hrename, rfl⟩
    · rintro ⟨_, _, ⟨rfl, rfl⟩, hrename, rfl⟩
      exact ⟨r', hrename, rfl, rfl⟩

namespace Settled

variable {number : Nat}

/-- An output without a name is passed over. -/
lemma cons_of_empty (hv : v.name = "") (h : Settled n (number + 1) vs r r') :
    Settled n number (v :: vs) r r' where
  outside := by
    rw [namesOf_cons_of_empty hv]
    exact h.outside
  slots := h.slots
  renamed {a w} ha hw := by
    cases a with
    | zero =>
      obtain rfl : v = w := by simpa using ha
      exact absurd hv hw
    | succ a =>
      rw [List.getElem?_cons_succ] at ha
      rw [Nat.add_comm a 1, ← Nat.add_assoc]
      exact h.renamed ha hw

/-- One with a name of its own is renamed, and the others after it. -/
lemma cons_of_rename (hr : r.Sound) (hv : v.name ≠ "") (hnotin : v.name ∉ namesOf vs)
    (hrename : r.rename v.name (ImportState.outputName n number) = .ok r₁)
    (h : r₁.Sound → Settled n (number + 1) vs r₁ r') : Settled n number (v :: vs) r r' := by
  obtain ⟨slot, hslot, hin, rfl⟩ := rename_ok hrename
  have hone := SameOutside.of_modify
    (fun w => { w with name := ImportState.outputName n number }) hr hslot
  have hrest := h hone.sound
  refine ⟨?_, by rw [hrest.slots, slots_modify], fun {a w} ha hw => ?_⟩
  · rw [namesOf_cons_of_ne hv]
    exact hone.trans hrest.outside
  cases a with
  | zero =>
    obtain rfl : v = w := by simpa using ha
    refine ⟨fun i e => hin i (by simpa [hslot] using e), _, find?_of_slot hslot, ?_⟩
    rw [hrest.outside.find? hnotin, find?_modify_self _ hr hslot, find?_of_slot hslot]
    rfl
  | succ a =>
    rw [List.getElem?_cons_succ] at ha
    have hne : w.name ≠ v.name := fun e =>
      hnotin (e ▸ mem_namesOf_of_mem (List.mem_of_getElem? ha) hw)
    obtain ⟨hin', w', hw', hren⟩ := hrest.renamed ha hw
    rw [hone.find? (by simpa using hne)] at hw'
    rw [slots_modify] at hin'
    rw [Nat.add_comm a 1, ← Nat.add_assoc]
    exact ⟨hin', w', hw', hren⟩

end Settled

lemma eq_renamedOutputs {number : Nat}
    (h : ImportState.renameOutputs n r number vs = .ok (r', ws)) :
    ws = renamedOutputs n number vs := by
  induction vs generalizing r r' ws number with
  | nil => exact (Prod.mk.inj (Except.ok.inj h)).2.symm
  | cons v vs ih =>
    obtain ⟨us, ⟨hv, hus, rfl⟩ | ⟨hv, _, -, hus, rfl⟩⟩ := renameOutputs_cons_ok h
    · obtain rfl := ih hus
      simp [renamedOutputs, hv]
    · obtain rfl := ih hus
      simp [renamedOutputs, hv]

/-- Renaming outputs of different names renames each of them, and nothing else. -/
theorem renameOutputs_ok {number : Nat} (hr : r.Sound) (hnd : (namesOf vs).Nodup)
    (h : ImportState.renameOutputs n r number vs = .ok (r', ws)) :
    Settled n number vs r r' ∧ ws = renamedOutputs n number vs := by
  refine ⟨?_, eq_renamedOutputs h⟩
  induction vs generalizing r ws number with
  | nil =>
    obtain ⟨rfl, -⟩ := Prod.mk.inj (Except.ok.inj h)
    exact ⟨.refl hr, rfl, by simp⟩
  | cons v vs ih =>
    obtain ⟨us, ⟨hv, h, -⟩ | ⟨hv, r₁, hrename, h, -⟩⟩ := renameOutputs_cons_ok h
    · rw [namesOf_cons_of_empty hv] at hnd
      exact (ih hr hnd h).cons_of_empty hv
    · rw [namesOf_cons_of_ne hv] at hnd
      obtain ⟨hnotin, hnd⟩ := List.nodup_cons.mp hnd
      exact .cons_of_rename hr hv hnotin hrename fun hr₁ => ih hr₁ hnd h

/-- Renaming the only output of a node, which is registered under its own name. -/
theorem renameLiteral_ok (hr : r.Sound) (hn : n.outputs = [v]) (hv : v.name ≠ "")
    (hv' : ∃ w, r.find? v.name = some w)
    (hname : ∀ i, r.slots.get? v.name = some (.interior i) → r.find? v.name = some v)
    (h : ImportState.renameLiteral n r = .ok (r', ws)) :
    Settled n 1 n.outputs r r' ∧ ws = renamedOutputs n 1 n.outputs := by
  obtain ⟨_, _, hout, h₁, rfl⟩ := renameLiteral_eq_ok.mp h
  obtain ⟨rfl, rfl⟩ := List.cons.inj (hn.symm.trans hout)
  obtain ⟨w, hw⟩ := hv'
  obtain ⟨slot, hslot, rfl⟩ := Option.map_eq_some_iff.mp hw
  have hname' : ∀ i, slot = .interior i → (r.value slot).name = v.name := by
    rintro i rfl
    have := hname i hslot
    rw [find?_of_slot hslot] at this
    rw [Option.some.inj this]
  obtain ⟨hin, rfl⟩ := insertOrRename_ok hslot hname' h₁
  rw [hn]
  refine ⟨⟨?_, slots_modify _, fun {a w} ha _ => ?_⟩, by simp [renamedOutputs, hv]⟩
  · rw [namesOf_cons_of_ne hv]
    exact .of_modify _ hr hslot
  · obtain ⟨rfl, rfl⟩ : a = 0 ∧ v = w := by
      cases a with
      | zero => simpa using ha
      | succ a => simp at ha
    refine ⟨fun i e => hin i (by simpa [hslot] using e), _, hw, ?_⟩
    rw [find?_modify_self _ hr hslot, find?_of_slot hslot]
    rfl

lemma map_inputs_record {β : Type} {view : Value → β}
    (hview : ∀ v w, view (v.copyFrom w) = view v) (h : r.record producer vs = (r', .ok ())) :
    r'.inputs.map view = r.inputs.map view :=
  record_invariant (P := fun r₁ => r₁.inputs.map view = r.inputs.map view)
    (fun _ h₁ hr => (map_inputs_recordOne hview h₁).trans hr) h rfl

lemma inputs_renameOutputs {number : Nat}
    (h : ImportState.renameOutputs n r number vs = .ok (r', ws)) : r'.inputs = r.inputs :=
  renameOutputs_invariant (P := fun r₁ => r₁.inputs = r.inputs)
    (fun _ _ h₁ hr => (inputs_rename h₁).trans hr) h rfl

lemma inputs_renameLiteral (h : ImportState.renameLiteral n r = .ok (r', ws)) :
    r'.inputs = r.inputs := by
  obtain ⟨v, vs, -, hrename, -⟩ := renameLiteral_eq_ok.mp h
  exact inputs_insertOrRename hrename

end TensorGraph
