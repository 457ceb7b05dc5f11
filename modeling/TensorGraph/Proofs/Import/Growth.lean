import TensorGraph.Proofs.Import.Tracking

/-!
# How the registry grows along a run

Whatever the model: a name that stands for a graph input or output stands for it to the end, and a
name under which recording fails once fails ever after (`Registry.Closed.grows`, `Run.grows`).
-/

namespace TensorGraph

open Onnx ModelMessage Registry

variable {m : ModelMessage} {r r₀ r₁ r' : Registry} {s s' : ImportState} {p : Passage}
  {ps before after : List Passage} {rest : List NodeMessage} {n : Node} {v w : Value}
  {vs ws : List Value} {x new producer : String} {slot : Slot} {i : Nat}

namespace Registry

/-- How the registry `r` may have become `r'` since: graph inputs and outputs keep their slots, no
name is forgotten, and names are led to new slots among what nodes have produced only. -/
structure Grows (r r' : Registry) : Prop where
  sound : r'.Sound
  initializers : r'.initializers = r.initializers
  missed : r.missed ⊆ r'.missed
  outer : ∀ {x slot}, (∀ i, slot ≠ .interior i) →
    (r'.slots.get? x = some slot ↔ r.slots.get? x = some slot)
  inner : ∀ {x i}, r.slots.get? x = some (.interior i) → ∃ j, r'.slots.get? x = some (.interior j)

namespace Grows

lemma of_slots (hr : r'.Sound) (hinit : r'.initializers = r.initializers)
    (hmissed : r.missed ⊆ r'.missed) (hslots : r'.slots = r.slots) : Grows r r' where
  sound := hr
  initializers := hinit
  missed := hmissed
  outer _ := by rw [hslots]
  inner {x i} h := ⟨i, hslots ▸ h⟩

lemma refl (hr : r.Sound) : Grows r r := .of_slots hr rfl (List.Subset.refl _) rfl

lemma trans (h : Grows r r₁) (h' : Grows r₁ r') : Grows r r' where
  sound := h'.sound
  initializers := h'.initializers.trans h.initializers
  missed := List.Subset.trans h.missed h'.missed
  outer houter := (h'.outer houter).trans (h.outer houter)
  inner hs := by
    obtain ⟨j, hj⟩ := h.inner hs
    exact h'.inner hj

lemma of_modify (f : Value → Value) (hr : r.Sound) : Grows r (r.modify f slot) :=
  .of_slots (sound_modify f hr) (initializers_modify f) (by rw [missed_modify]; exact fun _ h => h)
    (slots_modify f)

/-- A slot may be added for a name that stands for no graph input or output. -/
lemma of_addInterior (hr : r.Sound)
    (hx : ∀ slot, r.slots.get? x = some slot → ∃ i, slot = .interior i) :
    Grows r (r.addInterior x v) where
  sound := sound_addInterior hr
  initializers := rfl
  missed := List.Subset.refl _
  outer {y slot} houter := by
    rw [slots_addInterior]
    split
    · next hy =>
      subst hy
      constructor
      · intro h
        exact absurd (Option.some.inj h).symm (houter _)
      · intro h
        obtain ⟨i, hi⟩ := hx slot h
        exact absurd hi (houter i)
    · rfl
  inner {y i} h := by
    rw [slots_addInterior]
    split
    · exact ⟨_, rfl⟩
    · exact ⟨i, h⟩

lemma isSome (h : Grows r r') (hs : r.slots.get? x = some slot) :
    ∃ slot', r'.slots.get? x = some slot' := by
  cases slot with
  | interior i =>
    obtain ⟨j, hj⟩ := h.inner hs
    exact ⟨_, hj⟩
  | _ => exact ⟨_, (h.outer (by simp)).mpr hs⟩

end Grows

lemma Marked.grows (h : Marked r r') (hr : r.Sound) : Grows r r' :=
  .of_slots (h.sound hr) h.initializers h.missed h.slots

/-- Recording a value under the name fails: a node has produced a value of that name, or a node has
read the name in vain. -/
def Closed (r : Registry) (x : String) : Prop :=
  (r.slots.get? x = none ∧ x ∈ r.missed) ∨ ∃ i, r.slots.get? x = some (.interior i)

lemma Closed.not_outer (h : r.Closed x) (hs : r.slots.get? x = some slot) :
    ∃ i, slot = .interior i := by
  obtain ⟨hnone, -⟩ | ⟨i, hi⟩ := h
  · simp [hnone] at hs
  · exact ⟨i, by simpa [hi] using hs.symm⟩

lemma Closed.grows (h : r.Closed x) (hg : Grows r r') : r'.Closed x := by
  cases hs : r'.slots.get? x with
  | none =>
    obtain ⟨-, hmissed⟩ | ⟨i, hi⟩ := h
    · exact .inl ⟨hs, hg.missed hmissed⟩
    · obtain ⟨j, hj⟩ := hg.inner hi
      simp [hs] at hj
  | some slot =>
    by_cases houter : ∀ i, slot ≠ .interior i
    · obtain ⟨i, hi⟩ := h.not_outer ((hg.outer houter).mp hs)
      exact absurd hi (houter i)
    · push Not at houter
      obtain ⟨i, rfl⟩ := houter
      exact .inr ⟨i, hs⟩

/-- A name that stands for something is closed, or is that of a graph input or output. -/
lemma closed_or_outer (hs : r.slots.get? x = some slot) :
    r.Closed x ∨ ∀ i, slot ≠ .interior i := by
  cases slot with
  | interior i => exact .inl (.inr ⟨i, hs⟩)
  | _ => exact .inr (by simp)

lemma recordOne_grows (hr : r.Sound) (h : r.recordOne producer v = .ok r') : Grows r r' := by
  by_cases hv : v.name = ""
  · obtain rfl : r = r' := by simpa [recordOne, hv] using h
    exact .refl hr
  obtain ⟨hs, -, rfl⟩ | ⟨i, -, rfl⟩ | ⟨i, -, rfl⟩ := recordOne_ok hv h
  · exact .of_addInterior hr (by simp [hs])
  · exact .of_modify _ hr
  · exact .of_modify _ hr

/-- Only under a name that is not closed a value is recorded, and the name stands for something
after it. -/
lemma recordOne_open (hv : v.name ≠ "") (h : r.recordOne producer v = .ok r') :
    ¬ r.Closed v.name ∧ ∃ slot, r'.slots.get? v.name = some slot := by
  obtain ⟨hs, hm, rfl⟩ | ⟨i, hs, rfl⟩ | ⟨i, hs, rfl⟩ := recordOne_ok hv h
  · refine ⟨?_, _, by simp [slots_addInterior]; rfl⟩
    rintro (⟨-, hmissed⟩ | ⟨i, hi⟩)
    · exact hm hmissed
    · simp [hs] at hi
  all_goals
    refine ⟨fun hc => ?_, _, by rw [slots_modify, hs]⟩
    obtain ⟨j, hj⟩ := hc.not_outer hs
    simp at hj

lemma record_grows (hr : r.Sound) (h : r.record producer vs = (r', .ok ())) : Grows r r' := by
  refine record_invariant (P := Grows r) (fun _ h₁ hg => ?_) h (.refl hr)
  exact hg.trans (recordOne_grows hg.sound h₁)

/-- Only under names that are not closed values are recorded, and the names stand for something
after it. -/
theorem record_open (hr : r.Sound) (h : r.record producer vs = (r', .ok ())) (hv : v ∈ vs)
    (hne : v.name ≠ "") : ¬ r.Closed v.name ∧ ∃ slot, r'.slots.get? v.name = some slot := by
  induction vs generalizing r with
  | nil => simp at hv
  | cons w vs ih =>
    obtain ⟨r₁, h₁, h₂⟩ := record_cons_ok h
    have hg := recordOne_grows hr h₁
    obtain rfl | hv := List.mem_cons.mp hv
    · obtain ⟨hopen, slot, hslot⟩ := recordOne_open hne h₁
      exact ⟨hopen, (record_grows hg.sound h₂).isSome hslot⟩
    · obtain ⟨hopen, hslot⟩ := ih hg.sound h₂ hv
      exact ⟨fun hc => hopen (hc.grows hg), hslot⟩

/-- One name is recorded twice only if it is that of a graph input or output. -/
theorem record_twice (hr : r.Sound) (h : r.record producer (v :: vs) = (r', .ok ())) (hw : w ∈ vs)
    (hne : v.name ≠ "") (hname : w.name = v.name) :
    ∃ slot, r.slots.get? v.name = some slot ∧ ∀ i, slot ≠ .interior i := by
  obtain ⟨r₁, h₁, h⟩ := record_cons_ok h
  have hg := recordOne_grows hr h₁
  obtain ⟨-, slot, hslot⟩ := recordOne_open hne h₁
  obtain ⟨hopen, -⟩ := record_open hg.sound h hw (hname ▸ hne)
  rcases closed_or_outer hslot with hc | houter
  · exact absurd (hname ▸ hc) hopen
  · exact ⟨slot, (hg.outer houter).mp hslot, houter⟩

lemma record_outside (hr : r.Sound) (h : r.record producer vs = (r', .ok ())) :
    SameOutside (namesOf vs) r r' := by
  refine record_invariant (P := SameOutside (namesOf vs) r) (fun {r₁ r₂ v} hv h₁ hs => ?_) h
    (.refl hr)
  by_cases hne : v.name = ""
  · obtain rfl : r₁ = r₂ := by simpa [recordOne, hne] using h₁
    exact hs
  · exact hs.trans_mem (mem_namesOf_of_mem hv hne) (recordOne_recorded hs.sound hne h₁).1

/-- A name that an operand is looked up by is closed after it, unless it is that of a graph input or
of an array. -/
lemma newName_closes {name : Option String} (hx : x ≠ "") (h : r.newName x = .ok (name, r')) :
    r'.Closed x ∨ (∃ i, r'.slots.get? x = some (.input i)) ∨ r.initializers.contains x = true := by
  simp only [newName, hx, if_false] at h
  split at h
  · next hs =>
    simp only [Except.ok.injEq, Prod.mk.injEq] at h
    obtain ⟨-, rfl⟩ := h
    cases hc : r.initializers.contains x with
    | true => exact .inr (.inr rfl)
    | false => exact .inl (.inl ⟨hs, by simp⟩)
  · next i hs =>
    simp only [Except.ok.injEq, Prod.mk.injEq] at h
    obtain ⟨-, rfl⟩ := h
    exact .inr (.inl ⟨i, by rw [slots_modify, hs]⟩)
  · next i hs =>
    simp only [Except.ok.injEq, Prod.mk.injEq] at h
    obtain ⟨-, rfl⟩ := h
    exact .inl (.inr ⟨i, hs⟩)
  · simp at h

theorem renameInputs_closes (hr : r.Sound) (h : ImportState.renameInputs r vs = .ok (r', ws))
    (hv : v ∈ vs) (hne : v.name ≠ "") :
    r'.Closed v.name ∨ (∃ i, r'.slots.get? v.name = some (.input i)) ∨
      r.initializers.contains v.name = true := by
  induction vs generalizing r ws with
  | nil => simp at hv
  | cons w vs ih =>
    obtain ⟨name, r₁, us, h₁, h₂, -⟩ := renameInputs_cons_ok h
    obtain ⟨-, hmark, -⟩ := newName_ok hr h₁
    obtain rfl | hv := List.mem_cons.mp hv
    · have hg := (renameInputs_ok (hmark.sound hr) h₂).1.grows (hmark.sound hr)
      rcases newName_closes hne h₁ with hc | ⟨i, hi⟩ | hmem
      · exact .inl (hc.grows hg)
      · exact .inr (.inl ⟨i, (hg.outer (by simp)).mpr hi⟩)
      · exact .inr (.inr hmem)
    · rw [← hmark.initializers]
      exact ih (hmark.sound hr) h₂ hv

lemma rename_grows (hr : r.Sound) (h : r.rename x new = .ok r') : Grows r r' := by
  obtain ⟨slot, -, -, rfl⟩ := rename_ok h
  exact .of_modify _ hr

lemma insertOrRename_grows (hr : r.Sound) (h : r.insertOrRename v new = .ok r') : Grows r r' := by
  obtain ⟨hnew, rfl⟩ | ⟨slot, -, -, -, rfl⟩ := insertOrRename_cases h
  · exact .of_addInterior hr fun slot hs => (hnew slot hs).1
  · exact .of_modify _ hr

lemma insertOrRename_not_input (h : r.insertOrRename v new = .ok r') :
    r.slots.get? v.name ≠ some (.input i) := by
  intro hi
  simp [insertOrRename, hi] at h

/-- A name that is not that of a graph output stands for what a node has produced after it. -/
lemma insertOrRename_interior (hout : ∀ i, r.slots.get? v.name ≠ some (.output i))
    (h : r.insertOrRename v new = .ok r') : ∃ i, r'.slots.get? v.name = some (.interior i) := by
  obtain ⟨-, rfl⟩ | ⟨slot, hs, hin, -, rfl⟩ := insertOrRename_cases h
  · exact ⟨_, by simp [slots_addInterior]; rfl⟩
  · cases slot with
    | input i => exact absurd rfl (hin i)
    | output i => exact absurd hs (hout i)
    | interior i => exact ⟨i, by rw [slots_modify, hs]⟩

lemma renameOutputs_grows {number : Nat} (hr : r.Sound)
    (h : ImportState.renameOutputs n r number vs = .ok (r', ws)) : Grows r r' := by
  refine renameOutputs_invariant (P := Grows r) (fun _ _ h₁ hg => ?_) h (.refl hr)
  exact hg.trans (rename_grows hg.sound h₁)

lemma renameOutputs_not_input {number : Nat} (hr : r.Sound)
    (h : ImportState.renameOutputs n r number vs = .ok (r', ws)) (hv : v ∈ vs)
    (hne : v.name ≠ "") : r.slots.get? v.name ≠ some (.input i) := by
  induction vs generalizing r ws number with
  | nil => simp at hv
  | cons w vs ih =>
    obtain ⟨us, ⟨hw, h, -⟩ | ⟨-, r₁, h₁, h, -⟩⟩ := renameOutputs_cons_ok h
    · obtain rfl | hv := List.mem_cons.mp hv
      · exact absurd hw hne
      · exact ih hr h hv
    · obtain rfl | hv := List.mem_cons.mp hv
      · obtain ⟨slot, hslot, hin, -⟩ := rename_ok h₁
        intro hi
        exact hin i (by simpa [hslot] using hi)
      · intro hi
        have hg := rename_grows hr h₁
        exact ih hg.sound h hv ((hg.outer (by simp)).mpr hi)

lemma renameOutputs_outside {number : Nat} (hr : r.Sound)
    (h : ImportState.renameOutputs n r number vs = .ok (r', ws)) :
    SameOutside (namesOf vs) r r' := by
  refine renameOutputs_invariant (P := SameOutside (namesOf vs) r) (fun hv hne h₁ hs => ?_) h
    (.refl hr)
  obtain ⟨slot, hslot, -, rfl⟩ := rename_ok h₁
  exact hs.trans_mem (mem_namesOf_of_mem hv hne) (.of_modify _ hs.sound hslot)

lemma insertOrRename_outside (hr : r.Sound) (h : r.insertOrRename v new = .ok r') :
    SameOutside [v.name] r r' := by
  obtain ⟨-, rfl⟩ | ⟨slot, hs, -, -, rfl⟩ := insertOrRename_cases h
  · exact .of_addInterior hr
  · exact .of_modify _ hr hs

lemma renameLiteral_grows (hr : r.Sound) (h : ImportState.renameLiteral n r = .ok (r', ws)) :
    Grows r r' := by
  obtain ⟨v, vs, -, hrename, -⟩ := renameLiteral_eq_ok.mp h
  exact insertOrRename_grows hr hrename

end Registry

/-! ## Steps and runs -/

namespace Step

section Sound

variable (h : Step s p s') (hs : s.registry.Sound)

include h hs

lemma grows_recorded : Grows s.registry p.recorded :=
  record_grows hs (h.registry_lifting ▸ h.record)

/-- Recording changes what is held under the names that the node writes at most. -/
lemma outside_recorded : SameOutside p.written s.registry p.recorded :=
  record_outside hs (h.registry_lifting ▸ h.record)

/-- Only names that are not closed are written, and they stand for something once they are recorded. -/
lemma open_of_written (hx : x ∈ p.written) :
    ¬ s.registry.Closed x ∧ ∃ slot, p.recorded.slots.get? x = some slot := by
  obtain ⟨hne, v, hv, rfl⟩ := Passage.mem_written.mp hx
  exact record_open hs (h.registry_lifting ▸ h.record) hv hne

lemma marks : Marked p.recorded p.marked :=
  (renameInputs_ok (h.grows_recorded hs).sound h.renameInputs).1

lemma grows_marked : Grows p.recorded p.marked :=
  (h.marks hs).grows (h.grows_recorded hs).sound

lemma grows_registry : Grows p.marked p.registry := by
  have hsound := (h.grows_marked hs).sound
  have hrename := h.renameOutputs
  split at hrename
  · exact renameLiteral_grows hsound hrename
  · exact renameOutputs_grows hsound hrename

theorem grows : Grows s.registry s'.registry := by
  rw [h.state]
  exact ((h.grows_recorded hs).trans (h.grows_marked hs)).trans (h.grows_registry hs)

/-- Naming the outputs leaves what a name stands for, if no registered output has that name, nor does
the output of a Constant or of an identity. -/
lemma outside_registry_of_head (hx : x ∉ p.written)
    (hhead : ImportState.isTransparent p.typed.operator = true →
      ∀ v vs, p.typed.outputs = v :: vs → v.name ≠ x) :
    ∃ names, x ∉ names ∧ SameOutside names p.marked p.registry := by
  have hsound := (h.grows_marked hs).sound
  have hrename := h.renameOutputs
  split at hrename
  · next ht =>
    obtain ⟨w, ws, hout, h₁, -⟩ := renameLiteral_eq_ok.mp hrename
    have hw : x ∉ [w.name] := by simpa using (hhead ht w ws hout).symm
    exact ⟨[w.name], hw, insertOrRename_outside hsound h₁⟩
  · exact ⟨_, hx, renameOutputs_outside hsound hrename⟩

lemma outside_registry (hx : x ∉ p.written) (hne : x ≠ "") :
    ∃ names, x ∉ names ∧ SameOutside names p.marked p.registry := by
  refine h.outside_registry_of_head hs hx fun _ v vs hout hname => hx ?_
  exact mem_namesOf.mpr ⟨hne, v, by simp [hout], hname⟩

/-- A name that a node does not write stands for the same after it, but that graph inputs may count
as used. -/
theorem outside (hx : x ∉ p.written) (hne : x ≠ "") :
    s'.registry.slots.get? x = s.registry.slots.get? x ∧ ∀ slot,
      s.registry.slots.get? x = some slot → s'.registry.value slot = s.registry.value slot ∨
        s'.registry.value slot = { s.registry.value slot with used := true } := by
  have hrecord := h.outside_recorded hs
  have hmarks := h.marks hs
  obtain ⟨names, hx', hnames⟩ := h.outside_registry hs hx hne
  have hslots : p.registry.slots.get? x = s.registry.slots.get? x := by
    rw [hnames.slots hx', hmarks.slots, hrecord.slots hx]
  rw [h.state]
  refine ⟨hslots, fun slot hslot => ?_⟩
  have hrecorded := (hrecord.slots hx).trans hslot
  have hmarked : p.marked.slots.get? x = some slot := by rw [hmarks.slots, hrecorded]
  rw [← hrecord.value hx hslot]
  exact hnames.value hx' hmarked ▸ hmarks.value slot

/-- What a node writes under the name of a graph input is a further output of a Constant or of an
identity. -/
lemma of_input {k : Nat} (hv : p.typed.outputs[k]? = some v) (hne : v.name ≠ "")
    (hi : s.registry.slots.get? v.name = some (.input i)) :
    ImportState.isTransparent p.typed.operator = true ∧ k ≠ 0 := by
  have hsound := (h.grows_marked hs).sound
  have hmarked : p.marked.slots.get? v.name = some (.input i) :=
    (((h.grows_recorded hs).trans (h.grows_marked hs)).outer (by simp)).mpr hi
  have hrename := h.renameOutputs
  split at hrename
  · next ht =>
    obtain ⟨w, ws, hout, h₁, -⟩ := renameLiteral_eq_ok.mp hrename
    refine ⟨ht, ?_⟩
    rintro rfl
    obtain rfl : w = v := by simpa [hout] using hv
    exact insertOrRename_not_input h₁ hmarked
  · exact absurd hmarked (renameOutputs_not_input hsound hrename (List.mem_of_getElem? hv) hne)

end Sound

end Step

/-- Along a run the registry grows from the one that the model declares. -/
theorem Run.grows (hr : ofModel m = .ok r₀) (run : Run m ps rest s) : Grows r₀ s.registry := by
  induction run with
  | start h =>
    obtain rfl := Except.ok.inj (hr.symm.trans h)
    exact .refl (ofModel_declares hr).1.sound
  | step run next step ih => exact ih.trans (step.grows ih.sound)

lemma Run.sound (run : Run m ps rest s) : s.registry.Sound := by
  obtain ⟨r₀, hr⟩ := run.registry_eq_ok
  exact (run.grows hr).sound

lemma Run.arrays (run : Run m ps rest s) : HoldsArrays m.initializers s.registry.initializers := by
  obtain ⟨r₀, hr⟩ := run.registry_eq_ok
  rw [(run.grows hr).initializers]
  exact (ofModel_declares hr).2

lemma Run.mem_inputNames (run : Run m ps rest s)
    (hs : s.registry.slots.get? x = some (.input i)) : x ∈ m.inputNames := by
  obtain ⟨r₀, hr⟩ := run.registry_eq_ok
  obtain ⟨d, _, hd, rfl, -⟩ :=
    (ofModel_declares hr).1.input (((run.grows hr).outer (by simp)).mp hs)
  exact List.mem_map_of_mem (List.mem_of_getElem? hd)

lemma Run.mem_outputNames (run : Run m ps rest s)
    (hs : s.registry.slots.get? x = some (.output i)) : x ∈ m.outputNames := by
  obtain ⟨r₀, hr⟩ := run.registry_eq_ok
  obtain ⟨d, hd, rfl, -⟩ :=
    (ofModel_declares hr).1.output (((run.grows hr).outer (by simp)).mp hs)
  exact List.mem_map_of_mem (List.mem_of_getElem? hd)

lemma Run.isOutput_eq_false (run : Run m ps rest s) (hx : x ∉ m.outputNames) :
    s.registry.isOutput x = false := by
  refine Bool.eq_false_iff.mpr fun h => hx ?_
  obtain ⟨i, hi⟩ := isOutput_eq_true.mp h
  exact run.mem_outputNames hi

/-- Every passage of a run starts from the state of a run over those before it, and from its end the
registry grows to that of the whole run. -/
lemma Run.split_grows (run : Run m ps rest s) (h : ps = before ++ p :: after) :
    ∃ rest₁ s₁ s₂, Run m before (p.message :: rest₁) s₁ ∧ p.next = rest₁.head? ∧ Step s₁ p s₂ ∧
      Grows s₂.registry s.registry := by
  obtain ⟨rest₁, s₁, s₂, run₁, next₁, step₁, hkeep⟩ := run.split h
  refine ⟨rest₁, s₁, s₂, run₁, next₁, step₁, ?_⟩
  refine hkeep (fun t => Grows s₂.registry t.registry) (.refl (step₁.grows run₁.sound).sound) ?_
  exact fun _ _ _ _ _ _ run _ step hg => hg.trans (step.grows run.sound)

lemma Run.split_pair {q : Passage} {a b : Nat} (run : Run m ps rest s) (hp : ps[a]? = some p)
    (hq : ps[b]? = some q) (hab : a < b) :
    ∃ rest₁ s₁ s₂ rest₃ s₃ s₄, Run m (ps.take a) (p.message :: rest₁) s₁ ∧ Step s₁ p s₂ ∧
      Grows s₂.registry s₃.registry ∧ Run m (ps.take b) (q.message :: rest₃) s₃ ∧ Step s₃ q s₄ := by
  obtain ⟨before, after, hps, hlen⟩ := split_of_getElem? hq
  have hbefore : ps.take b = before := by simp [hps, ← hlen]
  obtain ⟨rest₃, s₃, s₄, run₃, -, step₃, -⟩ := run.split_grows hps
  have hp' : before[a]? = some p := by rw [← hbefore, List.getElem?_take_of_lt hab, hp]
  obtain ⟨before', after', hps', hlen'⟩ := split_of_getElem? hp'
  have htake : ps.take a = before' := by
    rw [← Nat.min_eq_left (Nat.le_of_lt hab), ← List.take_take, hbefore, hps', ← hlen']
    simp
  obtain ⟨rest₁, s₁, s₂, run₁, -, step₁, hg⟩ := run₃.split_grows hps'
  exact ⟨rest₁, s₁, s₂, rest₃, s₃, s₄, htake ▸ run₁, step₁, hg, hbefore ▸ run₃, step₃⟩

end TensorGraph
