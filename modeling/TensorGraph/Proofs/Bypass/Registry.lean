import TensorGraph.Proofs.Import.Standing

/-!
# Registries that missed the same names

The registry of an import lists a name once for every time that it was read in vain. Two registries
that differ in that alone are twins, and every operation that succeeds on one of them does the same
to the other. Reading again a name that stands for something makes a twin (`Stands.newName`).
-/

namespace TensorGraph

open Onnx

variable {r r₁ r₂ r' r₁' : Registry} {v w : Value} {vs vs' ws : List Value} {n n' : Node}
  {x y new producer : String} {names : List String} {slot : Slot} {t : ValueType}

namespace Registry

/-- The registry with another list of the names that were read in vain. -/
def withMissed (r : Registry) (names : List String) : Registry := { r with missed := names }

/-- The registries differ at most in how the names that were read in vain are listed. -/
structure Twin (r r' : Registry) : Prop where
  eq : r' = r.withMissed r'.missed
  missed : ∀ x, x ∈ r'.missed ↔ x ∈ r.missed

@[simp] lemma missed_withMissed : (r.withMissed names).missed = names := rfl

@[simp] lemma value_withMissed : (r.withMissed names).value slot = r.value slot := by
  cases slot <;> rfl

lemma modify_withMissed (f : Value → Value) :
    (r.withMissed names).modify f slot = (r.modify f slot).withMissed names := by
  cases slot <;> rfl

lemma convert_withMissed (raw : NodeMessage) : (r.withMissed names).convert raw = r.convert raw := rfl

lemma isOutput_withMissed : (r.withMissed names).isOutput x = r.isOutput x := rfl

lemma boundary?_withMissed : (r.withMissed names).boundary? x = r.boundary? x := by
  unfold boundary?
  simp only [value_withMissed]
  rfl

lemma renamedOperand_withMissed : (r.withMissed names).renamedOperand v = r.renamedOperand v := rfl

lemma sound_withMissed (hr : r.Sound) : (r.withMissed names).Sound where
  has {x slot} h := by cases slot <;> exact hr.has h
  injective h h' := hr.injective h h'

lemma twin_withMissed (h : ∀ x, x ∈ names ↔ x ∈ r.missed) : r.Twin (r.withMissed names) := ⟨rfl, h⟩

namespace Twin

lemma refl (r : Registry) : r.Twin r := ⟨rfl, fun _ => .rfl⟩

lemma symm (h : r.Twin r') : r'.Twin r := ⟨by rw [h.eq]; rfl, fun x => (h.missed x).symm⟩

lemma trans (h : r.Twin r₁) (h' : r₁.Twin r₂) : r.Twin r₂ :=
  ⟨by rw [h'.eq, h.eq]; rfl, fun x => (h'.missed x).trans (h.missed x)⟩

lemma slots (h : r.Twin r') : r'.slots = r.slots := by
  rw [h.eq]
  rfl

lemma initializers (h : r.Twin r') : r'.initializers = r.initializers := by
  rw [h.eq]
  rfl

lemma value (h : r.Twin r') (slot : Slot) : r'.value slot = r.value slot := by
  rw [h.eq, value_withMissed]

lemma stands (h : r.Twin r') (hx : r.Stands x t) : r'.Stands x t := by
  rw [h.eq]
  exact hx.mono rfl (h.missed x).mpr (fun _ => rfl) fun _ _ _ => .inl value_withMissed

lemma modify (h : r.Twin r') (f : Value → Value) : (r.modify f slot).Twin (r'.modify f slot) := by
  rw [h.eq, modify_withMissed]
  exact twin_withMissed fun x => by rw [missed_modify, h.missed]

lemma addInterior (h : r.Twin r') : (r.addInterior x v).Twin (r'.addInterior x v) := by
  rw [h.eq]
  exact twin_withMissed h.missed

lemma recordOne (h : r.Twin r') (hrec : r.recordOne producer v = .ok r₁) :
    ∃ r₁', r'.recordOne producer v = .ok r₁' ∧ r₁.Twin r₁' := by
  by_cases hv : v.name = ""
  · obtain rfl : r = r₁ := by simpa [Registry.recordOne, hv] using hrec
    exact ⟨r', by simp [Registry.recordOne, hv], h⟩
  obtain ⟨hs, hm, rfl⟩ | ⟨i, hs, rfl⟩ | ⟨i, hs, rfl⟩ := recordOne_ok hv hrec
  · exact ⟨_, by simp [Registry.recordOne, hv, h.slots, hs, h.missed, hm], h.addInterior⟩
  · exact ⟨_, by simp [Registry.recordOne, hv, h.slots, hs], h.modify _⟩
  · exact ⟨_, by simp [Registry.recordOne, hv, h.slots, hs], h.modify _⟩

lemma record (h : r.Twin r') (hrec : r.record producer vs = (r₁, .ok ())) :
    ∃ r₁', r'.record producer vs = (r₁', .ok ()) ∧ r₁.Twin r₁' := by
  induction vs generalizing r r' with
  | nil =>
    obtain rfl : r = r₁ := by simpa [Registry.record] using hrec
    exact ⟨r', rfl, h⟩
  | cons v vs ih =>
    obtain ⟨r₂, h₂, hrec⟩ := record_cons_ok hrec
    obtain ⟨r₂', h₂', htwin⟩ := h.recordOne h₂
    obtain ⟨r₁', hrec', htwin⟩ := ih htwin hrec
    exact ⟨r₁', by rw [Registry.record, h₂']; exact hrec', htwin⟩

/-! ## Naming operands -/

lemma newName {name : Option String} (h : r.Twin r') (hnew : r.newName x = .ok (name, r₁)) :
    ∃ r₁', r'.newName x = .ok (name, r₁') ∧ r₁.Twin r₁' := by
  unfold Registry.newName at hnew ⊢
  rw [h.slots, h.initializers]
  split at hnew
  · next hx =>
    obtain ⟨rfl, rfl⟩ := Prod.mk.inj (Except.ok.inj hnew)
    exact ⟨r', by rw [if_pos hx], h⟩
  next hx =>
  rw [if_neg hx]
  split at hnew
  · obtain ⟨rfl, rfl⟩ := Prod.mk.inj (Except.ok.inj hnew)
    refine ⟨_, rfl, ?_⟩
    split
    · exact h
    · refine ⟨by rw [h.eq]; rfl, fun z => ?_⟩
      simp only [List.mem_cons, h.missed]
  · next i _ =>
    obtain ⟨rfl, rfl⟩ := Prod.mk.inj (Except.ok.inj hnew)
    have hmodify : (r.modify (fun v => { v with used := true }) (.input i)).Twin _ := h.modify _
    refine ⟨_, ?_, hmodify⟩
    dsimp only
    rw [hmodify.value,
      initializers_modify, initializers_modify, h.initializers]
  · obtain ⟨rfl, rfl⟩ := Prod.mk.inj (Except.ok.inj hnew)
    exact ⟨r', by rw [h.value], h⟩
  · simp at hnew

end Twin

lemma modify_eq_self {f : Value → Value} (h : f (r.value slot) = r.value slot) :
    r.modify f slot = r := by
  have hlist : ∀ (vs : List Value) (i : Nat), f (vs.getD i default) = vs.getD i default →
      vs.modify i f = vs := fun vs i hf => by
    refine List.ext_getElem? fun j => ?_
    rw [List.getElem?_modify]
    split
    · next hij =>
      subst hij
      cases hv : vs[i]? with
      | none => rfl
      | some v => simpa [List.getD_eq_getElem?_getD, hv] using hf
    · simp
  cases slot <;> simp only [modify, hlist _ _ h]

/-- Asking for the new name of a name that stands for something changes nothing but how often it is
listed as read in vain. -/
lemma Stands.newName (h : r.Stands x t) : ∃ name r₁, r.newName x = .ok (name, r₁) ∧ r.Twin r₁ := by
  cases h with
  | omitted empty => exact ⟨none, r, by simp [Registry.newName, empty], .refl r⟩
  | missed named slot mem unknown =>
    have hmem : r.initializers.contains x = false := by
      rw [Table.contains_eq_isSome_get?, unknown]
      rfl
    refine ⟨none, r.withMissed (x :: r.missed), ?_, twin_withMissed fun z => ?_⟩
    · simp only [Registry.newName, named, if_false, slot, hmem, Bool.false_eq_true]
      rfl
    · simp only [List.mem_cons, or_iff_right_iff_imp]
      exact fun hz => hz ▸ mem
  | @held slot named slot_eq read _ _ used =>
    cases slot with
    | output i => exact absurd rfl (read i)
    | interior i =>
      exact ⟨some (r.value (.interior i)).name, r, by simp [Registry.newName, named, slot_eq], .refl r⟩
    | input i =>
      have hself : r.modify (fun v => { v with used := true }) (.input i) = r :=
        modify_eq_self (by simp [← used i rfl])
      refine ⟨_, r, by simp only [Registry.newName, named, if_false, slot_eq, hself]; rfl, .refl r⟩

end Registry

namespace Registry

/-- The operands of a node are renamed in both registries, also if those of the one are read under
`a` where those of the other are read under `y`, and both names stand for something. -/
theorem Twin.renameInputs {a : String} (h : r.Twin r') (hr : r.Sound) (hy : r.Stands y t)
    (ha : r.Stands a t)
    (hvs : List.Forall₂ (fun v w => w.name = v.name ∨ v.name = y ∧ w.name = a) vs vs')
    (hren : ImportState.renameInputs r vs = .ok (r₁, ws)) :
    ∃ r₁' ws', ImportState.renameInputs r' vs' = .ok (r₁', ws') ∧ r₁.Twin r₁' := by
  induction hvs generalizing r r' ws with
  | nil =>
    obtain ⟨rfl, rfl⟩ := Prod.mk.inj (Except.ok.inj hren)
    exact ⟨r', [], rfl, h⟩
  | @cons v w vs vs' hvw _ ih =>
    obtain ⟨name, r₂, us, h₂, hren, -⟩ := renameInputs_cons_ok hren
    obtain ⟨-, hmark, -⟩ := newName_ok hr h₂
    have hnew : ∃ name' r₂', r'.newName w.name = .ok (name', r₂') ∧ r₂.Twin r₂' := by
      rcases hvw with hname | ⟨hname, hname'⟩
      · obtain ⟨r₂', h₂', htwin⟩ := h.newName h₂
        exact ⟨name, r₂', by rw [hname, h₂'], htwin⟩
      · -- both names have been read before, so that neither registry learns anything
        obtain ⟨_, r₂₁, h₂₁, htwin⟩ := hy.newName
        obtain ⟨-, rfl⟩ := Prod.mk.inj (Except.ok.inj (h₂.symm.trans (hname ▸ h₂₁)))
        obtain ⟨name', r₂', h₂', htwin'⟩ := (h.stands ha).newName
        exact ⟨name', r₂', by rw [hname', h₂'], htwin.symm.trans (h.trans htwin')⟩
    obtain ⟨name', r₂', h₂', htwin⟩ := hnew
    obtain ⟨r₁', ws', hren', htwin⟩ :=
      ih htwin (hmark.sound hr) (hmark.stands hy) (hmark.stands ha) hren
    exact ⟨r₁', _, Except.bind_eq_ok.mpr ⟨_, h₂', Except.bind_eq_ok.mpr ⟨_, hren', rfl⟩⟩, htwin⟩

lemma Twin.rename (h : r.Twin r') (hren : r.rename x new = .ok r₁) :
    ∃ r₁', r'.rename x new = .ok r₁' ∧ r₁.Twin r₁' := by
  unfold Registry.rename at hren ⊢
  rw [h.slots]
  split at hren
  · simp at hren
  · simp at hren
  · obtain rfl := Except.ok.inj hren
    exact ⟨_, rfl, h.modify _⟩

lemma Twin.insertOrRename (h : r.Twin r') (hren : r.insertOrRename v new = .ok r₁) :
    ∃ r₁', r'.insertOrRename v new = .ok r₁' ∧ r₁.Twin r₁' := by
  unfold Registry.insertOrRename at hren ⊢
  dsimp only at hren ⊢
  rw [h.slots]
  split at hren
  · obtain rfl := Except.ok.inj hren
    exact ⟨_, rfl, h.addInterior⟩
  · obtain rfl := Except.ok.inj hren
    refine ⟨_, rfl, ?_⟩
    rw [h.value]
    split
    · exact h.modify _
    · exact h.addInterior
  · obtain rfl := Except.ok.inj hren
    exact ⟨_, rfl, h.modify _⟩
  · simp at hren

lemma Twin.renameOutputs {number : Nat} (h : r.Twin r') (hname : n'.name = n.name)
    (hren : ImportState.renameOutputs n r number vs = .ok (r₁, ws)) :
    ∃ r₁', ImportState.renameOutputs n' r' number vs = .ok (r₁', ws) ∧ r₁.Twin r₁' := by
  induction vs generalizing r r' ws number with
  | nil =>
    obtain ⟨rfl, rfl⟩ := Prod.mk.inj (Except.ok.inj hren)
    exact ⟨r', rfl, h⟩
  | cons v vs ih =>
    have hout : ImportState.outputName n' number = ImportState.outputName n number := by
      rw [ImportState.outputName, ImportState.outputName, hname]
    simp only [ImportState.renameOutputs, hout] at hren ⊢
    split at hren
    · next hv =>
      simp only [Except.bind_eq_ok, Except.pure_eq_ok, Prod.exists, Prod.mk.injEq] at hren
      obtain ⟨r₂, us, hren, rfl, rfl⟩ := hren
      obtain ⟨r₁', hren', htwin⟩ := ih h hren
      exact ⟨r₁', by rw [if_pos hv, hren']; rfl, htwin⟩
    · next hv =>
      simp only [Except.bind_eq_ok, Except.pure_eq_ok, Prod.exists, Prod.mk.injEq] at hren
      obtain ⟨r₂, h₂, r₃, us, hren, rfl, rfl⟩ := hren
      obtain ⟨r₂', h₂', htwin⟩ := h.rename h₂
      obtain ⟨r₁', hren', htwin⟩ := ih htwin hren
      refine ⟨r₁', ?_, htwin⟩
      rw [if_neg hv]
      exact Except.bind_eq_ok.mpr ⟨_, h₂', Except.bind_eq_ok.mpr ⟨_, hren', rfl⟩⟩

lemma Twin.renameLiteral (h : r.Twin r') (hname : n'.name = n.name) (houtputs : n'.outputs = n.outputs)
    (hren : ImportState.renameLiteral n r = .ok (r₁, ws)) :
    ∃ r₁', ImportState.renameLiteral n' r' = .ok (r₁', ws) ∧ r₁.Twin r₁' := by
  have hout : ImportState.outputName n' 1 = ImportState.outputName n 1 := by
    rw [ImportState.outputName, ImportState.outputName, hname]
  obtain ⟨v, vs, hvs, hinsert, rfl⟩ := renameLiteral_eq_ok.mp hren
  obtain ⟨r₁', hinsert', htwin⟩ := h.insertOrRename hinsert
  exact ⟨r₁', renameLiteral_eq_ok.mpr ⟨v, vs, houtputs.trans hvs, hout ▸ hinsert', by rw [hout]⟩,
    htwin⟩

end Registry

end TensorGraph
