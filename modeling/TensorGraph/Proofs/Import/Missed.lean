import TensorGraph.Proofs.Import.Messages
import TensorGraph.Proofs.Import.Numbering

/-!
# Names read in vain

The registry remembers the names that were read and stood for nothing. Whatever the model, a message
of an earlier passage has read such a name, or it is that of an operand generated for an earlier node
(`Run.missed_cases`). A node that writes one of them is refused (`Registry.record_late`).
-/

namespace TensorGraph

open Onnx ModelMessage Registry

variable {m : ModelMessage} {r r' : Registry} {s s' : ImportState} {p : Passage}
  {ps : List Passage} {rest : List NodeMessage} {n : Node} {v : Value} {vs ws : List Value}
  {x y producer writer : String}

namespace Registry

lemma newName_missed {name : Option String} (h : r.newName x = .ok (name, r'))
    (hy : y ∈ r'.missed) : y ∈ r.missed ∨ y = x := by
  unfold newName at h
  split at h
  · simp only [Except.ok.injEq, Prod.mk.injEq] at h
    exact .inl (h.2 ▸ hy)
  split at h
  · simp only [Except.ok.injEq, Prod.mk.injEq] at h
    rw [← h.2] at hy
    split at hy
    · exact .inl hy
    · exact (List.mem_cons.mp hy).symm
  · simp only [Except.ok.injEq, Prod.mk.injEq] at h
    rw [← h.2, missed_modify] at hy
    exact .inl hy
  · simp only [Except.ok.injEq, Prod.mk.injEq] at h
    exact .inl (h.2 ▸ hy)
  · simp at h

lemma renameInputs_missed (h : ImportState.renameInputs r vs = .ok (r', ws)) (hy : y ∈ r'.missed) :
    y ∈ r.missed ∨ ∃ v ∈ vs, v.name = y := by
  induction vs generalizing r ws with
  | nil =>
    obtain ⟨rfl, -⟩ := Prod.mk.inj (Except.ok.inj h)
    exact .inl hy
  | cons v vs ih =>
    obtain ⟨name, r₁, us, h₁, h₂, -⟩ := renameInputs_cons_ok h
    rcases ih h₂ with hy | ⟨w, hw, rfl⟩
    · rcases newName_missed h₁ hy with hy | rfl
      · exact .inl hy
      · exact .inr ⟨v, by simp, rfl⟩
    · exact .inr ⟨w, by simp [hw], rfl⟩

lemma missed_renameLiteral (hr : r.Sound) (h : ImportState.renameLiteral n r = .ok (r', ws)) :
    r'.missed = r.missed := by
  obtain ⟨v, vs, -, hrename, -⟩ := renameLiteral_eq_ok.mp h
  exact (insertOrRename_outside hr hrename).missed

lemma recordOne_late (h : r.recordOne producer v = .error (.naming (.producedLate x writer))) :
    v.name = x ∧ writer = producer ∧ x ≠ "" ∧ x ∈ r.missed ∧ r.slots.get? x = none := by
  unfold recordOne at h
  split at h
  · simp at h
  next hne =>
  split at h
  · next hs =>
    split at h
    · next hmissed =>
      simp only [Except.error.injEq, Error.naming.injEq, NamingError.producedLate.injEq] at h
      obtain ⟨rfl, rfl⟩ := h
      exact ⟨rfl, rfl, hne, hmissed, hs⟩
    · simp at h
  · simp at h
  · simp at h
  · simp at h

/-- Only a name that has been read in vain is refused as produced late. -/
theorem record_late (hr : r.Sound)
    (h : (r.record producer vs).2 = .error (.naming (.producedLate x writer))) :
    (∃ v ∈ vs, v.name = x) ∧ writer = producer ∧ x ≠ "" ∧ x ∈ r.missed ∧
      r.slots.get? x = none := by
  induction vs generalizing r with
  | nil => simp [record] at h
  | cons v vs ih =>
    simp only [record] at h
    split at h
    · next r₁ h₁ =>
      have hg := recordOne_grows hr h₁
      obtain ⟨⟨w, hw, hname⟩, hwriter, hne, hmissed, hslot⟩ := ih hg.sound h
      refine ⟨⟨w, by simp [hw], hname⟩, hwriter, hne, ?_, ?_⟩
      · have hkept : r₁.missed = r.missed := by
          by_cases hv : v.name = ""
          · obtain rfl : r = r₁ := by simpa [recordOne, hv] using h₁
            rfl
          · exact (recordOne_recorded hr hv h₁).1.missed
        exact hkept ▸ hmissed
      · cases hs : r.slots.get? x with
        | none => rfl
        | some slot =>
          obtain ⟨slot', hs'⟩ := hg.isSome hs
          simp [hslot] at hs'
    · next e he =>
      obtain rfl : e = _ := by simpa using h
      obtain ⟨hname, hrest⟩ := recordOne_late he
      exact ⟨⟨v, by simp, hname⟩, hrest⟩

end Registry

namespace Step

lemma Body.operandName_eq (h : Body s p) : p.operandName = p.lifted.shapeOperandName := by
  obtain ⟨outputs, -, hinfer⟩ := infer_ok h.infer
  have hname : p.typed.name = p.lifted.name := by rw [hinfer, ← h.reshapes.name]
  simp only [Passage.operandName, Passage.final, Node.shapeOperandName, hname]

/-- A passage remembers the names that its node reads at most. -/
lemma missed (h : Step s p s') (hs : s.registry.Sound) (hx : x ∈ s'.registry.missed) :
    x ∈ s.registry.missed ∨ ∃ v ∈ p.typed.inputs, v.name = x := by
  have hrecord := h.outside_recorded hs
  have hmarked := (h.grows_marked hs).sound
  have hregistry : p.registry.missed = p.marked.missed := by
    have hrename := h.renameOutputs
    split at hrename
    · exact missed_renameLiteral hmarked hrename
    · exact (renameOutputs_outside hmarked hrename).missed
  rw [h.state] at hx
  have hx : x ∈ p.registry.missed := hx
  rw [hregistry] at hx
  exact (renameInputs_missed h.renameInputs hx).imp_left fun hx => hrecord.missed ▸ hx

end Step

/-- What the readers of an identity read instead, a message has read. -/
lemma Run.readBy_source {e : TensorGraph.Elision} (run : Run m ps rest s)
    (he : s.elisions.get? x = some e) : ReadBy ps e.source := by
  induction run generalizing x e with
  | start => simp at he
  | @step ps p rest s s' run next step ih =>
    cases step.elision with
    | past _ _ elisions => exact (ih (elisions ▸ he)).append
    | @out a y u ys _ _ message _ resolve _ _ elisions =>
      rw [elisions, Table.get?_insert] at he
      split at he
      swap
      · exact (ih he).append
      obtain rfl := Option.some.inj he
      rw [run.arrays.name_resolve resolve]
      unfold ImportState.sourceOf
      cases ha : s.elisions.get? a with
      | none => exact .of_mem message
      | some e' => exact (ih ha).append

/-- A name that has been read in vain, a message has read, or it is that of the generated operand of a
Reshape that was an Unsqueeze. -/
theorem Run.missed_cases (run : Run m ps rest s) (hx : x ∈ s.registry.missed) :
    ReadBy ps x ∨ ∃ q ∈ ps, q.Reshaped ∧ x = q.operandName := by
  induction run with
  | start h =>
    rw [(ofModel_declares h).1.missed] at hx
    simp at hx
  | @step ps p rest s s' run next step ih =>
    rcases step.missed run.sound hx with hx | ⟨v, hv, rfl⟩
    · refine (ih hx).imp ReadBy.append ?_
      rintro ⟨q, hq, hreshaped⟩
      exact ⟨q, List.mem_append_left _ hq, hreshaped⟩
    · obtain ⟨lead, hlead⟩ := step.leads
      obtain ⟨y, hy, hname⟩ | ⟨hop, hop', hname⟩ : (∃ y, ReadBy (ps ++ [p]) y ∧ v.name = lead y) ∨
          p.lifted.operator = .unsqueeze ∧ p.typed.operator = .reshape ∧
            v.name = p.lifted.shapeOperandName :=
        step.reads_or_shape run.arrays.name_resolve hlead hv
      · left
        rw [hname]
        rcases hlead.cases with rfl | ⟨rfl, -⟩
        · exact hy.sourceOf run.readBy_source
        · exact hy
      · exact .inr ⟨p, by simp, ⟨hop, hop'⟩, hname.trans step.operandName_eq.symm⟩

/-- A name that has been read in vain, a message has read, or it is generated. -/
theorem Run.missed (run : Run m ps rest s) (hx : x ∈ s.registry.missed) :
    ReadBy ps x ∨ Generated x :=
  (run.missed_cases hx).imp_right fun ⟨q, _, _, e⟩ => e ▸ generated_shapeOperand q.final []

end TensorGraph
