import TensorGraph.Proofs.Import.Missed
import TensorGraph.Proofs.NamingErrors
import TensorGraph.Proofs.Order

/-!
# Imports that are refused because a name is produced late

Only one stage of one step can fail because a node produces a name that has been read in vain, and this
error stands only where the order of the nodes is right (`importGraph_eq_late`).
-/

namespace TensorGraph

open Onnx ModelMessage Registry

/-- The error says that a name is produced after it has been read. -/
def NamingError.IsLate (e : NamingError) : Prop := ∃ x writer, e = .producedLate x writer

variable {m : ModelMessage} {r : Registry} {s : ImportState} {n : Node} {vs : List Value}
  {raw : NodeMessage} {next : Option NodeMessage} {x writer : String}
  {P : NamingError → Prop}

open NamingError (IsLate)

lemma avoids_checkOrder (nodes : List Node) : Avoids P (checkOrder nodes) := by
  intro e _ he
  obtain ⟨x, i, j, -, h⟩ := checkOrder_eq_error he
  simp at h

@[simp] lemma Onnx.ModelMessage.avoids_checkOrder : Avoids P m.checkOrder := by
  simp [ModelMessage.checkOrder, NodeMessage.toBareNode, TensorGraph.avoids_checkOrder]

@[simp] lemma avoids_diagnose {α : Type} {x : Except Error α} (h : Avoids P x) :
    Avoids P (m.diagnose x) := by
  unfold ModelMessage.diagnose
  split
  · next e =>
    simp only [avoids_bind, Onnx.ModelMessage.avoids_checkOrder, true_and]
    exact fun _ _ => h
  · exact h

/-- A naming error is reported as such where the order is right. -/
lemma diagnose_eq_naming {α : Type} {x : Except Error α} {e : NamingError}
    (h : m.diagnose x = .error (.naming e)) :
    x = .error (.naming e) ∧ m.checkOrder = .ok () := by
  unfold ModelMessage.diagnose at h
  split at h
  · next e' =>
    rw [Except.bind_eq_error] at h
    rcases h with h | ⟨⟨⟩, hcheck, h⟩
    · exact absurd h (Onnx.ModelMessage.avoids_checkOrder (P := fun _ => True) e trivial)
    · exact ⟨h, hcheck⟩
  · exact absurd h (by simp_all)

namespace Registry

lemma avoids_ofModel : Avoids P (ofModel m) := by
  simp only [ofModel, initializersOf, avoids_bind]
  refine ⟨avoids_foldlM fun t a => by simp, fun _ _ => ⟨avoids_foldlM fun r d => ?_, fun _ _ =>
    avoids_foldlM fun r d => ?_⟩⟩
  · simp [addInput]
  · simp [addOutput]

@[simp] lemma avoids_resolve : Avoids IsLate (r.resolve x) := by
  unfold resolve
  repeat' split
  all_goals simp [IsLate]

@[simp] lemma avoids_convert : Avoids IsLate (r.convert raw) := by simp [convert]

@[simp] lemma avoids_boundary? : Avoids IsLate (r.boundary? x) := by
  unfold boundary?
  split <;> simp [IsLate]

lemma avoids_newName : Avoids IsLate (r.newName x) := by
  unfold newName
  repeat' split
  all_goals simp [IsLate]

lemma avoids_rename {new : String} : Avoids IsLate (r.rename x new) := by
  unfold rename
  split <;> simp [IsLate]

lemma avoids_insertOrRename {v : Value} {new : String} : Avoids IsLate (r.insertOrRename v new) := by
  simp only [insertOrRename]
  split <;> simp [IsLate]

end Registry

namespace Node

@[simp] lemma avoids_specialise : Avoids P n.specialise := by
  have hweight : Avoids P n.weightAxes? := by
    unfold weightAxes?
    split <;> simp
  have hwindow : Avoids P n.windowAxes? := by
    unfold windowAxes?
    split <;> simp [hweight]
  simp only [specialise]
  split
  · simp
  · simp only [avoids_bind, hwindow, true_and]
    intros
    split <;> simp

lemma avoids_fuse : Avoids IsLate (n.fuse r next) := by
  have hnumber : ∀ key expected, Avoids IsLate (n.isNumber key expected) := by
    intro key expected
    unfold isNumber
    split <;> simp
  have hstores : Avoids IsLate n.storesTransposed := by
    unfold storesTransposed
    split <;> simp
  have hbias : ∀ add n : Node, Avoids IsLate (add.isBiasOf n) := by
    intro add n
    unfold isBiasOf
    split <;> simp
  have habsorb : ∀ n add : Node, Avoids IsLate (n.absorbBias add) := by
    intro n add
    unfold absorbBias
    split <;> simp
  unfold fuse
  split
  · simp [fuseGemm, isPlainProduct, hnumber, hstores]
  · simp only [fuseMatMul]
    repeat' split
    all_goals simp [hbias, habsorb]
  · simp

lemma avoids_unsqueezeAsReshape : Avoids IsLate (n.unsqueezeAsReshape r) := by
  have hreshape : ∀ boundary, Avoids IsLate (n.reshapeTo? boundary) := by
    intro boundary
    simp only [reshapeTo?, avoids_bind, avoids_output, true_and]
    intros
    split <;> simp
  simp only [unsqueezeAsReshape]
  split
  · simp
  · simp only [avoids_bind, avoids_output, avoids_boundary?, true_and]
    intros
    split <;> simp [hreshape]

end Node

namespace ImportState

lemma avoids_elide : Avoids P (s.elide n) := by simp [elide, isElided]

lemma avoids_lift : Avoids P (s.lift n) := by
  have hwrites : Avoids P (writesLiteral n) := by
    unfold writesLiteral
    split <;> simp
  have hliteral : ∀ n, Avoids P (literalOf n) := fun n => by
    unfold literalOf
    repeat' split
    all_goals simp
  have hoperand : ∀ (s : ImportState) v, Avoids P (s.liftOperand v) := fun s v => by
    unfold liftOperand
    repeat' split
    all_goals simp [hliteral]
  have hoperands : ∀ vs (s : ImportState), Avoids P (s.liftOperands vs) := fun vs => by
    induction vs with
    | nil => simp [liftOperands]
    | cons v vs ih => simp [liftOperands, hoperand, ih]
  simp [lift, hwrites, hoperands]

lemma avoids_renameInputs : Avoids IsLate (renameInputs r vs) := by
  induction vs generalizing r with
  | nil => simp [renameInputs]
  | cons v vs ih => simp [renameInputs, avoids_newName, ih]

lemma avoids_renameOutputs {number : Nat} : Avoids IsLate (renameOutputs n r number vs) := by
  induction vs generalizing r number with
  | nil => simp [renameOutputs]
  | cons v vs ih => simp [renameOutputs, avoids_rename, ih]

lemma avoids_renameValues : Avoids IsLate (renameValues m r n) := by
  have hliteral : ∀ r, Avoids IsLate (renameLiteral n r) := fun r => by
    unfold renameLiteral
    split <;> simp [avoids_insertOrRename]
  simp [renameValues, avoids_renameInputs, avoids_renameOutputs, hliteral]

end ImportState

/-- The node of the passage `p`, which starts from the state `s`, is refused because it writes the
name `x`, which has been read in vain. -/
structure Step.Late (s : ImportState) (p : Passage) (x : String) : Prop extends Step.Typed s p where
  record : (p.lifting.registry.record p.typed.name p.typed.outputs).2 =
    .error (.naming (.producedLate x p.typed.name))

namespace Step.Late

variable {p : Passage}

/-- The name has been read in vain, and stands for nothing. -/
lemma missed (h : Late s p x) (hs : s.registry.Sound) :
    x ≠ "" ∧ x ∈ s.registry.missed ∧ s.registry.slots.get? x = none ∧
      ∃ v ∈ p.typed.outputs, v.name = x := by
  have hrecord := h.record
  rw [h.registry_lifting] at hrecord
  obtain ⟨hv, -, hne, hmissed, hslot⟩ := record_late hs hrecord
  exact ⟨hne, hmissed, hslot, hv⟩

/-- The refusal is reported where the order of the nodes is right. -/
lemma step_eq (h : Late s p x) : s.step m p.message p.next =
    m.checkOrder >>= fun _ => .error (.naming (.producedLate x p.typed.name)) := by
  have hrecord : ImportState.inferAndRecord p.lifting.registry p.reshaped =
      .error (.naming (.producedLate x p.typed.name)) := by
    simp only [ImportState.inferAndRecord, h.infer, bind, Except.bind]
    split
    · next hr => simpa [hr] using h.record
    · next r e hr =>
      have : e = .naming (.producedLate x p.typed.name) := by simpa [hr] using h.record
      rw [this]
      rfl
  have hrefused : m.diagnose (ImportState.inferAndRecord p.lifting.registry p.reshaped) =
      m.checkOrder >>= fun _ => .error (.naming (.producedLate x p.typed.name)) := by
    rw [hrecord]
    rfl
  have hreshape := (diagnose_eq_ok (m := m)).mpr h.reshape
  simp only [ImportState.step, h.convert, h.specialise, h.fuse, h.elide, h.lift, hreshape, hrefused,
    bind, Except.bind]
  cases m.checkOrder <;> rfl

/-- Where the order of the nodes is wrong, that is what an import reports that comes to a node which is
refused because it produces a name late. -/
theorem importGraph_eq {ps : List Passage} {rest : List NodeMessage} {e : Error} (h : Late s p x)
    (run : Run m ps (p.message :: rest) s) (next : p.next = rest.head?)
    (hcheck : m.checkOrder = .error e) (checkFirst : Bool) : m.importGraph checkFirst = .error e := by
  have hstate : m.importState false = .error e := by
    have hstep := h.step_eq (m := m)
    rw [hcheck] at hstep
    rw [run.importState_eq]
    simp only [ImportState.steps, Bool.false_eq_true, if_false, ← next, hstep]
    rfl
  cases checkFirst with
  | false =>
    rw [importGraph, hstate]
    rfl
  | true =>
    have hdef : m.importState true = m.checkOrder >>= fun _ => m.importState false := rfl
    rw [importGraph, hdef, hcheck]
    rfl

end Step.Late

/-- A step is refused because a name is produced late only where the outputs are recorded. -/
theorem step_eq_late (hs : s.registry.Sound)
    (h : s.step m raw next = .error (.naming (.producedLate x writer))) :
    m.checkOrder = .ok () ∧ ∃ p : Passage, p.message = raw ∧ p.next = next ∧ Step.Late s p x := by
  have late : IsLate (.producedLate x writer) := ⟨x, writer, rfl⟩
  simp only [ImportState.step] at h
  obtain h | ⟨converted, h₁, h⟩ := Except.bind_eq_error.mp h
  · exact absurd h (avoids_convert _ late)
  obtain h | ⟨specialised, h₂, h⟩ := Except.bind_eq_error.mp h
  · exact absurd h (Node.avoids_specialise _ late)
  obtain h | ⟨⟨fused, consumed⟩, h₃, h⟩ := Except.bind_eq_error.mp h
  · exact absurd h (Node.avoids_fuse _ late)
  obtain h | ⟨⟨elision, led⟩, h₄, h⟩ := Except.bind_eq_error.mp h
  · exact absurd h (ImportState.avoids_elide _ late)
  obtain h | ⟨⟨lifting, lifted⟩, h₅, h⟩ := Except.bind_eq_error.mp h
  · exact absurd h (ImportState.avoids_lift _ late)
  obtain h | ⟨reshaped, h₆, h⟩ := Except.bind_eq_error.mp h
  · exact absurd h (avoids_diagnose Node.avoids_unsqueezeAsReshape _ late)
  obtain h | ⟨⟨recorded, typed⟩, -, h⟩ := Except.bind_eq_error.mp h
  swap
  · -- past the recording no stage fails in this way
    obtain h | ⟨_, -, h⟩ := Except.bind_eq_error.mp h
    · exact absurd h (ImportState.avoids_renameValues _ late)
    · simp [pure, Except.pure] at h
  obtain ⟨h, hcheck⟩ := diagnose_eq_naming h
  obtain h | ⟨typed, h₇, h⟩ := Except.bind_eq_error.mp h
  · exact absurd h (Node.avoids_infer _ _ late)
  have hrecord : (lifting.registry.record typed.name typed.outputs).2 =
      .error (.naming (.producedLate x writer)) := by
    split at h
    · simp [pure, Except.pure] at h
    · next r e he =>
      obtain rfl : e = _ := Except.error.inj h
      rw [he]
  let p : Passage := ⟨raw, next, converted, specialised, fused, consumed, elision, led, lifting,
    lifted, reshaped, typed, s.registry, s.registry, [], s.registry, []⟩
  have front : Step.Front s p := ⟨h₁, h₂, h₃, h₄, h₅⟩
  obtain ⟨-, rfl, -⟩ := record_late (front.registry_lifting ▸ hs) hrecord
  exact ⟨hcheck, p, rfl, rfl, ⟨⟨front, diagnose_eq_ok.mp h₆, h₇⟩, hrecord⟩⟩

/-- An import is refused because a name is produced late only if the order of its nodes is right and a
run leads to a passage that is refused for it. -/
theorem importGraph_eq_late {checkFirst : Bool}
    (h : m.importGraph checkFirst = .error (.naming (.producedLate x writer))) :
    m.checkOrder = .ok () ∧ ∃ ps p rest s, Run m ps (p.message :: rest) s ∧ p.next = rest.head? ∧
      Step.Late s p x := by
  have late : IsLate (.producedLate x writer) := ⟨x, writer, rfl⟩
  have hstate : m.importState checkFirst = .error (.naming (.producedLate x writer)) := by
    simp only [importGraph] at h
    obtain h | ⟨s, -, h⟩ := Except.bind_eq_error.mp h
    · exact h
    · simp [pure, Except.pure] at h
  have hstate : m.importState false = .error (.naming (.producedLate x writer)) := by
    cases checkFirst with
    | false => exact hstate
    | true =>
      have hdef : m.importState true = m.checkOrder >>= fun _ => m.importState false := rfl
      rw [hdef] at hstate
      obtain h | ⟨-, -, h⟩ := Except.bind_eq_error.mp hstate
      · exact absurd h (Onnx.ModelMessage.avoids_checkOrder _ late)
      · exact h
  rcases importState_eq_error hstate with h | ⟨ps, raw, rest, s, run, h⟩
  · exact absurd h (avoids_ofModel _ late)
  · obtain ⟨hcheck, p, rfl, hnext, hlate⟩ := step_eq_late run.sound h
    exact ⟨hcheck, ps, p, rest, s, run, hnext, hlate⟩

end TensorGraph
