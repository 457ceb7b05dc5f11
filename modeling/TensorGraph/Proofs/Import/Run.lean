import TensorGraph.Import
import TensorGraph.Proofs.Checked

/-!
# Runs of an import

A run is a list of passages, each the way of a message through the stages of the import. An import
succeeds exactly with the last state of a run over all its messages (`importState_eq_ok`).
-/

namespace TensorGraph

open Onnx

/-- The forms that a node takes on its way through the stages, and what the stages leave behind. -/
structure Passage where
  message : NodeMessage
  /-- The message after it. -/
  next : Option NodeMessage
  converted : Node
  specialised : Node
  fused : Node
  /-- Whether the message after it has been taken over. -/
  consumed : Bool
  elision : ImportState
  led : Node
  lifting : ImportState
  lifted : Node
  reshaped : Node
  /-- The node with its types and still with the names of the file. -/
  typed : Node
  recorded : Registry
  marked : Registry
  inputs : List Value
  registry : Registry
  outputs : List Value

namespace Passage

/-- The node as it stands in the graph. -/
def final (p : Passage) : Node := { p.typed with inputs := p.inputs, outputs := p.outputs }

/-- The messages that the node stands for. -/
def messages (p : Passage) : List NodeMessage :=
  p.message :: if p.consumed then p.next.toList else []

end Passage

/-- The passage `p` starts from the state `s`, up to the lifting of literals. -/
structure Step.Front (s : ImportState) (p : Passage) : Prop where
  convert : s.registry.convert p.message = .ok p.converted
  specialise : p.converted.specialise = .ok p.specialised
  fuse : p.specialised.fuse s.registry p.next = .ok (p.fused, p.consumed)
  elide : (s.nameNode p.fused).1.elide (s.nameNode p.fused).2 = .ok (p.elision, p.led)
  lift : p.elision.lift p.led = .ok (p.lifting, p.lifted)

/-- The passage `p` starts from the state `s`, up to the recording of what its node writes. -/
structure Step.Body (s : ImportState) (p : Passage) : Prop extends Step.Front s p where
  reshape : p.lifted.unsqueezeAsReshape p.lifting.registry = .ok p.reshaped
  infer : p.reshaped.infer = .ok p.typed
  record : p.lifting.registry.record p.typed.name p.typed.outputs = (p.recorded, .ok ())

/-- The passage `p` starts from the state `s`, up to the typing of its node. -/
structure Step.Typed (s : ImportState) (p : Passage) : Prop extends Step.Front s p where
  reshape : p.lifted.unsqueezeAsReshape p.lifting.registry = .ok p.reshaped
  infer : p.reshaped.infer = .ok p.typed

/-- The passage `p` leads from the state `s` to the state `s'`. -/
structure Step (s : ImportState) (p : Passage) (s' : ImportState) : Prop extends Step.Body s p where
  renameInputs : ImportState.renameInputs p.recorded p.typed.inputs = .ok (p.marked, p.inputs)
  renameOutputs :
    (if ImportState.isTransparent p.typed.operator then ImportState.renameLiteral p.typed p.marked
      else ImportState.renameOutputs p.typed p.marked 1 p.typed.outputs) =
      .ok (p.registry, p.outputs)
  state : s' = p.lifting.push p.registry p.final

/-- A run over messages of a model: the passages so far, the messages that are left, and the
state. -/
inductive Run (m : ModelMessage) : List Passage → List NodeMessage → ImportState → Prop where
  | start {r : Registry} (h : Registry.ofModel m = .ok r) : Run m [] m.nodes { registry := r }
  | step {ps : List Passage} {p : Passage} {rest : List NodeMessage} {s s' : ImportState}
      (run : Run m ps (p.message :: rest) s) (next : p.next = rest.head?) (step : Step s p s') :
      Run m (ps ++ [p]) (if p.consumed then rest.tail else rest) s'

variable {m : ModelMessage} {s s' : ImportState} {p : Passage} {ps : List Passage}
  {rest : List NodeMessage}

lemma Step.Body.typed (h : Step.Body s p) : Step.Typed s p := ⟨h.toFront, h.reshape, h.infer⟩

lemma diagnose_eq_ok {α : Type} {x : Except Error α} {a : α} :
    m.diagnose x = .ok a ↔ x = .ok a := by
  cases x with
  | ok b => simp [ModelMessage.diagnose]
  | error e =>
    cases e <;> simp only [ModelMessage.diagnose, reduceCtorEq]
    cases m.checkOrder <;> simp [bind, Except.bind]

lemma inferAndRecord_eq_ok {r r' : Registry} {n n' : Node} :
    ImportState.inferAndRecord r n = .ok (r', n') ↔
      n.infer = .ok n' ∧ r.record n'.name n'.outputs = (r', .ok ()) := by
  simp only [ImportState.inferAndRecord, Except.bind_eq_ok]
  constructor
  · rintro ⟨n₁, hn, h⟩
    split at h
    · next r₁ hr =>
      simp only [Except.pure_eq_ok, Prod.mk.injEq] at h
      obtain ⟨rfl, rfl⟩ := h
      exact ⟨hn, hr⟩
    · simp [throw, throwThe, MonadExceptOf.throw] at h
  · rintro ⟨hn, hr⟩
    exact ⟨n', hn, by rw [hr]; rfl⟩

lemma renameValues_eq_ok {r r' : Registry} {n n' : Node} :
    ImportState.renameValues m r n = .ok (r', n') ↔
      ∃ r₁ inputs outputs, ImportState.renameInputs r n.inputs = .ok (r₁, inputs) ∧
        (if ImportState.isTransparent n.operator then ImportState.renameLiteral n r₁
          else ImportState.renameOutputs n r₁ 1 n.outputs) = .ok (r', outputs) ∧
        { n with inputs, outputs } = n' := by
  cases ht : ImportState.isTransparent n.operator <;>
    simp only [ImportState.renameValues, ht, if_true, if_false, Bool.false_eq_true,
      Except.bind_eq_ok, Except.pure_eq_ok, diagnose_eq_ok, Prod.exists, Prod.mk.injEq] <;>
    exact ⟨fun ⟨r₁, inputs, h, _, outputs, h', hr, hn⟩ => ⟨r₁, inputs, outputs, h, hr ▸ h', hn⟩,
      fun ⟨r₁, inputs, outputs, h, h', hn⟩ => ⟨r₁, inputs, h, _, outputs, h', rfl, hn⟩⟩

/-- A message is imported exactly if it has a passage. -/
theorem step_eq_ok {raw : NodeMessage} {next : Option NodeMessage} {consumed : Bool} :
    s.step m raw next = .ok (s', consumed) ↔
      ∃ p : Passage, p.message = raw ∧ p.next = next ∧ p.consumed = consumed ∧ Step s p s' := by
  constructor
  · intro h
    simp only [ImportState.step, Except.bind_eq_ok, Except.pure_eq_ok, Prod.exists,
      diagnose_eq_ok, inferAndRecord_eq_ok, renameValues_eq_ok, Prod.mk.injEq] at h
    obtain ⟨converted, h₁, specialised, h₂, fused, c, h₃, elision, led, h₄, lifting, lifted, h₅,
      reshaped, h₆, recorded, typed, ⟨h₇, h₈⟩, registry, _, ⟨marked, inputs, outputs, h₉, h₁₀,
      rfl⟩, rfl, rfl⟩ := h
    exact ⟨⟨raw, next, converted, specialised, fused, c, elision, led, lifting, lifted, reshaped,
      typed, recorded, marked, inputs, registry, outputs⟩, rfl, rfl, rfl,
      ⟨⟨⟨h₁, h₂, h₃, h₄, h₅⟩, h₆, h₇, h₈⟩, h₉, h₁₀, rfl⟩⟩
  · rintro ⟨p, rfl, rfl, rfl, h⟩
    simp only [ImportState.step, Except.bind_eq_ok, Except.pure_eq_ok, Prod.exists,
      diagnose_eq_ok, inferAndRecord_eq_ok, renameValues_eq_ok, Prod.mk.injEq]
    exact ⟨_, h.convert, _, h.specialise, _, _, h.fuse, _, _, h.elide, _, _, h.lift, _, h.reshape,
      _, _, ⟨h.infer, h.record⟩, _, _, ⟨_, _, _, h.renameInputs, h.renameOutputs, rfl⟩,
      h.state.symm, rfl⟩

lemma steps_consumed (rest : List NodeMessage) : s.steps m true rest = s.steps m false rest.tail := by
  cases rest <;> rfl

/-- A message that has been taken over is not among those that are left. -/
lemma steps_eq_left {consumed : Bool} :
    s.steps m consumed rest = s.steps m false (if consumed then rest.tail else rest) := by
  cases consumed with
  | true => exact steps_consumed rest
  | false => rfl

/-- The first of the steps that are left has a passage, and the others go on from what it leaves. -/
lemma steps_cons_eq_ok {raw : NodeMessage} : s.steps m false (raw :: rest) = .ok s' ↔
    ∃ p s₁, p.message = raw ∧ p.next = rest.head? ∧ Step s p s₁ ∧
      s₁.steps m false (if p.consumed then rest.tail else rest) = .ok s' := by
  simp only [ImportState.steps, Bool.false_eq_true, if_false, Except.bind_eq_ok, Prod.exists]
  constructor
  · rintro ⟨s₁, _, h₁, h⟩
    obtain ⟨p, rfl, hnext, rfl, step⟩ := step_eq_ok.mp h₁
    exact ⟨p, s₁, rfl, hnext, step, steps_eq_left ▸ h⟩
  · rintro ⟨p, s₁, rfl, hnext, step, h⟩
    exact ⟨s₁, p.consumed, step_eq_ok.mpr ⟨p, rfl, hnext, rfl, step⟩, steps_eq_left.trans h⟩

lemma length_left_lt (raw : NodeMessage) :
    (if p.consumed then rest.tail else rest).length < (raw :: rest).length := by
  split <;> simp only [List.length_cons, List.length_tail] <;> omega

/-- The steps that are left of an import end a run that has been begun. -/
lemma Run.of_steps (run : Run m ps rest s) (h : s.steps m false rest = .ok s') :
    ∃ ps', Run m (ps ++ ps') [] s' := by
  -- a passage may take in two messages, so that the induction is on how many are left
  induction hn : rest.length using Nat.strongRecOn generalizing rest s ps with
  | _ k ih =>
    cases rest with
    | nil =>
      obtain rfl : s = s' := by simpa [ImportState.steps] using h
      exact ⟨[], by simpa using run⟩
    | cons raw rest =>
      obtain ⟨p, s₁, rfl, hnext, hstep, h⟩ := steps_cons_eq_ok.mp h
      have run₁ := Run.step run hnext hstep
      obtain ⟨ps', run'⟩ := ih _ (hn ▸ length_left_lt p.message) run₁ h rfl
      exact ⟨p :: ps', by simpa using run'⟩

/-- Where the steps that are left of an import fail, one of them does. -/
lemma Run.of_steps_error {e : Error} (run : Run m ps rest s)
    (h : s.steps m false rest = .error e) : ∃ ps' raw rest' s', Run m ps' (raw :: rest') s' ∧
      s'.step m raw rest'.head? = .error e := by
  induction hn : rest.length using Nat.strongRecOn generalizing rest s ps with
  | _ k ih =>
    cases rest with
    | nil => simp [ImportState.steps] at h
    | cons raw rest =>
      cases hstep : s.step m raw rest.head? with
      | error e' =>
        obtain rfl : e' = e := by simpa [ImportState.steps, hstep, bind, Except.bind] using h
        exact ⟨ps, raw, rest, s, run, hstep⟩
      | ok result =>
        obtain ⟨s₁, consumed⟩ := result
        obtain ⟨p, rfl, hnext, rfl, step⟩ := step_eq_ok.mp hstep
        have h : s₁.steps m p.consumed rest = .error e := by
          simpa [ImportState.steps, hstep, bind, Except.bind] using h
        rw [steps_eq_left] at h
        exact ih _ (hn ▸ length_left_lt p.message) (Run.step run hnext step) h rfl

/-- The steps that are left lead from any state of a run to the same end. -/
lemma Run.steps_eq (run : Run m ps rest s) :
    ∀ r, Registry.ofModel m = .ok r →
      ({ registry := r } : ImportState).steps m false m.nodes = s.steps m false rest := by
  induction run with
  | start h =>
    intro r hr
    obtain rfl : r = _ := by simpa [h] using hr.symm
    rfl
  | step run next step ih =>
    intro r hr
    rw [ih r hr]
    have h := step_eq_ok (m := m).mpr ⟨_, rfl, next, rfl, step⟩
    simp only [ImportState.steps, Bool.false_eq_true, if_false, h, bind, Except.bind]
    split <;> simp_all [steps_consumed]

lemma Run.registry_eq_ok (run : Run m ps rest s) : ∃ r, Registry.ofModel m = .ok r := by
  induction run with
  | start h => exact ⟨_, h⟩
  | step _ _ _ ih => exact ih

/-- Without a check beforehand, the steps that are left are the rest of the import. -/
lemma Run.importState_eq (run : Run m ps rest s) : m.importState false = s.steps m false rest := by
  obtain ⟨r, hr⟩ := run.registry_eq_ok
  have hdef : m.importState false = Registry.ofModel m >>= fun r =>
    ({ registry := r } : ImportState).steps m false m.nodes := rfl
  rw [hdef, hr, ← run.steps_eq r hr]
  rfl

/-- An import without a check beforehand succeeds exactly with the last state of a run over all
messages. -/
theorem importState_eq_ok : m.importState false = .ok s ↔ ∃ ps, Run m ps [] s := by
  constructor
  · intro h
    have hdef : m.importState false = Registry.ofModel m >>= fun r =>
      ({ registry := r } : ImportState).steps m false m.nodes := rfl
    rw [hdef, Except.bind_eq_ok] at h
    obtain ⟨r, hr, h⟩ := h
    exact (Run.start hr).of_steps h
  · rintro ⟨ps, run⟩
    rw [run.importState_eq]
    rfl

/-- Where an import without a check beforehand fails, the declarations cannot be read, or a run leads
to a message whose step fails. -/
theorem importState_eq_error {e : Error} (h : m.importState false = .error e) :
    Registry.ofModel m = .error e ∨ ∃ ps raw rest s, Run m ps (raw :: rest) s ∧
      s.step m raw rest.head? = .error e := by
  have hdef : m.importState false = Registry.ofModel m >>= fun r =>
    ({ registry := r } : ImportState).steps m false m.nodes := rfl
  rw [hdef, Except.bind_eq_error] at h
  rcases h with h | ⟨r, hr, h⟩
  · exact .inl h
  · exact .inr ((Run.start hr).of_steps_error h)

lemma importState_of_check {checkFirst : Bool} (h : m.importState checkFirst = .ok s) :
    m.importState false = .ok s := by
  cases checkFirst with
  | false => exact h
  | true =>
    have hdef : m.importState true = m.checkOrder >>= fun _ => m.importState false := rfl
    rw [hdef, Except.bind_eq_ok] at h
    obtain ⟨_, -, h⟩ := h
    exact h

/-- An imported graph is what a run over all nodes of the model ends with. -/
theorem importGraph_ok {checkFirst : Bool} {g : Graph} (h : m.importGraph checkFirst = .ok g) :
    ∃ ps s, Run m ps [] s ∧ g = s.graph m.name := by
  simp only [ModelMessage.importGraph, Except.bind_eq_ok, Except.pure_eq_ok] at h
  obtain ⟨s, hs, rfl⟩ := h
  obtain ⟨ps, run⟩ := importState_eq_ok.mp (importState_of_check hs)
  exact ⟨ps, s, run, rfl⟩

lemma Passage.messages_append (next : p.next = rest.head?) :
    p.messages ++ (if p.consumed then rest.tail else rest) = p.message :: rest := by
  rw [messages, next]
  cases p.consumed <;> cases rest <;> rfl

lemma Run.messages (run : Run m ps rest s) : ps.flatMap Passage.messages ++ rest = m.nodes := by
  induction run with
  | start h => rfl
  | @step ps p rest s s' run next step ih =>
    rw [← ih, List.flatMap_append, List.flatMap_singleton, List.append_assoc,
      Passage.messages_append next]

/-- A run is at its start, or has fewer messages left than the model has nodes. -/
lemma Run.start_or_fewer (run : Run m ps rest s) :
    (rest = m.nodes ∧ ∃ r, Registry.ofModel m = .ok r ∧ s = { registry := r }) ∨
      rest.length < m.nodes.length := by
  cases run with
  | start h => exact .inl ⟨rfl, _, h, rfl⟩
  | @step ps p rest s s' run next step =>
    refine .inr ?_
    rw [← run.messages, List.length_append, List.length_cons]
    split
    · rw [List.length_tail]
      omega
    · omega

lemma Run.message_mem (run : Run m ps rest s) (hp : p ∈ ps) : p.message ∈ m.nodes := by
  rw [← run.messages]
  exact List.mem_append_left _ (List.mem_flatMap.mpr ⟨p, hp, List.mem_cons_self⟩)

lemma Run.nodes_step (run : Run m ps (p.message :: rest) s) (next : p.next = rest.head?) :
    ps.flatMap Passage.messages ++ p.messages ++ (if p.consumed then rest.tail else rest) =
      m.nodes := by
  rw [List.append_assoc, Passage.messages_append next, run.messages]

/-- Every passage of a run starts from the state of a run over those before it. What holds after it
and is kept by the passages from then on holds at the end. -/
lemma Run.split {before after : List Passage} (run : Run m ps rest s)
    (h : ps = before ++ p :: after) :
    ∃ rest₁ s₁ s₂, Run m before (p.message :: rest₁) s₁ ∧ p.next = rest₁.head? ∧ Step s₁ p s₂ ∧
      ∀ P : ImportState → Prop, P s₂ →
        (∀ ps q rest s s', p ∈ ps → Run m ps (q.message :: rest) s → q.next = rest.head? →
          Step s q s' → P s → P s') → P s := by
  induction run generalizing after with
  | start => simp at h
  | @step ps q rest s s' run next step ih =>
    -- the last passage is the one in question, or it is one of those that keep what holds
    rcases List.eq_nil_or_concat after with rfl | ⟨after, q', rfl⟩
    · obtain ⟨rfl, rfl⟩ : ps = before ∧ q = p := by simpa using List.append_inj' h rfl
      exact ⟨rest, s, s', run, next, step, fun P hP _ => hP⟩
    · have hsplit : ps ++ [q] = (before ++ p :: after) ++ [q'] := by simpa using h
      have hps := (List.append_inj' hsplit rfl).1
      obtain ⟨rest₁, s₁, s₂, run₁, next₁, step₁, hkeep⟩ := ih hps
      refine ⟨rest₁, s₁, s₂, run₁, next₁, step₁, fun P hP hstep => ?_⟩
      exact hstep ps q rest s s' (by simp [hps]) run next step (hkeep P hP hstep)

/-- A run goes the same way over a model that declares the same, as far as its messages are the same,
the next one among them. -/
lemma Run.congr {m' : ModelMessage} {rest' : List NodeMessage} (run : Run m ps rest s)
    (hr : Registry.ofModel m' = Registry.ofModel m)
    (hnodes : m'.nodes = ps.flatMap Passage.messages ++ rest') (hhead : rest'.head? = rest.head?) :
    Run m' ps rest' s := by
  induction run generalizing rest' with
  | start h =>
    obtain rfl : m'.nodes = rest' := hnodes
    exact .start (hr.trans h)
  | @step ps p rest s s' _ next step ih =>
    -- the message that the passage takes over beside its own, if it does
    let taken := if p.consumed then p.next.toList else []
    have hnodes' : m'.nodes = ps.flatMap Passage.messages ++ (p.message :: (taken ++ rest')) := by
      simp [hnodes, Passage.messages, taken]
    have hnext : p.next = (taken ++ rest').head? ∧
        (if p.consumed then (taken ++ rest').tail else taken ++ rest') = rest' := by
      simp only [taken]
      cases hc : p.consumed with
      | false => simpa [hc, next] using hhead.symm
      | true =>
        rw [hc, if_pos rfl] at hhead
        cases rest with
        | nil => simp_all
        | cons raw rest => simp [next]
    have run' := Run.step (ih hnodes' rfl) hnext.1 step
    rwa [hnext.2] at run'

end TensorGraph
