import TensorGraph.Proofs.Import.Edges
import TensorGraph.Proofs.Renaming.Boundary
import TensorGraph.Proofs.Renaming.Order

/-!
# Runs under a renaming

The imports of a model and of the same model with other names for its values go side by side: every
passage of the one has its counterpart in the other (`Run.step_rename`), and so both end alike
(`Run.steps_rename`).
-/

namespace TensorGraph

open Onnx Registry

variable {g : String → String} {m : ModelMessage} {s s' : ImportState} {p : Passage}
  {ps : List Passage} {rest : List NodeMessage} {r r' : Registry} {n : Node} {v : Value} {x : String}

/-- The name is written by one of the passages. -/
def WrittenBy (ps : List Passage) (x : String) : Prop := ∃ q ∈ ps, x ∈ q.written

lemma writtenBy_append : WrittenBy (ps ++ [p]) x ↔ x ∈ p.written ∨ WrittenBy ps x := by
  simp only [WrittenBy, List.mem_append, List.mem_singleton]
  constructor
  · rintro ⟨q, hq | rfl, hx⟩
    · exact .inr ⟨q, hq, hx⟩
    · exact .inl hx
  · rintro (hx | ⟨q, hq, hx⟩)
    · exact ⟨p, .inr rfl, hx⟩
    · exact ⟨q, .inl hq, hx⟩

section Passage

variable (hm : m.WellFormed) (hin : m.InputsNamed) (run : Run m ps (p.message :: rest) s)
  (next : p.next = rest.head?)

include hm hin run next

/-- No output of a passage is written before it, or is a graph input. -/
lemma Run.pending (hx : x ∈ p.outputNames) :
    ¬ WrittenBy ps x ∧ ∀ i, s.registry.slots.get? x ≠ some (.input i) := by
  obtain ⟨r₀, hr⟩ := run.registry_eq_ok
  have reg := run.registered hm hin hr
  have hnodes := run.nodes_step next
  constructor
  · rintro ⟨q, hq, hw⟩
    have hne := (Passage.mem_written.mp hw).1
    exact reg.not_written hm hnodes (Passage.written_of_mem_outputNames hx hne) q hq hw
  · intro i hi
    have hi₀ : r₀.slots.get? x = some (.input i) := by
      rcases reg.holds.inner hi with hi | ⟨⟨j, hj⟩, -⟩
      · exact hi
      · simp at hj
    obtain ⟨d, -, hd, rfl, -⟩ := reg.declares.input hi₀
    have hne := hin d (List.mem_of_getElem? hd)
    have hw := Registered.written_messages hnodes (Passage.written_of_mem_outputNames hx hne)
    exact reg.not_input hm hw i hi₀

lemma Run.pending_lifted {o : Value} {os : List Value} (front : Step.Front s p)
    (ho : p.lifted.outputs = o :: os) :
    ¬ WrittenBy ps o.name ∧ ∀ i, p.lifting.registry.slots.get? o.name ≠ some (.input i) := by
  obtain ⟨x, xs, hx, rfl, -⟩ := List.map_eq_cons_iff.mp (front.outputs_lifted.symm.trans ho)
  rw [front.registry_lifting]
  exact run.pending hm hin next (by rw [hx]; exact List.mem_cons_self)

/-- What a passage reads from a node is written before it. -/
lemma Run.writtenBy_of_interior (hgen : m.NoGenerated) (step : Step.Body s p)
    (hv : v ∈ p.typed.inputs) {i : Nat}
    (hi : p.recorded.slots.get? v.name = some (.interior i)) : WrittenBy ps v.name := by
  obtain ⟨r₀, hr⟩ := run.registry_eq_ok
  have reg := run.registered hm hin hr
  have hw := (run.writes hm hin next step).1
  have hnd := hw.nodup (hm.nodup (run.nodes_step next).symm)
  have hsame := (record_ok reg.holds.sound hnd (step.registry_lifting ▸ step.record)).1
  rw [hsame.slots (run.not_written hm hin next step hgen hv)] at hi
  rcases reg.holds.inner hi with hi | ⟨-, hx⟩
  · exact absurd hi (reg.declares.not_interior i)
  · exact hx

/-- A Constant or an identity has one output, which has a name and is not written before. -/
lemma Run.single (step : Step.Body s p)
    (ht : ImportState.isTransparent p.typed.operator = true) :
    ∃ v, p.typed.outputs = [v] ∧ v.name ≠ "" ∧ ¬ WrittenBy ps v.name := by
  have hmem : p.message ∈ m.nodes := by simp [← run.messages]
  obtain ⟨x, hne, hx⟩ := step.single hm hmem ht
  have hnames := (run.writes hm hin next step).1.map_name
  rw [hx] at hnames
  obtain ⟨v, hv, rfl⟩ := List.map_eq_singleton_iff.mp hnames
  exact ⟨v, hv, hne, (run.pending hm hin next (by simp [hx])).1⟩

end Passage

/-- The values of a node get the same names. -/
lemma Registry.Renamed.renameValues {settled : String → Prop} (hg : Renaming g)
    (h : r.Renamed g settled r')
    (hread : ∀ v ∈ n.inputs, ∀ i, r.slots.get? v.name = some (.interior i) → settled v.name)
    (hsingle : ImportState.isTransparent n.operator = true →
      ∃ v, n.outputs = [v] ∧ v.name ≠ "" ∧ ¬ settled v.name) :
    Agree (fun a b => a.1.Renamed g (fun x => x ∈ namesOf n.outputs ∨ settled x) b.1 ∧ b.2 = a.2)
      (ImportState.renameValues m r n) (ImportState.renameValues (m.rename g) r' (n.rename g)) := by
  unfold ImportState.renameValues
  refine (ModelMessage.diagnose_rename hg (h.renameInputs hg hread)).bind ?_
  rintro ⟨r₁, inputs⟩ ⟨r₁', inputs'⟩ - - ⟨h₁, hinputs⟩
  obtain rfl : inputs' = inputs := hinputs
  have hname : (n.rename g).name = n.name := rfl
  cases ht : ImportState.isTransparent n.operator with
  | true =>
    obtain ⟨v, hv, hne, hpending⟩ := hsingle ht
    simp only [Node.operator_rename, ht, if_true]
    refine (h₁.renameLiteral hg hname hv hpending (by simp [hv])).bind fun a b _ _ hab => .pure ?_
    refine ⟨hab.1.congr fun x => by simp [hv, namesOf, hne], ?_⟩
    rw [hab.2]
    rfl
  | false =>
    simp only [Node.operator_rename, ht, Bool.false_eq_true, if_false]
    refine (ModelMessage.diagnose_rename hg (h₁.renameOutputs hg hname 1 n.outputs)).bind
      fun a b _ _ hab => .pure ⟨hab.1, ?_⟩
    rw [hab.2]
    rfl

/-- A message is imported alike. -/
theorem Run.step_rename (hg : Renaming g) (hm : m.WellFormed) (hin : m.InputsNamed)
    (hgen : m.NoGenerated) {raw : NodeMessage} (run : Run m ps (raw :: rest) s)
    (h : s.Renamed g (WrittenBy ps) s') :
    Agree (fun a b => ∃ p, p.message = raw ∧ p.next = rest.head? ∧ p.consumed = a.2 ∧
        Step s p a.1 ∧ a.1.Renamed g (WrittenBy (ps ++ [p])) b.1 ∧ b.2 = a.2)
      (s.step m raw rest.head?)
      (s'.step (m.rename g) (raw.rename g) (rest.head?.map (NodeMessage.rename g))) := by
  unfold ImportState.step
  refine (h.registry.convert hg raw).bind fun n₁ _ h₁ _ e₁ => ?_
  subst e₁
  refine Node.specialise_rename.bind fun n₂ _ h₂ _ e₂ => ?_
  subst e₂
  refine (n₂.fuse_rename hg h.registry rest.head?).bind ?_
  rintro ⟨n₃, c⟩ ⟨n₃', c'⟩ h₃ - ⟨hn₃, hc⟩
  obtain rfl : n₃' = n₃.rename g := hn₃
  obtain rfl : c = c' := hc.symm
  obtain ⟨hs, hn⟩ := h.nameNode n₃
  simp only [hn]
  refine (hs.elide hg _).bind ?_
  rintro ⟨s₄, n₄⟩ ⟨s₄', n₄'⟩ h₄ - ⟨hs₄, hn₄⟩
  obtain rfl : n₄' = n₄.rename g := hn₄
  refine (hs₄.lift hg n₄).bind ?_
  rintro ⟨s₅, n₅⟩ ⟨s₅', n₅'⟩ h₅ - ⟨hs₅, hn₅⟩
  obtain rfl : n₅' = n₅.rename g := hn₅
  -- The passage so far: what has not been reached yet does not matter to its front.
  let p₅ : Passage := ⟨raw, rest.head?, n₁, n₂, n₃, c, s₄, n₄, s₅, n₅, n₅, n₅, s₅.registry,
    s₅.registry, [], s₅.registry, []⟩
  have front : Step.Front s p₅ := ⟨h₁, h₂, h₃, h₄, h₅⟩
  refine (ModelMessage.diagnose_rename hg (n₅.unsqueezeAsReshape_rename hg hs₅.registry
    fun _ o os ho => run.pending_lifted (p := p₅) hm hin rfl front ho)).bind fun n₆ _ h₆ _ e₆ => ?_
  subst e₆
  refine (ModelMessage.diagnose_rename hg (hs₅.registry.inferAndRecord hg n₆)).bind ?_
  rintro ⟨r₇, n₇⟩ ⟨r₇', n₇'⟩ h₇ - ⟨hr₇, hn₇⟩
  obtain rfl : n₇' = n₇.rename g := hn₇
  obtain ⟨hinfer, hrecord⟩ := inferAndRecord_eq_ok.mp (diagnose_eq_ok.mp h₇)
  let p₇ : Passage := { p₅ with reshaped := n₆, typed := n₇, recorded := r₇ }
  have body : Step.Body s p₇ := ⟨⟨h₁, h₂, h₃, h₄, h₅⟩, diagnose_eq_ok.mp h₆, hinfer, hrecord⟩
  refine (hr₇.renameValues hg
    (fun v hv i hi => run.writtenBy_of_interior (p := p₇) hm hin rfl hgen body hv hi)
    (run.single (p := p₇) hm hin rfl body)).bind ?_
  rintro ⟨r₈, n₈⟩ ⟨r₈', n₈'⟩ h₈ - ⟨hr₈, hn₈⟩
  obtain rfl : n₈ = n₈' := hn₈.symm
  obtain ⟨marked, inputs, outputs, hinputs, houtputs, hfinal⟩ := renameValues_eq_ok.mp h₈
  let p₈ : Passage := { p₇ with marked, inputs, registry := r₈, outputs }
  have step : Step s p₈ (s₅.push r₈ n₈) :=
    ⟨⟨⟨h₁, h₂, h₃, h₄, h₅⟩, body.reshape, hinfer, hrecord⟩, hinputs, houtputs, hfinal ▸ rfl⟩
  refine .pure ⟨p₈, rfl, rfl, rfl, step, { hs₅ with registry := ?_, nodes := ?_ }, rfl⟩
  · exact hr₈.congr fun x => (writtenBy_append (p := p₈)).symm
  · have hnodes : s₅'.nodes = s₅.nodes := hs₅.nodes
    rw [ImportState.push, ImportState.push, hnodes]

/-! ## The whole run -/

/-- The messages that are left are imported alike. -/
theorem Run.steps_rename (hg : Renaming g) (hm : m.WellFormed) (hin : m.InputsNamed)
    (hgen : m.NoGenerated) (run : Run m ps rest s) (h : s.Renamed g (WrittenBy ps) s') :
    Agree (fun a b => ∃ ps', Run m ps' [] a ∧ a.Renamed g (WrittenBy ps') b)
      (s.steps m false rest)
      (s'.steps (m.rename g) false (rest.map (NodeMessage.rename g))) := by
  induction hn : rest.length using Nat.strongRecOn generalizing rest s s' ps with
  | _ k ih =>
    cases rest with
    | nil => exact .ok ⟨ps, run, h⟩
    | cons raw rest =>
      simp only [List.map_cons, ImportState.steps, Bool.false_eq_true, if_false, List.head?_map]
      refine (run.step_rename hg hm hin hgen h).bind ?_
      rintro ⟨a, _⟩ ⟨b, _⟩ - - ⟨p, rfl, next, rfl, step, hab, hc⟩
      obtain rfl : _ = p.consumed := hc
      have run' := Run.step run next step
      have := ih _ (hn ▸ length_left_lt p.message) run' hab rfl
      cases hc : p.consumed with
      | true => simpa only [hc, if_true, steps_consumed, List.map_tail] using this
      | false => simpa only [hc, Bool.false_eq_true, if_false] using this

/-- The models are imported alike, up to the states that their graphs are taken from. -/
theorem importState_rename (hg : Renaming g) (hm : m.WellFormed) (hin : m.InputsNamed)
    (hgen : m.NoGenerated) (checkFirst : Bool) :
    Agree (fun a b => ∃ ps, Run m ps [] a ∧ a.Renamed g (WrittenBy ps) b)
      (m.importState checkFirst) ((m.rename g).importState checkFirst) := by
  have himport : Agree (fun a b => ∃ ps, Run m ps [] a ∧ a.Renamed g (WrittenBy ps) b)
      (m.importState false) ((m.rename g).importState false) := by
    refine (ofModel_rename hg).bind fun r r' hr _ h => ?_
    have start : ({ registry := r } : ImportState).Renamed g (WrittenBy []) { registry := r' } :=
      { registry := h.congr fun x => by simp [WrittenBy]
        nodes := rfl
        counts := rfl
        removed := rfl
        constants := fun _ => rfl
        elisions := fun _ => rfl }
    exact (Run.start hr).steps_rename hg hm hin hgen start
  cases checkFirst with
  | false => exact himport
  | true => exact (ModelMessage.checkOrder_rename hg).bind fun _ _ _ _ _ => himport

end TensorGraph
