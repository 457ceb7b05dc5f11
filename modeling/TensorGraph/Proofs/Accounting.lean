import TensorGraph.Proofs.Import.Edges
import TensorGraph.Proofs.Import.Growth
import TensorGraph.Proofs.Import.Numbering

/-!
# What becomes of the nodes of a file

No node of a file is lost, doubled or moved by an import: a sum is taken over by the product before
it, an identity is left out, a node whose literal has been lifted is dropped, and every other node
stands in the graph, in the order of the file and with its number (`importGraph_accounts`). A sum that
leaves out an operand may be taken over as well, by a product without a name (`unnamedSum_accounts`).
-/

namespace TensorGraph

open Onnx ModelMessage Registry

variable {m : ModelMessage} {r : Registry} {s s' : ImportState} {p q : Passage}
  {ps before after : List Passage} {rest : List NodeMessage} {n n' : Node} {v w : Value} {x : String}
  {i k : Nat}

/-- A node that reads the name would read a literal. -/
def Registry.ReadsLiteral (r : Registry) (x : String) : Prop :=
  ∃ v, r.resolve x = .ok v ∧ v.literal.isSome

/-- The passage `p`, from the registry `r`, makes one linear layer of a product and the sum that is
the message after it, of what the product writes, under its name, and of a literal. -/
structure Passage.TakesOver (r : Registry) (p : Passage) : Prop where
  product : p.message.operator = "MatMul"
  linear : p.final.operator = .linear
  sum : ∃ sum o os, p.next = some sum ∧ sum.operator = "Add" ∧ p.message.outputs = o :: os ∧
    o ≠ "" ∧ o ∈ sum.inputs ∧ (∃ x ∈ sum.inputs, r.ReadsLiteral x) ∧
      ∀ x ∈ sum.inputs, x = o ∨ r.ReadsLiteral x

lemma Step.Body.operator_of_linear (h : Step.Body s p) (hop : p.fused.operator = .linear) :
    p.typed.operator = .linear := by
  rw [h.operator_typed]
  rcases h.reshapes.operator with hr | ⟨hr, -⟩
  · rw [hr, h.operator_lifted, hop]
  · rw [h.operator_lifted, hop] at hr
    simp at hr

/-- What is taken over by a product is a sum of a literal and of something that is named as what the
product writes. -/
lemma Run.sum_of_consumed (run : Run m ps (p.message :: rest) s) (step : Step s p s')
    (hc : p.consumed = true) :
    p.message.operator = "MatMul" ∧ ∃ sum o os, p.next = some sum ∧ sum.operator = "Add" ∧
      p.message.outputs = o :: os ∧ o ∈ sum.inputs ∧
        (∃ x ∈ sum.inputs, s.registry.ReadsLiteral x) ∧
          ∀ x ∈ sum.inputs, x = o ∨ s.registry.ReadsLiteral x := by
  obtain ⟨operator, -, sum, add, bias, hnext, convert, adds⟩ := step.taken hc
  have hsum : sum.operator = "Add" := by
    rw [← name_of_knownOperator (convert_ok convert).1, adds.operator]
    rfl
  obtain ⟨o, os, ho, v, hv, hname⟩ := adds.output_mem
  have hout := ho
  rw [step.outputs_specialised] at hout
  obtain ⟨z, zs, hz, rfl, rfl⟩ := List.map_eq_cons_iff.mp hout
  have hread := (convert_ok convert).2.2.1
  refine ⟨?_, sum, z, zs, hnext, hsum, hz, ?_, ?_, ?_⟩
  · rw [step.operator_specialised (by rw [operator]; rfl), operator]
    rfl
  · obtain ⟨x, hx, hres⟩ := forall₂_exists_of_mem hread.flip hv
    rw [run.arrays.name_resolve hres] at hname
    obtain rfl : x = z := hname
    exact hx
  · obtain ⟨x, hx, hres⟩ := forall₂_exists_of_mem hread.flip adds.bias_mem
    exact ⟨x, hx, bias, hres, adds.literal⟩
  · intro x hx
    obtain ⟨v, hv, hres⟩ := forall₂_exists_of_mem hread hx
    rcases adds.covers v hv with hliteral | ⟨o, os, ho', hname⟩
    · exact .inr ⟨v, hres, hliteral⟩
    · obtain ⟨rfl, -⟩ := List.cons_eq_cons.mp (ho.symm.trans ho')
      rw [run.arrays.name_resolve hres] at hname
      exact .inl hname

lemma Run.getElem?_next {raw sum : NodeMessage} (run : Run m ps (raw :: sum :: rest) s) :
    m.nodes[(ps.flatMap Passage.messages).length + 1]? = some sum := by
  rw [← run.messages, List.getElem?_append_right (by omega)]
  simp

lemma Run.addsToUnnamed {raw sum : NodeMessage} (run : Run m ps (raw :: sum :: rest) s)
    (hraw : raw.operator = "MatMul") (hout : raw.outputs.head? = some "")
    (hsum : sum.operator = "Add") :
    m.AddsToUnnamed ((ps.flatMap Passage.messages).length + 1) := by
  refine ⟨raw, sum, ?_, hraw, hout, run.getElem?_next, hsum⟩
  rw [← run.messages, Nat.add_sub_cancel, List.getElem?_append_right le_rfl]
  simp

/-- Only a sum of a literal and of what the product before it writes is taken over. -/
theorem Run.takesOver (hadd : m.AddendsGiven) (run : Run m ps (p.message :: rest) s)
    (next : p.next = rest.head?) (step : Step s p s') (hc : p.consumed = true) :
    p.TakesOver s.registry := by
  obtain ⟨hproduct, sum, o, os, hnext, hsum, hout, hread, hliterals⟩ := run.sum_of_consumed step hc
  refine ⟨hproduct, step.operator_of_linear (step.taken hc).2.1, sum, o, os, hnext, hsum, hout, ?_,
    hread, hliterals⟩
  rintro rfl
  obtain ⟨rest', rfl⟩ := List.head?_eq_some_iff.mp (next.symm.trans hnext)
  exact hadd _ (run.addsToUnnamed hproduct (by rw [hout]; rfl) hsum) sum run.getElem?_next hread

/-- Why the node of the passage `q`, at the place `i` of the run `ps`, is not in the graph. -/
inductive LeftOut (m : ModelMessage) (ps : List Passage) (i : Nat) (q : Passage) : Prop where
  /-- It is an identity of a value that is not known beforehand, and writes no graph output. -/
  | identity {u : Value} {us : List Value} {y : String} {ys : List String}
      (operator : q.final.operator = .identity) (inputs : q.final.inputs = u :: us)
      (bare : u.literal = none) (outputs : q.message.outputs = y :: ys) (inner : y ∉ m.outputNames)
  /-- It writes a literal, which an operand after the first of a later node has. -/
  | lifted {a w : Value} {j k : Nat} {p : Passage} (writes : q.final.WritesLiteral)
      (literal : ImportState.literalOf q.final = .ok a) (reader : ps[j]? = some p) (later : i < j)
      (behind : 0 < k) (operand : p.final.inputs[k]? = some w)
      (value : w.literal = a.literal ∧ w.type = a.type)

lemma LeftOut.append (h : LeftOut m ps i q) : LeftOut m (ps ++ [p]) i q := by
  cases h with
  | identity operator inputs bare outputs inner =>
    exact .identity operator inputs bare outputs inner
  | lifted writes literal reader later behind operand value =>
    exact .lifted writes literal (getElem?_append_of_some reader) later behind operand value

lemma Run.isOutput_of_mem (run : Run m ps rest s) (hx : x ∈ m.outputNames) :
    s.registry.isOutput x = true := by
  obtain ⟨r₀, hr⟩ := run.registry_eq_ok
  obtain ⟨i, hi⟩ := (ofModel_declares hr).1.outer hx
  exact isOutput_eq_true.mpr ⟨i, ((run.grows hr).outer (by simp)).mpr hi⟩

namespace Step

lemma inputs_final (h : Step s p s') (hs : s.registry.Sound) :
    p.final.inputs = p.typed.inputs.map p.recorded.renamedOperand :=
  (renameInputs_ok (h.grows_recorded hs).sound h.renameInputs).2.1

/-- A literal operand stays as it is while the node is typed and put into the graph. -/
lemma inputs_of_literal (h : Step s p s') (hs : s.registry.Sound)
    (hw : p.lifted.inputs[k]? = some w) (hliteral : w.literal.isSome) :
    p.reshaped.inputs[k]? = some w ∧
      p.final.inputs[k]? = some (p.recorded.renamedOperand w) := by
  have hreshaped := h.reshapes.getElem?_inputs hw hliteral
  refine ⟨hreshaped, ?_⟩
  rw [h.inputs_final hs, List.getElem?_map, h.inputs_typed, hreshaped]
  rfl

lemma writesLiteral_final (h : Step s p s') (hs : s.registry.Sound) (hw : p.led.WritesLiteral) :
    p.final.WritesLiteral := by
  have hop : p.led.operator = p.fused.operator := by rw [h.elides.node]; rfl
  have htyped : p.typed.operator = p.led.operator := by
    rw [hop]
    exact h.operator_of_transparent (hop ▸ hw.transparent)
  rcases hw with hw | ⟨hw, u, us, hin, hliteral⟩
  · exact .inl (htyped.trans hw)
  · have hinputs : p.typed.inputs = u :: us := by
      rw [h.inputs_of_identity (hop ▸ hw), hin]
    refine .inr ⟨htyped.trans hw, p.recorded.renamedOperand u, us.map p.recorded.renamedOperand,
      ?_, ?_⟩
    · rw [h.inputs_final hs, hinputs, List.map_cons]
    · rwa [literal_renamedOperand]

lemma leftOut_elision (run : Run m ps (p.message :: rest) s) (h : Step s p s')
    (hi : i ∈ p.elision.removed) : i ∈ s.removed ∨ i = s.place ∧ LeftOut m (ps ++ [p]) i p := by
  cases h.elision with
  | past _ removed => exact .inl (removed ▸ hi)
  | @out x y u ys operator _ _ outputs _ bare removed _ inner input =>
    rcases (removed i).mp hi with rfl | hi
    swap
    · exact .inl hi
    have hc : p.consumed = false :=
      (h.transparent (by simp [operator, ImportState.isTransparent])).1
    rw [Passage.outputNames_of_kept hc] at outputs
    obtain ⟨us, hus⟩ := List.head?_eq_some_iff.mp input
    have hinputs : p.final.inputs =
        p.recorded.renamedOperand u :: us.map p.recorded.renamedOperand := by
      rw [h.inputs_final run.sound, hus, List.map_cons]
    have hinner : y ∉ m.outputNames := by
      intro hy
      rw [run.isOutput_of_mem hy] at inner
      simp at inner
    have hbare : (p.recorded.renamedOperand u).literal = none := by
      rw [literal_renamedOperand, bare]
    exact .inr ⟨rfl, .identity operator hinputs hbare outputs hinner⟩

/-- A literal that is lifted stands in the graph as the operand of the node that it was lifted
into. -/
lemma leftOut_lifted (h : Step s p s') (hs : s.registry.Sound)
    (hnodes : s.nodes = ps.map Passage.final) (hwrites : ∀ {x i}, s.constants.get? x = some i →
      ∃ q, ps[i]? = some q ∧ q.final.WritesLiteral) (hi : i ∈ s'.removed) :
    i ∈ p.elision.removed ∨ ∃ q, ps[i]? = some q ∧ LeftOut m (ps ++ [p]) i q := by
  have hremoved : s'.removed = p.lifting.removed := by rw [h.state]; rfl
  rw [hremoved] at hi
  cases h.lifts with
  | writes _ _ _ state => exact .inl (by rwa [state] at hi)
  | same _ _ _ state => exact .inl (state ▸ hi)
  | operands _ _ operands node drops =>
    refine (drops.mem_removed.mp hi).imp_right fun hi => ?_
    obtain ⟨v, hv, hknown⟩ := List.mem_filterMap.mp hi
    obtain ⟨k, hk⟩ := List.getElem?_of_mem hv
    obtain ⟨w, hw, hlift⟩ := forall₂_getElem? operands.flip hk
    cases hlift with
    | bare unknown => simp [hknown] at unknown
    | @literal place n a known hn literal value =>
      obtain rfl : i = place := Option.some.inj (hknown.symm.trans known)
      rw [h.constants_elision] at known
      obtain ⟨q, hq, hwrite⟩ := hwrites known
      rw [h.nodes_elision, hnodes, List.getElem?_map, hq] at hn
      obtain rfl : q.final = n := by simpa using hn
      have hlt : i < ps.length := (List.getElem?_eq_some_iff.mp hq).1
      have hlifted : p.lifted.inputs[k + 1]? = some w := by
        cases hin : p.led.inputs with
        | nil => simp [hin] at hk
        | cons u us => simpa [node, hin] using hw
      have hliteral : w.literal.isSome := by
        simpa only [value, Value.copyFrom] using isSome_literal_literalOf literal
      obtain ⟨-, hfinal⟩ := h.inputs_of_literal hs hlifted hliteral
      refine ⟨q, hq, .lifted hwrite literal (List.getElem?_concat_length ..) hlt
        (Nat.succ_pos k) hfinal ?_⟩
      rw [literal_renamedOperand, type_renamedOperand, value]
      exact ⟨rfl, rfl⟩

end Step

/-! ## Runs -/

/-- What a run over a model makes of the nodes of the file. -/
structure Accounts (m : ModelMessage) (ps : List Passage) (s : ImportState) : Prop where
  messages : ps.flatMap Passage.messages = m.nodes
  nodes : s.nodes = ps.map Passage.final
  takenOver : ∀ {before p after}, ps = before ++ p :: after → p.consumed = true →
    ∃ rest s₁, Run m before (p.message :: rest) s₁ ∧ p.TakesOver s₁.registry
  leftOut : ∀ i ∈ s.removed, ∃ q, ps[i]? = some q ∧ LeftOut m ps i q
  numbered : ∀ o : Operator, (ps.filter (·.fused.operator = o)).map (·.final.name) =
    (List.range (s.count o)).map fun k => nodeName o (k + 1)
  counted : ∀ o : Operator, s.counts.get? o = if s.count o = 0 then none else some (s.count o)

lemma Run.place (run : Run m ps rest s) : s.place = ps.length := by
  rw [ImportState.place, run.nodes, List.length_map]

lemma Run.constant (run : Run m ps rest s) (h : s.constants.get? x = some i) :
    ∃ q, ps[i]? = some q ∧ q.final.WritesLiteral := by
  induction run with
  | start => simp at h
  | @step ps p rest s s' run next step ih =>
    have hold : s.constants.get? x = some i →
        ∃ q, (ps ++ [p])[i]? = some q ∧ q.final.WritesLiteral := fun h => by
      obtain ⟨q, hq, hw⟩ := ih h
      exact ⟨q, getElem?_append_of_some hq, hw⟩
    have hconstants : s'.constants = p.lifting.constants := by rw [step.state]; rfl
    rw [hconstants] at h
    cases step.lifts with
    | @writes y ys writes outputs node state =>
      rw [state] at h
      change (p.elision.constants.insert y.name p.elision.place).get? x = some i at h
      rw [Table.get?_insert, step.constants_elision] at h
      split at h
      · refine ⟨p, ?_, step.writesLiteral_final run.sound writes⟩
        rw [← Option.some.inj h, ImportState.place, step.nodes_elision, ← ImportState.place,
          run.place, List.getElem?_concat_length]
      · exact hold h
    | same _ _ _ state =>
      rw [state, step.constants_elision] at h
      exact hold h
    | operands _ _ _ _ drops =>
      rw [drops.eq] at h
      exact hold (step.constants_elision ▸ h)

theorem Run.leftOut (run : Run m ps rest s) (hi : i ∈ s.removed) :
    ∃ q, ps[i]? = some q ∧ LeftOut m ps i q := by
  induction run generalizing i with
  | start => simp at hi
  | @step ps p rest s s' run next step ih =>
    rcases step.leftOut_lifted run.sound run.nodes run.constant hi with hi | ⟨q, hq, hout⟩
    · rcases step.leftOut_elision run hi with hi | ⟨rfl, hout⟩
      · obtain ⟨q, hq, hout⟩ := ih hi
        exact ⟨q, getElem?_append_of_some hq, hout.append⟩
      · exact ⟨p, by rw [run.place, List.getElem?_concat_length], hout⟩
    · exact ⟨q, getElem?_append_of_some hq, hout⟩

/-- The nodes of an operator are numbered from one on, in their order. -/
theorem Run.numbered (run : Run m ps rest s) (o : Operator) :
    (ps.filter (·.fused.operator = o)).map (·.final.name) =
      (List.range (s.count o)).map fun k => nodeName o (k + 1) := by
  induction run with
  | start => rfl
  | @step ps p rest s s' run next step ih =>
    rw [List.filter_append, List.map_append, ih, step.count_eq]
    by_cases ho : o = p.fused.operator
    · subst ho
      have hname : p.final.name = nodeName p.fused.operator (s.count p.fused.operator + 1) :=
        step.name_typed
      rw [if_pos rfl, List.range_succ, List.map_append, List.map_singleton]
      simp [hname]
    · simp [ho, Ne.symm ho]

lemma Run.counted (run : Run m ps rest s) (o : Operator) :
    s.counts.get? o = if s.count o = 0 then none else some (s.count o) := by
  induction run with
  | start => rfl
  | @step ps p rest s s' run next step ih =>
    rw [step.count_eq, step.counts, Table.get?_insert]
    split
    · next ho => rw [ho, if_neg (Nat.succ_ne_zero _)]
    · exact ih

theorem Run.accounts (hadd : m.AddendsGiven) (run : Run m ps [] s) : Accounts m ps s where
  messages := by rw [← run.messages, List.append_nil]
  nodes := run.nodes
  takenOver h hc := by
    obtain ⟨rest, s₁, s₂, run₁, next, step, -⟩ := run.split h
    exact ⟨rest, s₁, run₁, run₁.takesOver hadd next step hc⟩
  leftOut _ := run.leftOut
  numbered := run.numbered
  counted := run.counted

/-- No node of a file is lost, doubled or moved: the nodes of the graph are those of the run that
are not left out. No sum that leaves out an operand stands behind a product without a name. -/
theorem importGraph_accounts {checkFirst : Bool} {g : Graph} (hadd : m.AddendsGiven)
    (h : m.importGraph checkFirst = .ok g) :
    ∃ ps s, Run m ps [] s ∧ Accounts m ps s ∧
      g.nodes = ((ps.map Passage.final).zipIdx.filter (·.2 ∉ s.removed)).map Prod.fst := by
  simp only [importGraph, Except.bind_eq_ok, Except.pure_eq_ok] at h
  obtain ⟨s, hs, rfl⟩ := h
  obtain ⟨ps, run⟩ := importState_eq_ok.mp (importState_of_check hs)
  exact ⟨ps, s, run, run.accounts hadd, by rw [ImportState.graph, run.nodes]⟩

/-- A product whose sum is taken over, an identity that is left out, and a Constant whose literal is
lifted into a Reshape. -/
def folded : ModelMessage where
  inputs := [{ name := "x", elementType := 7, dims := [.size 2, .size 3] }]
  outputs := [{ name := "y", elementType := 7, dims := [.size 4] }]
  initializers := [
    { name := "w", dataType := 7, dims := [3, 2], int64s := [1, 2, 3, 4, 5, 6] },
    { name := "b", dataType := 7, dims := [2], int64s := [7, 8] }]
  nodes := [
    { operator := "MatMul", inputs := ["x", "w"], outputs := ["p"] },
    { operator := "Add", inputs := ["p", "b"], outputs := ["q"] },
    { operator := "Identity", inputs := ["q"], outputs := ["i"] },
    { operator := "Constant", outputs := ["c"],
      attributes := [{ name := "value_ints", kind := .ints, ints := [4] }] },
    { operator := "Reshape", inputs := ["i", "c"], outputs := ["y"] }]

theorem importGraph_accounts_folded :
    folded.AddendsGiven ∧
      ∃ g, folded.importGraph false = .ok g ∧ g.nodes.map Node.name = ["linear1", "reshape1"] ∧
        ∃ ps s, Run folded ps [] s ∧ Accounts folded ps s ∧
          g.nodes = ((ps.map Passage.final).zipIdx.filter (·.2 ∉ s.removed)).map Prod.fst := by
  have hnamed : ∀ n ∈ folded.nodes, n.outputs.head? ≠ some "" := by decide
  have hadd : folded.AddendsGiven := by
    rintro i ⟨raw, -, hraw, -, hout, -⟩
    exact absurd hout (hnamed raw (List.mem_of_getElem? hraw))
  have himport : ∃ g, folded.importGraph false = .ok g ∧
      g.nodes.map Node.name = ["linear1", "reshape1"] := Except.exists_ok (by decide +kernel)
  obtain ⟨g, hg, hnames⟩ := himport
  exact ⟨hadd, g, hg, hnames, importGraph_accounts hadd hg⟩

/-- A product without a name, and an addition of a literal to no operand. -/
def unnamedSum : ModelMessage where
  inputs := [{ name := "x", elementType := 7, dims := [.size 2, .size 3] }]
  outputs := [{ name := "z", elementType := 7, dims := [.size 2, .size 2] }]
  initializers := [
    { name := "w", dataType := 7, dims := [3, 2], int64s := [1, 2, 3, 4, 5, 6] },
    { name := "b", dataType := 7, dims := [2], int64s := [7, 8] }]
  nodes := [
    { operator := "MatMul", inputs := ["x", "w"], outputs := [""] },
    { operator := "Add", inputs := ["", "b"], outputs := ["z"] }]

/-- The product takes the addition over, though the addition does not read it. -/
theorem unnamedSum_accounts :
    (∃ g, unnamedSum.importGraph false = .ok g ∧ g.nodes.map Node.name = ["linear1"]) ∧
      (∃ g, unnamedSum.importGraph true = .ok g ∧ g.nodes.map Node.name = ["linear1"]) ∧
      ∀ ps s, Run unnamedSum ps [] s → ¬ Accounts unnamedSum ps s := by
  refine ⟨Except.exists_ok (by decide +kernel), Except.exists_ok (by decide +kernel),
    fun ps s run accounts => ?_⟩
  obtain ⟨s', hs', hlength⟩ : ∃ s, unnamedSum.importState false = .ok s ∧ s.nodes.length = 1 :=
    Except.exists_ok (by decide +kernel)
  obtain rfl : s' = s := Except.ok.inj (hs'.symm.trans (importState_eq_ok.mpr ⟨ps, run⟩))
  rw [run.nodes, List.length_map, List.length_eq_one_iff] at hlength
  obtain ⟨p, rfl⟩ := hlength
  -- the one passage goes over both messages
  have hmessages : p.messages = unnamedSum.nodes := by simpa using accounts.messages
  have hc : p.consumed = true := by
    by_contra hc
    have := congrArg List.length hmessages
    simp [Passage.messages, hc, unnamedSum] at this
  have hmessage : p.message.outputs = [""] :=
    congrArg (fun nodes : List NodeMessage => nodes.head?.elim [] NodeMessage.outputs) hmessages
  obtain ⟨_, _, -, takes⟩ := accounts.takenOver (List.nil_append [p]).symm hc
  obtain ⟨_, z, _, -, -, hz, hne, -⟩ := takes.sum
  rw [hmessage] at hz
  exact hne (List.cons_eq_cons.mp hz).1.symm

end TensorGraph
