import TensorGraph.Proofs.Accounting

/-!
# Lifted literals

An operand after the first of a node that needs its operands beforehand gets the literal of the
Constant, or of the identity of a literal, that its name in the file leads to, past any number of
identities that are left out (`importGraph_delivers`). Two tables carry this along a run: one
leads names past identities, the other tells where a literal stands.
-/

namespace TensorGraph

open Onnx ModelMessage Registry

/-- The literal that a node writes: a Constant that of its attributes, an identity that of its
operand. -/
inductive Node.HoldsLiteral (n : Node) (a : Value) : Prop where
  | constant (operator : n.operator = .constant) (value : n.constant = .ok a)
  | identity {vs : List Value} (operator : n.operator = .identity) (inputs : n.inputs = a :: vs)
      (literal : a.literal.isSome)

/-- The passage is that of an identity that is left out. In the file it reads `y` and writes `x`. -/
structure Passage.Redirects (m : ModelMessage) (q : Passage) (x y : String) : Prop where
  operator : q.final.operator = .identity
  bare : ¬ q.final.WritesLiteral
  reads : q.message.inputs.head? = some y
  writes : q.message.outputs = [x]
  inner : x ∉ m.outputNames

/-- The name `x` of the file leads to the literal that the passage `q` writes, past identities that
are left out. -/
inductive LeadsTo (m : ModelMessage) (ps : List Passage) : String → Passage → Prop where
  | source {q : Passage} {x : String} (mem : q ∈ ps) (literal : q.final.WritesLiteral)
      (writes : q.message.outputs = [x]) : LeadsTo m ps x q
  | past {p q : Passage} {x y : String} (mem : p ∈ ps) (redirects : p.Redirects m x y)
      (leads : LeadsTo m ps y q) : LeadsTo m ps x q

/-- The operand at the place `k` has the literal and the type of `a`, both when the node is typed and
in the graph. -/
structure Passage.Receives (p : Passage) (k : Nat) (a : Value) : Prop where
  typed : ∃ v, p.reshaped.inputs[k]? = some v ∧ v.literal = a.literal ∧ v.type = a.type
  final : ∃ v, p.final.inputs[k]? = some v ∧ v.literal = a.literal ∧ v.type = a.type

variable {m : ModelMessage} {g : Graph} {s s' : ImportState} {p q : Passage}
  {ps before after : List Passage} {rest : List NodeMessage} {v : Value} {x y : String} {i k : Nat}

namespace Step

lemma elisions_outside (h : Step s p s') (hx : x ∉ p.outputNames) :
    s'.elisions.get? x = s.elisions.get? x := by
  cases h.elision with
  | past _ _ elisions => rw [elisions]
  | @out _ y _ ys _ _ _ outputs _ _ _ elisions =>
    have hne : x ≠ y := by
      rintro rfl
      simp [outputs] at hx
    rw [elisions, Table.get?_insert_of_ne _ _ hne]

lemma sourceOf_outside (h : Step s p s') (hx : x ∉ p.outputNames) :
    s'.sourceOf x = s.sourceOf x := by
  rw [ImportState.sourceOf, ImportState.sourceOf, h.elisions_outside hx]

lemma constants_outside (h : Step s p s') (hx : x ∉ p.outputNames) :
    s'.constants.get? x = s.constants.get? x := by
  cases h.literals with
  | reads _ _ constants => rw [constants]
  | @writes y ys _ outputs _ constants =>
    have hne : x ≠ y := by
      rintro rfl
      simp [outputs] at hx
    rw [constants, Table.get?_insert_of_ne _ _ hne]

/-- The operands of a node that is not made a linear layer are those that its message names. -/
lemma Front.inputs_fused (h : Front s p) (hop : p.fused.operator ≠ .linear) :
    p.fused.inputs = p.converted.inputs := by
  have hspecialised : p.specialised.inputs = p.converted.inputs := by
    rw [(specialise_ok h.specialise).2]
  cases h.fuses with
  | same node => rw [node, hspecialised]
  | gemm _ operator => exact absurd operator hop
  | product _ node => simp [node] at hop
  | biased _ _ _ _ _ _ _ node => simp [node] at hop

lemma writesLiteral_led (h : Step s p s') (hs : s.registry.Sound) (hw : p.final.WritesLiteral) :
    p.led.WritesLiteral := by
  have hled : p.led.operator = p.fused.operator := by
    rw [h.elides.node]
    rfl
  have hop : p.final.operator = p.fused.operator := by
    obtain ⟨-, hreshaped, -⟩ := h.transparent hw.transparent
    exact h.operator_typed.trans (hreshaped.trans h.operator_lifted)
  rcases hw with hw | ⟨hw, u, us, hinputs, hliteral⟩
  · exact .inl (hled.trans (hop.symm.trans hw))
  · have hidentity := hop.symm.trans hw
    rw [h.inputs_final hs, h.inputs_of_identity hidentity] at hinputs
    obtain ⟨w, ws, hw, rfl, -⟩ := List.map_eq_cons_iff.mp hinputs
    rw [literal_renamedOperand] at hliteral
    exact .inr ⟨hled.trans hidentity, w, ws, hw, hliteral⟩

/-- A node that writes a literal is not left out. -/
lemma elisions_of_writes (h : Step s p s') (hw : p.led.WritesLiteral) :
    s'.elisions = s.elisions := by
  rw [h.elisions_eq]
  cases h.elides with
  | past _ _ state => rw [state]; rfl
  | @out u _ us _ operator inputs _ bare _ node =>
    rw [node] at hw
    rcases hw with hw | ⟨-, w, ws, hinputs, hliteral⟩
    · simp [operator] at hw
    · obtain ⟨rfl, -⟩ := List.cons_eq_cons.mp (inputs.symm.trans hinputs)
      simp [bare] at hliteral

lemma constants_of_writes (h : Step s p s') (hw : p.led.WritesLiteral)
    (hx : p.outputNames = [x]) : s'.constants = s.constants.insert x s.place := by
  cases h.literals with
  | reads _ _ _ bare => exact absurd hw bare
  | writes _ outputs _ constants =>
    obtain ⟨rfl, -⟩ := List.cons_eq_cons.mp (hx.symm.trans outputs)
    exact constants

/-- The readers of an identity that is left out are led to what it reads, or past that. -/
lemma elisions_of_redirects (run : Run m ps (p.message :: rest) s) (h : Step s p s')
    (hr : p.Redirects m x y) :
    s'.elisions = s.elisions.insert x ⟨s.place, s.sourceOf y⟩ := by
  have ht : ImportState.isTransparent p.typed.operator = true := by
    rw [show p.typed.operator = .identity from hr.operator]
    rfl
  obtain ⟨hconsumed, hreshaped, -⟩ := h.transparent ht
  have hop : p.fused.operator = .identity :=
    h.operator_lifted.symm.trans (hreshaped.symm.trans (h.operator_typed.symm.trans hr.operator))
  have hout : p.fused.outputs = [bareValue x] := by
    rw [h.outputs_fused, Passage.outputNames_of_kept hconsumed, hr.writes]
    rfl
  rw [h.elisions_eq]
  cases h.elides with
  | past kept node =>
    exfalso
    obtain ⟨u, us, hinputs, hliteral | ⟨o, os, houtputs, houtput⟩⟩ := kept hop
    · apply hr.bare
      apply h.writesLiteral_final run.sound
      refine .inr ⟨?_, { u with name := (s.nameNode p.fused).1.sourceOf u.name },
        us.map fun v => { v with name := (s.nameNode p.fused).1.sourceOf v.name }, ?_, hliteral⟩
      · rw [node]
        exact hop
      · rw [node, hinputs]
        rfl
    · obtain ⟨rfl, -⟩ := List.cons_eq_cons.mp (hout.symm.trans houtputs)
      have hinner := run.isOutput_eq_false hr.inner
      exact absurd houtput (Bool.not_eq_true _ ▸ hinner)
  | @out u o us os _ inputs outputs _ _ _ state =>
    obtain ⟨rfl, -⟩ := List.cons_eq_cons.mp (hout.symm.trans outputs)
    have hread := (convert_ok h.convert).2.2.1
    rw [← h.inputs_fused (by simp [hop]), show p.fused.inputs = u :: us from inputs] at hread
    obtain ⟨z, zs, hz, -, hinputs⟩ := List.forall₂_cons_right_iff.mp hread
    have hy := hr.reads
    rw [hinputs] at hy
    obtain rfl := Option.some.inj hy
    rw [state, ← run.arrays.name_resolve hz]
    rfl

end Step

lemma Run.output_ne_empty (hm : m.WellFormed) (run : Run m ps rest s) (hq : q ∈ ps)
    (ht : ImportState.isTransparent q.final.operator = true) (hx : q.message.outputs = [x]) :
    x ≠ "" := by
  obtain ⟨before, after, hps⟩ := List.append_of_mem hq
  obtain ⟨_, s₁, _, run₁, -, step, -⟩ := run.split hps
  have hmem := run.message_mem hq
  obtain ⟨hconsumed, -, -⟩ := step.transparent ht
  obtain ⟨z, hz, hnames⟩ := step.single hm hmem ht
  rw [Passage.outputNames_of_kept hconsumed, hx] at hnames
  rwa [List.singleton_inj.mp hnames]

lemma Passage.mem_flatMap_messages (hp : p ∈ ps) : p.message ∈ ps.flatMap Passage.messages :=
  List.mem_flatMap.mpr ⟨p, hp, by simp [messages]⟩

lemma Passage.mem_written_messages (hp : p ∈ ps) (hx : p.message.outputs = [x]) (hne : x ≠ "") :
    x ∈ ModelMessage.written (ps.flatMap Passage.messages) :=
  ModelMessage.mem_written.mpr ⟨hne, p.message, mem_flatMap_messages hp, by simp [hx]⟩

lemma Passage.written_messages_subset (next : p.next = rest.head?) :
    ModelMessage.written p.messages ⊆ ModelMessage.written (p.message :: rest) := by
  rw [← messages_append next, written_append]
  exact List.subset_append_left _ _

lemma Passage.Redirects.transparent (h : p.Redirects m x y) :
    ImportState.isTransparent p.final.operator = true := by
  rw [h.operator]
  rfl

namespace LeadsTo

lemma writesLiteral (h : LeadsTo m ps x q) : q.final.WritesLiteral := by
  induction h with
  | source _ literal => exact literal
  | past _ _ _ ih => exact ih

/-- A name that leads to a literal is the output of a Constant or of an identity. -/
lemma exists_writer (h : LeadsTo m ps x q) :
    ∃ p ∈ ps, ImportState.isTransparent p.final.operator = true ∧ p.message.outputs = [x] := by
  cases h with
  | source mem literal writes => exact ⟨_, mem, literal.transparent, writes⟩
  | past mem redirects => exact ⟨_, mem, redirects.transparent, redirects.writes⟩

lemma written (hm : m.WellFormed) (run : Run m ps rest s) (h : LeadsTo m ps x q) :
    x ∈ ModelMessage.written (ps.flatMap Passage.messages) := by
  obtain ⟨p, hp, ht, hx⟩ := h.exists_writer
  exact Passage.mem_written_messages hp hx (run.output_ne_empty hm hp ht hx)

/-- A name that later passages do not write leads where it led before them. -/
lemma of_append (hm : m.WellFormed) (run : Run m ps rest s) (hps : ps = before ++ after)
    (h : LeadsTo m ps x q) (hx : x ∉ ModelMessage.written (after.flatMap Passage.messages)) :
    LeadsTo m before x q := by
  have hnodes : m.nodes =
      before.flatMap Passage.messages ++ (after.flatMap Passage.messages ++ rest) := by
    rw [← run.messages, hps, List.flatMap_append, List.append_assoc]
  have hbefore : ∀ {p x}, p ∈ ps → p.message.outputs = [x] → x ≠ "" →
      x ∉ ModelMessage.written (after.flatMap Passage.messages) → p ∈ before := by
    intro p x hp hw hne hx
    rw [hps, List.mem_append] at hp
    apply hp.resolve_right
    intro hp
    exact hx (Passage.mem_written_messages hp hw hne)
  induction h with
  | source mem literal writes =>
    have hne := run.output_ne_empty hm mem literal.transparent writes
    exact .source (hbefore mem writes hne hx) literal writes
  | @past p q x y mem redirects leads ih =>
    have hne := run.output_ne_empty hm mem redirects.transparent redirects.writes
    have hp := hbefore mem redirects.writes hne hx
    apply LeadsTo.past hp redirects
    apply ih
    -- what an earlier node reads, the later ones do not write
    obtain ⟨front, back, hsplit⟩ := List.append_of_mem (Passage.mem_flatMap_messages hp)
    rw [hsplit, List.append_assoc, List.cons_append] at hnodes
    have hread := hm.not_written_of_read hnodes (List.mem_of_mem_head? redirects.reads)
    rw [written_cons, written_append, written_append] at hread
    intro hy
    exact hread (by simp [hy])

end LeadsTo

/-! ## The tables along a run -/

/-- The tables lead the name `x` to the place of the passage `q`. -/
def Finds (ps : List Passage) (s : ImportState) (x : String) (q : Passage) : Prop :=
  ∃ i y, ps[i]? = some q ∧ q.message.outputs = [y] ∧ s.sourceOf x = y ∧
    s.constants.get? y = some i

lemma Run.written_of_elision (run : Run m ps rest s) (h : s.elisions.get? x ≠ none) :
    ∃ n ∈ ps.flatMap Passage.messages, x ∈ n.outputs := by
  induction run with
  | start => simp at h
  | @step ps p rest s s' run next step ih =>
    rw [List.flatMap_append, List.flatMap_singleton]
    by_cases hx : x ∈ p.outputNames
    · obtain ⟨n, hn, hx⟩ := Passage.mem_outputs_of_mem_outputNames hx
      exact ⟨n, List.mem_append_right _ hn, hx⟩
    · rw [step.elisions_outside hx] at h
      obtain ⟨n, hn, hx⟩ := ih h
      exact ⟨n, List.mem_append_left _ hn, hx⟩

/-- What has been written is not written by the next passage. -/
lemma Run.not_mem_outputNames (hm : m.WellFormed) (run : Run m ps (p.message :: rest) s)
    (next : p.next = rest.head?) (hx : x ∈ ModelMessage.written (ps.flatMap Passage.messages)) :
    x ∉ p.outputNames := by
  intro hp
  apply hm.disjoint run.messages.symm hx
  apply Passage.written_messages_subset next
  exact Passage.written_of_mem_outputNames hp (mem_written.mp hx).1

namespace Finds

/-- Earlier names lead on to where they led. -/
lemma append (hm : m.WellFormed) (run : Run m ps (p.message :: rest) s)
    (next : p.next = rest.head?) (step : Step s p s') (hleads : LeadsTo m ps x q)
    (h : Finds ps s x q) : Finds (ps ++ [p]) s' x q := by
  obtain ⟨i, y, hq, hy, hsource, hconstant⟩ := h
  have hleadsy : LeadsTo m ps y q := .source (List.mem_of_getElem? hq) hleads.writesLiteral hy
  refine ⟨i, y, getElem?_append_of_some hq, hy, ?_, ?_⟩
  · rw [step.sourceOf_outside (run.not_mem_outputNames hm next (hleads.written hm run)), hsource]
  · rw [step.constants_outside (run.not_mem_outputNames hm next (hleadsy.written hm run)), hconstant]

/-- The name of a literal leads to where the literal stands. -/
lemma source (hm : m.WellFormed) (run : Run m ps (p.message :: rest) s) (step : Step s p s')
    (hliteral : p.final.WritesLiteral) (hx : p.message.outputs = [x]) (hne : x ≠ "") :
    Finds (ps ++ [p]) s' x p := by
  have hled := step.writesLiteral_led run.sound hliteral
  obtain ⟨hconsumed, -, -⟩ := step.transparent hliteral.transparent
  have hnames : p.outputNames = [x] := by
    rw [Passage.outputNames_of_kept hconsumed, hx]
  have hnew : s.elisions.get? x = none := by
    by_contra helided
    obtain ⟨n, hn, hw⟩ := run.written_of_elision helided
    apply hm.disjoint run.messages.symm (mem_written.mpr ⟨hne, n, hn, hw⟩)
    exact mem_written.mpr ⟨hne, p.message, List.mem_cons_self, by simp [hx]⟩
  refine ⟨ps.length, x, by simp, hx, ?_, ?_⟩
  · rw [ImportState.sourceOf, step.elisions_of_writes hled, hnew]
  · rw [step.constants_of_writes hled hnames, Table.get?_insert_self, run.place]

/-- The name of an identity that is left out leads to where the name that it reads leads. -/
lemma past (run : Run m ps (p.message :: rest) s) (step : Step s p s')
    (hr : p.Redirects m x y) (h : Finds ps s y q) : Finds (ps ++ [p]) s' x q := by
  obtain ⟨i, z, hq, hz, hsource, hconstant⟩ := h
  have hled : ¬ p.led.WritesLiteral := mt (step.writesLiteral_final run.sound) hr.bare
  refine ⟨i, z, getElem?_append_of_some hq, hz, ?_, ?_⟩
  · rw [ImportState.sourceOf, step.elisions_of_redirects run hr, Table.get?_insert_self]
    exact hsource
  · rw [step.constants_of_not_writes hled, hconstant]

end Finds

/-- Along a run the tables lead a name to the literal that the file leads it to. -/
theorem Run.finds (hm : m.WellFormed) (run : Run m ps rest s) (h : LeadsTo m ps x q) :
    Finds ps s x q := by
  induction run generalizing x q with
  | start => cases h with | source mem | past mem => simp at mem
  | @step ps p rest s s' run next step ih =>
    have run' := Run.step run next step
    by_cases hx : x ∈ ModelMessage.written p.messages
    swap
    · have hleads := h.of_append hm run' rfl (by simpa using hx)
      exact (ih hleads).append hm run next step hleads
    -- the last passage writes the name, so that no other does
    have hlast : ∀ p' ∈ ps ++ [p], p'.message.outputs = [x] → p' = p := by
      intro p' hp' hw
      rw [List.mem_append, List.mem_singleton] at hp'
      apply hp'.resolve_left
      intro hp'
      apply hm.disjoint run.messages.symm
        (Passage.mem_written_messages hp' hw (mem_written.mp hx).1)
      exact Passage.written_messages_subset next hx
    cases h with
    | source mem literal writes =>
      obtain rfl := hlast _ mem writes
      exact .source hm run step literal writes (mem_written.mp hx).1
    | @past _ _ _ y mem redirects leads =>
      obtain rfl := hlast _ mem redirects.writes
      apply Finds.past run step redirects
      apply ih
      apply leads.of_append hm run' rfl
      rw [List.flatMap_singleton]
      intro hy
      apply hm.not_written_of_read run.messages.symm (List.mem_of_mem_head? redirects.reads)
      exact Passage.written_messages_subset next hy

lemma ImportState.Lifting.lifts {n n' : Node} (h : s.Lifting n s' n')
    (hop : liftsConstants n.operator = true) (hv : n.inputs[k + 1]? = some v) :
    ∃ w, n'.inputs[k + 1]? = some w ∧ s.Lifts v w ∧
      ∀ i, s.constants.get? v.name = some i → i ∈ s'.removed := by
  cases h with
  | writes writes =>
    have ht := writes.transparent
    revert hop ht
    cases n.operator <;> simp [liftsConstants, isTransparent]
  | same _ keeps => simp [hop] at keeps
  | operands _ _ operands node drops =>
    cases hn : n.inputs with
    | nil => simp [hn] at hv
    | cons u us =>
      rw [hn, List.getElem?_cons_succ] at hv
      rw [hn, List.drop_one, List.tail_cons] at operands drops
      obtain ⟨w, hw, hlift⟩ := forall₂_getElem? operands.flip hv
      refine ⟨w, by simpa [node, hn] using hw, hlift, ?_⟩
      intro i hi
      apply drops.mem_removed.mpr
      exact .inr (List.mem_filterMap.mpr ⟨v, List.mem_of_getElem? hv, hi⟩)

lemma ImportState.Lifting.literal_head {n n' : Node} (h : s.Lifting n s' n') :
    n'.inputs.head?.map Value.literal = n.inputs.head?.map Value.literal := by
  cases h with
  | writes _ _ node | same _ _ node => rw [node]
  | operands _ _ operands node =>
    rw [node]
    cases hn : n.inputs with
    | nil =>
      rw [hn, List.drop_nil, List.forall₂_nil_left_iff] at operands
      rw [operands]
      rfl
    | cons u us => rfl

lemma Node.Reshapes.literal_head {r : Registry} {n n' : Node} (h : n.Reshapes r n') :
    n'.inputs.head?.map Value.literal = n.inputs.head?.map Value.literal := by
  cases h with
  | same node => rw [node]
  | reshape _ inputs _ _ _ _ node =>
    rw [node, inputs]
    rfl

namespace Step

lemma Body.lifts_lifted (h : Body s p)
    (hop : ImportState.liftsConstants p.typed.operator = true) :
    ImportState.liftsConstants p.lifted.operator = true := by
  rw [h.operator_typed] at hop
  rcases h.reshapes.operator with hsame | ⟨hunsqueeze, -⟩
  · rwa [← hsame]
  · rw [hunsqueeze]
    rfl

/-- The operands of a node that is not an identity are led past those that are left out. -/
lemma Front.inputs_led (h : Front s p) (hop : p.fused.operator ≠ .identity) :
    p.led.inputs = p.fused.inputs.map fun v => { v with name := s.sourceOf v.name } := by
  cases h.elides with
  | out operator => exact absurd operator hop
  | past _ node =>
    rw [node]
    rfl

lemma Front.inputs_of_lifts (h : Front s p)
    (hop : ImportState.liftsConstants p.lifted.operator = true) :
    p.led.inputs = p.converted.inputs.map fun v => { v with name := s.sourceOf v.name } := by
  rw [h.operator_lifted] at hop
  rw [h.inputs_led, h.inputs_fused]
  · intro hlinear
    simp [hlinear, ImportState.liftsConstants] at hop
  · intro hidentity
    simp [hidentity, ImportState.liftsConstants] at hop

/-- The literal that the tables lead an operand to is there when the node is typed and in the graph,
and the node that wrote it is dropped. -/
lemma receives (run : Run m ps (p.message :: rest) s) (h : Step s p s')
    (hop : ImportState.liftsConstants p.final.operator = true) (hi : 0 < i)
    (hx : p.message.inputs[i]? = some x) (hfinds : Finds ps s x q) :
    ∃ a j, ImportState.literalOf q.final = .ok a ∧ p.Receives i a ∧ ps[j]? = some q ∧
      j ∈ s'.removed := by
  obtain ⟨k, rfl⟩ := Nat.exists_eq_add_one_of_ne_zero hi.ne'
  obtain ⟨j, y, hq, -, hsource, hconstant⟩ := hfinds
  have hlifted := h.lifts_lifted hop
  obtain ⟨u, hu, hresolve⟩ := forall₂_getElem? (convert_ok h.convert).2.2.1.flip hx
  have hled : p.led.inputs[k + 1]? = some { u with name := y } := by
    rw [h.inputs_of_lifts hlifted, List.getElem?_map, hu, Option.map_some,
      run.arrays.name_resolve hresolve, hsource]
  rw [h.lifts.node] at hlifted
  obtain ⟨w, hw, hlift, hdrop⟩ := h.lifts.lifts hlifted hled
  cases hlift with
  | bare unknown =>
    rw [h.constants_elision, hconstant] at unknown
    cases unknown
  | @literal place n a known node literal value =>
    rw [h.constants_elision, hconstant] at known
    obtain rfl := Option.some.inj known
    rw [h.nodes_elision, run.nodes, List.getElem?_map, hq] at node
    obtain rfl : q.final = n := Option.some.inj node
    have hliteral : w.literal.isSome := by
      simpa only [value, Value.copyFrom] using isSome_literal_literalOf literal
    obtain ⟨hreshaped, hfinal⟩ := h.inputs_of_literal run.sound hw hliteral
    refine ⟨a, j, literal, ⟨⟨w, hreshaped, ?_⟩, ⟨_, hfinal, ?_⟩⟩, hq, ?_⟩
    · rw [value]
      exact ⟨rfl, rfl⟩
    · rw [literal_renamedOperand, type_renamedOperand, value]
      exact ⟨rfl, rfl⟩
    · rw [h.state]
      apply hdrop
      rw [h.constants_elision]
      exact hconstant

/-- The first operand of a node that literals are lifted into has what it has in the file. -/
lemma literal_head (h : Step s p s') (hs : s.registry.Sound)
    (hop : ImportState.liftsConstants p.final.operator = true) :
    p.final.inputs.head?.map Value.literal = p.converted.inputs.head?.map Value.literal := by
  have hled : p.led.inputs.head?.map Value.literal =
      p.converted.inputs.head?.map Value.literal := by
    rw [h.inputs_of_lifts (h.lifts_lifted hop), List.head?_map, Option.map_map]
    rfl
  have hfinal : p.final.inputs.head?.map Value.literal =
      p.typed.inputs.head?.map Value.literal := by
    rw [h.inputs_final hs, List.head?_map, Option.map_map]
    congr 1
    funext v
    exact literal_renamedOperand
  rw [hfinal, h.inputs_typed, h.reshapes.literal_head, h.lifts.literal_head, hled]

lemma inputs_of_constant (h : Step s p s') (hs : s.registry.Sound)
    (hop : p.final.operator = .constant) (hmessage : p.message.inputs = []) :
    p.final.inputs = [] := by
  have ht : ImportState.isTransparent p.typed.operator = true := by
    rw [show p.typed.operator = .constant from hop]
    rfl
  obtain ⟨-, hreshaped, -⟩ := h.transparent ht
  have hfused : p.fused.operator = .constant :=
    h.operator_lifted.symm.trans (hreshaped.symm.trans (h.operator_typed.symm.trans hop))
  have hled : p.led.operator = .constant := by
    rw [h.elides.node]
    exact hfused
  have hread := (convert_ok h.convert).2.2.1
  rw [hmessage, List.forall₂_nil_left_iff] at hread
  rw [h.inputs_final hs, h.inputs_typed, h.reshaped_of_transparent ht,
    h.inputs_lifted (by rw [hled]; rfl), h.inputs_led (by simp [hfused]),
    h.inputs_fused (by simp [hfused]), hread]
  rfl

end Step

lemma Run.holdsLiteral {a : Value} (hclosed : m.ConstantsClosed) (run : Run m ps rest s)
    (hq : q ∈ ps) (hliteral : q.final.WritesLiteral)
    (ha : ImportState.literalOf q.final = .ok a) : q.final.HoldsLiteral a := by
  obtain ⟨before, after, hps⟩ := List.append_of_mem hq
  obtain ⟨_, s₁, _, run₁, -, step, -⟩ := run.split hps
  have hmem := run.message_mem hq
  rcases hliteral with hop | ⟨hop, u, us, hinputs, hu⟩
  · have htyped : q.typed.operator = .constant := hop
    obtain ⟨-, -, hmessage⟩ := step.transparent (by rw [htyped]; rfl)
    have hinputs := step.inputs_of_constant run₁.sound hop (hclosed _ hmem (by
      rw [hmessage, htyped]
      rfl))
    rw [ImportState.literalOf, hinputs] at ha
    exact .constant hop ha
  · rw [ImportState.literalOf, hinputs] at ha
    simp only [hu, if_true, Except.ok.injEq] at ha
    subst ha
    exact .identity hop hinputs hu

/-- What a node reads under the name `x`, if it may read it, has no literal. -/
def Registry.Bare (r : Registry) (x : String) : Prop :=
  (∃ i, r.slots.get? x = some (.output i)) ∨
    ∃ i, r.slots.get? x = some (.interior i) ∧ (r.value (.interior i)).literal = none

lemma Registry.Bare.resolve {r : Registry} (h : r.Bare x) (hx : x ≠ "") (hv : r.resolve x = .ok v) :
    v.literal = none := by
  obtain ⟨hs, -⟩ | ⟨i, hs, -⟩ | ⟨i, hs, rfl⟩ := resolve_ok hx hv
  · rcases h with ⟨j, hj⟩ | ⟨j, hj, -⟩ <;> simp [hj] at hs
  · rcases h with ⟨j, hj⟩ | ⟨j, hj, -⟩ <;> simp [hj] at hs
  · rcases h with ⟨j, hj⟩ | ⟨j, hj, hbare⟩
    · simp [hj] at hs
    · obtain rfl : j = i := by simpa [hj] using hs
      exact hbare

namespace Step

/-- What a Constant or an identity writes has no literal. -/
lemma bare_of_transparent (hm : m.WellFormed) (run : Run m ps (p.message :: rest) s)
    (h : Step s p s') (ht : ImportState.isTransparent p.final.operator = true)
    (hx : p.message.outputs = [x]) : s'.registry.Bare x := by
  have hmem : p.message ∈ m.nodes := by
    rw [← run.messages]
    simp
  obtain ⟨hconsumed, -, -⟩ := h.transparent ht
  obtain ⟨v, hne, hnames, houtputs, hliteral⟩ := h.single_typed hm hmem ht
  rw [Passage.outputNames_of_kept hconsumed, hx] at hnames
  obtain rfl := List.singleton_inj.mp hnames
  have hwritten : p.written = [v.name] := by
    rw [Passage.written, houtputs, namesOf_cons_of_ne hne]
    rfl
  have hinput : ∀ i, s.registry.slots.get? v.name ≠ some (.input i) := by
    intro i hi
    apply hm.written_inputs v.name _ (run.mem_inputNames hi)
    exact mem_written.mpr ⟨hne, p.message, hmem, by simp [hx]⟩
  have hcloses := h.closes run.sound (by simp [hwritten]) fun _ => ⟨v, houtputs, hne⟩
  obtain ⟨used, hfind⟩ := hcloses.find?_written (k := 0) (by simp [houtputs]) hne hinput
  obtain ⟨slot, hslot, hvalue⟩ := Option.map_eq_some_iff.mp hfind
  rw [h.state]
  cases slot with
  | output i => exact .inl ⟨i, hslot⟩
  | interior i =>
    refine .inr ⟨i, hslot, ?_⟩
    exact (congrArg Value.literal hvalue).trans hliteral
  | input i =>
    rcases hcloses.slots_cases hslot with hold | ⟨⟨j, hj⟩, -⟩
    · exact absurd hold (hinput i)
    · cases hj

/-- A name that a node has written keeps what it stands for. -/
lemma bare (h : Step s p s') (hs : s.registry.Sound) (hx : x ≠ "") (hbare : s.registry.Bare x) :
    s'.registry.Bare x := by
  rcases hbare with ⟨i, hi⟩ | ⟨i, hi, hliteral⟩
  · exact .inl ⟨i, ((h.grows hs).outer (by simp)).mpr hi⟩
  · have hnew : x ∉ p.written := fun hw => (h.open_of_written hs hw).1 (.inr ⟨i, hi⟩)
    obtain ⟨hslot, hvalue⟩ := h.outside hs hnew hx
    refine .inr ⟨i, hslot.trans hi, ?_⟩
    rcases hvalue _ hi with heq | heq <;> rw [heq] <;> exact hliteral

end Step

/-- What a name that leads to a literal stands for has no literal itself. -/
lemma Run.bare (hm : m.WellFormed) (run : Run m ps rest s) (h : LeadsTo m ps x q) :
    s.registry.Bare x := by
  obtain ⟨p, hp, ht, hx⟩ := h.exists_writer
  have hne := run.output_ne_empty hm hp ht hx
  obtain ⟨before, after, hps⟩ := List.append_of_mem hp
  obtain ⟨rest₁, s₁, s₂, run₁, -, step, hkeep⟩ := run.split hps
  apply hkeep (fun t => t.registry.Bare x) (step.bare_of_transparent hm run₁ ht hx)
  intro _ _ _ _ _ _ run _ step hbare
  exact step.bare run.sound hne hbare

/-! ## Imported graphs -/

/-- The operands of the passage `p` have the literals that their names in the file lead to, but for
the first, which has what it has in the file. The nodes that wrote the literals are not in the
graph. -/
structure Passage.Delivers (m : ModelMessage) (ps : List Passage) (g : Graph) (p : Passage) :
    Prop where
  typed : p.reshaped.infer = .ok p.typed
  first : p.final.inputs.head?.map Value.literal = p.converted.inputs.head?.map Value.literal
  first_bare : ∀ {x q v}, p.message.inputs.head? = some x → LeadsTo m ps x q →
    p.final.inputs.head? = some v → v.literal = none
  receives : ∀ {i x q}, 0 < i → p.message.inputs[i]? = some x → LeadsTo m ps x q →
    ∃ a, q.final.HoldsLiteral a ∧ p.Receives i a ∧ q.final ∉ g.nodes

/-- A dropped node is not in the graph, since its name tells it from the others. -/
lemma Run.not_mem_graph_of_removed (run : Run m ps [] s) (hq : ps[i]? = some q)
    (hi : i ∈ s.removed) : q.final ∉ (s.graph m.name).nodes := by
  intro hmem
  obtain ⟨k, p, hp, hk, heq⟩ := (mem_graph_nodes run.nodes).mp hmem
  have hname : q.final.name = p.final.name := congrArg Node.name heq
  obtain rfl := run.name_inj hq hp hname
  exact hk hi

theorem Run.delivers (hm : m.WellFormed) (hclosed : m.ConstantsClosed) (run : Run m ps [] s)
    (hp : p ∈ ps) (hop : ImportState.liftsConstants p.final.operator = true) :
    p.Delivers m ps (s.graph m.name) := by
  obtain ⟨before, after, hps⟩ := List.append_of_mem hp
  obtain ⟨rest₁, s₁, s₂, run₁, next₁, step, hkeep⟩ := run.split hps
  have hrest : (p :: after).flatMap Passage.messages = p.message :: rest₁ := by
    have hmessages := run.messages
    rw [List.append_nil, ← run₁.messages, hps, List.flatMap_append] at hmessages
    exact List.append_cancel_left hmessages
  -- the operands of the node lead to literals that stand before it
  have hbefore : ∀ {x q}, x ∈ p.message.inputs → LeadsTo m ps x q → LeadsTo m before x q := by
    intro x q hx hleads
    apply hleads.of_append hm run hps
    rw [hrest]
    exact hm.not_written_of_read run₁.messages.symm hx
  have hfirst := step.literal_head run₁.sound hop
  refine ⟨step.infer, hfirst, ?_, ?_⟩
  · intro x q v hx hleads hv
    have hmem := List.mem_of_mem_head? hx
    obtain ⟨y, hy, ht, hwrites⟩ := hleads.exists_writer
    have hbare := run₁.bare hm (hbefore hmem hleads)
    obtain ⟨xs, hxs⟩ := List.head?_eq_some_iff.mp hx
    have hread := (convert_ok step.convert).2.2.1
    rw [hxs] at hread
    obtain ⟨u, us, hu, -, hinputs⟩ := List.forall₂_cons_left_iff.mp hread
    rw [hv, hinputs] at hfirst
    rw [Option.some.inj hfirst]
    exact hbare.resolve (run.output_ne_empty hm hy ht hwrites) hu
  · intro i x q hi hx hleads
    have hfinds := run₁.finds hm (hbefore (List.mem_of_getElem? hx) hleads)
    obtain ⟨a, j, hliteral, hreceives, hq, hj⟩ := step.receives run₁ hop hi hx hfinds
    have hremoved : j ∈ s.removed := by
      apply hkeep (fun t => j ∈ t.removed) hj
      intro _ _ _ _ _ _ _ _ step hj
      exact Tracks.removed_mono step hj
    have hqps : ps[j]? = some q := by
      rw [hps]
      exact getElem?_append_of_some hq
    have hholds :=
      run.holdsLiteral hclosed (List.mem_of_getElem? hqps) hleads.writesLiteral hliteral
    exact ⟨a, hholds, hreceives, run.not_mem_graph_of_removed hqps hremoved⟩

/-- Every operand after the first of a node that literals are lifted into has the literal that its
name in the file leads to, already when the node is typed, and the node that wrote it is not in the
graph. The first operand gains no literal. -/
theorem importGraph_delivers {checkFirst : Bool} (hm : m.WellFormed) (hclosed : m.ConstantsClosed)
    (h : m.importGraph checkFirst = .ok g) :
    ∃ ps s, Run m ps [] s ∧ g = s.graph m.name ∧
      ∀ n ∈ g.nodes, ImportState.liftsConstants n.operator = true →
        ∃ p ∈ ps, p.final = n ∧ p.Delivers m ps g := by
  obtain ⟨ps, s, run, rfl⟩ := importGraph_ok h
  refine ⟨ps, s, run, rfl, ?_⟩
  intro n hn hop
  obtain ⟨_, p, hp, -, rfl⟩ := (mem_graph_nodes run.nodes).mp hn
  have hmem := List.mem_of_getElem? hp
  exact ⟨p, hmem, rfl, run.delivers hm hclosed hmem hop⟩

/-- A shape that reaches a Reshape past two identities, and axes that an identity of an array writes
for an Unsqueeze. -/
def relayed : ModelMessage where
  inputs := [{ name := "x", elementType := 1, dims := [.size 6] }]
  outputs := [{ name := "y", elementType := 1, dims := [.size 1, .size 2, .size 3] }]
  initializers := [{ name := "a", dataType := 7, dims := [1], int64s := [0] }]
  nodes := [
    { operator := "Constant", outputs := ["c"],
      attributes := [{ name := "value_ints", kind := .ints, ints := [2, 3] }] },
    { operator := "Identity", inputs := ["c"], outputs := ["i"] },
    { operator := "Identity", inputs := ["a"], outputs := ["k"] },
    { operator := "Identity", inputs := ["i"], outputs := ["j"] },
    { operator := "Reshape", inputs := ["x", "j"], outputs := ["r"] },
    { operator := "Unsqueeze", inputs := ["r", "k"], outputs := ["y"] }]

theorem importGraph_delivers_relayed :
    relayed.WellFormed ∧ relayed.ConstantsClosed ∧ ∃ g, relayed.importGraph false = .ok g ∧
      g.nodes.map (fun n => (n.name, n.inputs.map (·.literal.isSome))) =
        [("reshape1", [false, true]), ("unsqueeze1", [false, true])] ∧
      ∃ ps s, Run relayed ps [] s ∧ g = s.graph relayed.name ∧
        ∀ n ∈ g.nodes, ImportState.liftsConstants n.operator = true →
          ∃ p ∈ ps, p.final = n ∧ p.Delivers relayed ps g := by
  have hm : relayed.WellFormed := by decide
  have hclosed : relayed.ConstantsClosed := by decide
  obtain ⟨g, hg, hliterals⟩ : ∃ g, relayed.importGraph false = .ok g ∧
      g.nodes.map (fun n => (n.name, n.inputs.map (·.literal.isSome))) =
        [("reshape1", [false, true]), ("unsqueeze1", [false, true])] :=
    Except.exists_ok (by decide +kernel)
  exact ⟨hm, hclosed, g, hg, hliterals, importGraph_delivers hm hclosed hg⟩

end TensorGraph
