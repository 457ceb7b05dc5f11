import TensorGraph.Proofs.Import.Operands
import TensorGraph.Proofs.Import.Reading

/-!
# What is left out along a run

Which nodes are dropped, and which names are led past an identity, after every passage of a run over
a well-formed model (`Run.tracks`).
-/

namespace TensorGraph

open Onnx ModelMessage Registry

variable {m : ModelMessage} {r r₀ : Registry} {s s' : ImportState} {p q : Passage}
  {ps : List Passage} {rest : List NodeMessage} {n n' : Node} {u v w : Value} {x : String} {i k : Nat}

lemma Node.Reshapes.getElem?_inputs (h : n.Reshapes r n') (hw : n.inputs[k]? = some w)
    (hliteral : w.literal.isSome) : n'.inputs[k]? = some w := by
  cases h with
  | same node => rwa [node]
  | reshape _ inputs bare _ _ _ node =>
    rw [inputs] at hw
    rw [node]
    -- the shape takes the place of the axes, which have no literal
    match k with
    | 0 => exact hw
    | 1 =>
      obtain rfl := Option.some.inj hw
      simp [bare] at hliteral
    | k + 2 => exact hw

lemma Node.Reshapes.mem_inputs (h : n.Reshapes r n') (hw : w ∈ n.inputs)
    (hliteral : w.literal.isSome) : w ∈ n'.inputs := by
  obtain ⟨k, hk⟩ := List.getElem?_of_mem hw
  exact List.mem_of_getElem? (h.getElem?_inputs hk hliteral)

lemma Node.WritesLiteral.transparent (h : n.WritesLiteral) :
    ImportState.isTransparent n.operator = true := by
  rcases h with h | ⟨h, -⟩ <;> simp [h, ImportState.isTransparent]

namespace Step

lemma Front.nodes_lifting (h : Front s p) : p.lifting.nodes = s.nodes := by
  rw [← h.nodes_elision]
  cases h.lifts with
  | writes _ _ _ state => rw [state]
  | operands _ _ _ _ drops => rw [drops.eq]
  | same _ _ _ state => rw [state]

lemma nodes (h : Step s p s') : s'.nodes = s.nodes ++ [p.final] := by
  rw [h.state, ImportState.push, h.nodes_lifting]

/-- What a passage changes about the names that are led past an identity. -/
inductive Elision (s : ImportState) (p : Passage) (s' : ImportState) : Prop where
  | past (leads : Leads s p s.sourceOf) (removed : p.elision.removed = s.removed)
      (elisions : s'.elisions = s.elisions)
  | out {x y : String} {u : Value} {ys : List String} (operator : p.typed.operator = .identity)
      (leads : Leads s p id) (message : x ∈ p.message.inputs) (outputs : p.outputNames = y :: ys)
      (resolve : s.registry.resolve x = .ok u) (bare : u.literal = none)
      (removed : ∀ i, i ∈ p.elision.removed ↔ i = s.place ∨ i ∈ s.removed)
      (elisions : s'.elisions = s.elisions.insert y ⟨s.place, s.sourceOf u.name⟩)
      (inner : s.registry.isOutput y = false) (input : p.typed.inputs.head? = some u)

lemma elisions_eq (h : Step s p s') : s'.elisions = p.elision.elisions := by
  rw [h.state]
  cases h.lifts with
  | writes _ _ _ state => rw [state]; rfl
  | operands _ _ _ _ drops => rw [drops.eq]; rfl
  | same _ _ _ state => rw [state]; rfl

lemma Body.operator_of_transparent (h : Body s p)
    (ht : ImportState.isTransparent p.fused.operator = true) :
    p.typed.operator = p.fused.operator := by
  rw [h.operator_typed, ← h.operator_lifted]
  rcases h.reshapes.operator with hr | ⟨hr, -⟩
  · exact hr
  · rw [h.operator_lifted] at hr
    simp [hr, ImportState.isTransparent] at ht

lemma Front.inputs_lifted (h : Front s p) (hop : ImportState.liftsConstants p.led.operator = false) :
    p.lifted.inputs = p.led.inputs := by
  cases h.lifts with
  | writes _ _ node => rw [node]
  | same _ _ node => rw [node]
  | operands _ lifts => simp [hop] at lifts

/-- Past the stage that leaves identities out, the operands of an identity stay as they are. -/
lemma Body.inputs_of_identity (h : Body s p) (hop : p.fused.operator = .identity) :
    p.typed.inputs = p.led.inputs := by
  have hled : p.led.operator = .identity := by rw [h.elides.node]; exact hop
  have htyped : p.typed.operator = .identity := by
    rw [h.operator_of_transparent (by simp [hop, ImportState.isTransparent]), hop]
  rw [h.inputs_typed, h.reshaped_of_transparent (by rw [htyped]; rfl),
    h.inputs_lifted (by rw [hled]; rfl)]

theorem elision (h : Step s p s') : Elision s p s' := by
  cases h.elides with
  | past _ node state =>
    refine .past ⟨by rw [node]; rfl, .inl rfl⟩ ?_ ?_
    · rw [state]; rfl
    · rw [h.elisions_eq, state]; rfl
  | @out x y xs ys operator inputs outputs bare inner node state =>
    have hop : p.fused.operator = .identity := operator
    have hin : p.fused.inputs = x :: xs := inputs
    have hout : p.fused.outputs = y :: ys := outputs
    have hmem : s.place ∈ p.elision.removed := by
      rw [state]
      exact mem_removed_remove.mpr (.inl rfl)
    rw [h.outputs_fused] at hout
    obtain ⟨z, zs, hz, rfl, rfl⟩ := List.map_eq_cons_iff.mp hout
    have hx : p.fused.inputs[0]? = some x := by rw [hin]; rfl
    rcases h.input_fused hx with ⟨a, u, ha, hu, rfl | ⟨-, hlinear⟩⟩ | ⟨hc, -⟩
    · refine .out ?_ ⟨by simp [node, ImportState.nameNode], .inr ⟨rfl, hmem⟩⟩
        (List.mem_of_getElem? ha) hz hu bare (fun i => ?_) ?_ inner ?_
      · rw [h.operator_of_transparent (by simp [hop, ImportState.isTransparent]), hop]
      · rw [state, mem_removed_remove]
        rfl
      · rw [h.elisions_eq, state]
        rfl
      · rw [h.inputs_of_identity hop, node]
        simp [ImportState.nameNode, hin]
    · simp [hop] at hlinear
    · rcases h.fuses.operator with ⟨-, hc'⟩ | hlinear
      · simp [hc] at hc'
      · simp [hop] at hlinear

/-- What a passage changes about the literals that names stand for, and about the nodes that are
dropped because their literals have been lifted. -/
inductive Literals (s : ImportState) (p : Passage) (s' : ImportState) : Prop where
  | writes {y : String} {ys : List String}
      (operator : ImportState.isTransparent p.typed.operator = true)
      (outputs : p.outputNames = y :: ys) (removed : s'.removed = p.elision.removed)
      (constants : s'.constants = s.constants.insert y s.place)
  | reads (old : p.elision.removed ⊆ s'.removed)
      (removed : ∀ i ∈ s'.removed, i ∈ p.elision.removed ∨
        ImportState.liftsConstants p.lifted.operator = true ∧
          ∃ w ∈ p.typed.inputs, w.literal.isSome ∧ s.constants.get? w.name = some i)
      (constants : s'.constants = s.constants) (bare : ¬ p.led.WritesLiteral)

theorem literals (h : Step s p s') : Literals s p s' := by
  have hplace : p.elision.place = s.place := by
    rw [ImportState.place, ImportState.place, h.nodes_elision]
  cases h.lifts with
  | @writes y ys writes outputs node state =>
    rw [h.elides.node] at outputs
    have hout : p.fused.outputs = y :: ys := outputs
    rw [h.outputs_fused] at hout
    obtain ⟨z, zs, hz, rfl, rfl⟩ := List.map_eq_cons_iff.mp hout
    have ht := writes.transparent
    have hop : p.led.operator = p.fused.operator := by rw [h.elides.node]; rfl
    rw [hop] at ht
    refine .writes (h.operator_of_transparent ht ▸ ht) hz ?_ ?_
    · rw [h.state, state]
      rfl
    · rw [h.state, state, ← hplace, ← h.constants_elision]
      rfl
  | same reads _ _ state =>
    have hremoved : s'.removed = p.elision.removed := by rw [h.state, state]; rfl
    refine .reads (by rw [hremoved]; exact List.Subset.refl _)
      (fun i hi => .inl (hremoved ▸ hi)) ?_ reads
    rw [h.state, state, ← h.constants_elision]
    rfl
  | @operands ws reads lifts operands node drops =>
    have hremoved : s'.removed = p.lifting.removed := by rw [h.state]; rfl
    refine .reads (fun i hi => ?_) (fun i hi => ?_) ?_ reads
    · rw [hremoved]
      exact drops.mem_removed.mpr (.inl hi)
    · rw [hremoved] at hi
      refine (drops.mem_removed.mp hi).imp id fun hi => ⟨by rw [node]; exact lifts, ?_⟩
      obtain ⟨v, hv, hknown⟩ := List.mem_filterMap.mp hi
      obtain ⟨w, hw, hlift⟩ := forall₂_exists_of_mem operands hv
      rw [h.constants_elision] at hknown
      cases hlift with
      | bare unknown => simp [h.constants_elision, hknown] at unknown
      | literal _ _ literal value =>
        have hlit : w.literal.isSome := by
          simpa only [value, Value.copyFrom] using isSome_literal_literalOf literal
        have hmem : w ∈ p.lifted.inputs := by simp [node, hw]
        refine ⟨w, ?_, hlit, by rw [value]; exact hknown⟩
        rw [h.inputs_typed]
        exact h.reshapes.mem_inputs hmem hlit
    · rw [h.state, ← h.constants_elision, drops.eq]
      rfl

lemma constants_of_not_writes (h : Step s p s') (hw : ¬ p.led.WritesLiteral) :
    s'.constants = s.constants := by
  rw [h.state, ← h.constants_elision]
  cases h.lifts with
  | writes writes => exact absurd writes hw
  | same _ _ _ state => rw [state]; rfl
  | operands _ _ _ _ drops => rw [drops.eq]; rfl

end Step

/-- The name is read by a message of the passages. -/
def ReadBy (ps : List Passage) (x : String) : Prop :=
  ∃ n ∈ ps.flatMap Passage.messages, x ∈ n.inputs

lemma ReadBy.append (h : ReadBy ps x) : ReadBy (ps ++ [p]) x := by
  obtain ⟨n, hn, hx⟩ := h
  exact ⟨n, by simp [hn], hx⟩

/-- What is led past identities is still read, if what the identities lead to has been read. -/
lemma ReadBy.sourceOf (hx : ReadBy (ps ++ [p]) x)
    (hsource : ∀ {x e}, s.elisions.get? x = some e → ReadBy ps e.source) :
    ReadBy (ps ++ [p]) (s.sourceOf x) := by
  unfold ImportState.sourceOf
  cases he : s.elisions.get? x with
  | none => exact hx
  | some e => exact (hsource he).append

lemma ReadBy.of_mem (hx : x ∈ p.message.inputs) : ReadBy (ps ++ [p]) x :=
  ⟨p.message, by simp [Passage.messages], hx⟩

lemma Run.exists_reader (run : Run m ps rest s) (h : ReadBy ps x) : ∃ n ∈ m.nodes, x ∈ n.inputs := by
  obtain ⟨n, hn, hx⟩ := h
  refine ⟨n, ?_, hx⟩
  rw [← run.messages]
  exact List.mem_append_left _ hn

lemma generated_shapeOperand (n : Node) (target : List Int) :
    Generated (n.shapeOperand target).name :=
  ⟨n.name.toList, String.toList_append.symm⟩

/-- Nothing that has been read is written by the messages that are left. -/
lemma Run.not_written_of_readBy (hm : m.WellFormed) (run : Run m ps rest s) (h : ReadBy ps x) :
    x ∉ ModelMessage.written rest := by
  obtain ⟨n, hn, hx⟩ := h
  obtain ⟨before, after, hsplit⟩ := List.append_of_mem hn
  have hnodes : m.nodes = before ++ n :: (after ++ rest) := by
    rw [← run.messages, hsplit]
    simp
  have := hm.not_written_of_read hnodes hx
  rw [written_cons, written_append] at this
  exact fun hw => this (by simp [hw])

lemma not_written_of_generated (hgen : m.NoGenerated) (h : Generated x) :
    x ∉ ModelMessage.written m.nodes := by
  intro hw
  obtain ⟨-, n, hn, hx⟩ := ModelMessage.mem_written.mp hw
  refine hgen x ?_ h
  simp only [valueNames, List.mem_append, List.mem_flatMap]
  exact .inr ⟨n, hn, .inr hx⟩

/-- The operands of a passage are read by its messages, or by those before, or one is the shape that a
Reshape gets which was an Unsqueeze. -/
lemma Step.Body.reads_or_shape (hname : ∀ {x u}, s.registry.resolve x = .ok u → u.name = x)
    (step : Step.Body s p) {lead : String → String} (hlead : Step.Leads s p lead)
    (hv : v ∈ p.typed.inputs) : (∃ x, ReadBy (ps ++ [p]) x ∧ v.name = lead x) ∨
      p.lifted.operator = .unsqueeze ∧ p.typed.operator = .reshape ∧
        v.name = p.lifted.shapeOperandName := by
  obtain ⟨k, hk⟩ := List.getElem?_of_mem hv
  cases step.operand hlead hk with
  | @read x u message resolve value =>
    refine .inl ⟨x, .of_mem (List.mem_of_getElem? message), ?_⟩
    rw [value.name, hname resolve]
  | @lifted x u _ _ _ message resolve _ _ _ _ _ value =>
    refine .inl ⟨x, .of_mem (List.mem_of_getElem? message), ?_⟩
    rw [value, ← hname resolve]
    rfl
  | @bias x u next taken _ next_eq read resolve _ value =>
    refine .inl ⟨x, ⟨next, ?_, read⟩, ?_⟩
    · simp [Passage.messages, taken, next_eq]
    · rw [value, ← hname resolve]
  | shape _ operator operator' value => exact .inr ⟨operator, operator', by rw [value]; rfl⟩

/-- The operands of a passage are read by its messages, or by those before, or are generated. -/
lemma Step.Body.reads (hname : ∀ {x u}, s.registry.resolve x = .ok u → u.name = x)
    (step : Step.Body s p) {lead : String → String} (hlead : Step.Leads s p lead)
    (hv : v ∈ p.typed.inputs) :
    (∃ x, ReadBy (ps ++ [p]) x ∧ v.name = lead x) ∨ Generated v.name :=
  (step.reads_or_shape hname hlead hv).imp_right fun ⟨_, _, e⟩ => e ▸ generated_shapeOperand _ []

/-- Why the node of the passage `q`, which stands at the place `i`, is dropped. -/
inductive Dropped (ps : List Passage) (s : ImportState) (i : Nat) (q : Passage) : Prop where
  | elided {x : String} {e : Elision} (elision : s.elisions.get? x = some e) (place : e.place = i)
  | lifted {before after : List Passage} {p : Passage} {w : Value} (split : ps = before ++ p :: after)
      (mem : q ∈ before) (input : w ∈ p.typed.inputs) (literal : w.literal.isSome)
      (written : q.written = [w.name])
      (lifts : ImportState.liftsConstants p.lifted.operator = true)

/-- What is known of the nodes that are dropped, and of the names that are led past an identity,
after the passages `ps`. -/
structure Tracks (m : ModelMessage) (ps : List Passage) (s : ImportState) : Prop where
  nodes : s.nodes = ps.map Passage.final
  elided : ∀ {x e}, s.elisions.get? x = some e →
    e.place ∈ s.removed ∧ ∃ q, ps[e.place]? = some q ∧ q.written = [x]
  source_kept : ∀ {x e}, s.elisions.get? x = some e → s.elisions.get? e.source = none
  source_read : ∀ {x e}, s.elisions.get? x = some e → ReadBy ps e.source
  source_bare : ∀ {x e}, s.elisions.get? x = some e → e.source ≠ "" →
    e.source ∉ m.initializerNames
  constant : ∀ {x i}, s.constants.get? x = some i → ∃ q, ps[i]? = some q ∧ q.written = [x] ∧
    ImportState.isTransparent q.typed.operator = true
  removed : ∀ {i}, i ∈ s.removed → ∃ q, ps[i]? = some q ∧
    ImportState.isTransparent q.typed.operator = true ∧ Dropped ps s i q
  reads : ∀ {p v}, p ∈ ps → v ∈ p.typed.inputs → ReadBy ps v.name ∨ Generated v.name
  kept : ∀ {k p v}, ps[k]? = some p → k ∉ s.removed → v ∈ p.typed.inputs →
    s.elisions.get? v.name = none
  literal : ∀ {p v}, p ∈ ps → v ∈ p.typed.inputs → v.literal.isSome →
    v.name ∈ m.initializerNames ∨ Generated v.name ∨
      ∃ j q, ps[j]? = some q ∧ q.written = [v.name] ∧ j ∈ s.removed

namespace Tracks

lemma start : Tracks m [] { registry := r } where
  nodes := rfl
  elided h := by simp at h
  source_kept h := by simp at h
  source_read h := by simp at h
  source_bare h := by simp at h
  constant h := by simp at h
  removed h := by simp at h
  reads h := by simp at h
  kept h := by simp at h
  literal h := by simp at h

lemma place_eq (h : Tracks m ps s) : s.place = ps.length := by
  rw [ImportState.place, h.nodes, List.length_map]

lemma getElem?_place (h : Tracks m ps s) : (ps ++ [p])[s.place]? = some p := by
  simp [h.place_eq]

lemma sourceOf_kept (h : Tracks m ps s) (x : String) :
    s.elisions.get? (s.sourceOf x) = none := by
  unfold ImportState.sourceOf
  cases he : s.elisions.get? x with
  | none => exact he
  | some e => exact h.source_kept he

lemma readBy_sourceOf (h : Tracks m ps s) (hx : ReadBy (ps ++ [p]) x) :
    ReadBy (ps ++ [p]) (s.sourceOf x) :=
  hx.sourceOf h.source_read

/-- What was known before a passage and what the passage adds, where the file keeps them apart. -/
structure Fresh (m : ModelMessage) (ps : List Passage) (p : Passage) : Prop where
  /-- What has been read before is not written now. -/
  read : ∀ {x}, ReadBy ps x → x ∉ p.written
  /-- What the node reads itself is not written now. -/
  own : ∀ {x}, x ∈ p.message.inputs → x ∉ p.written
  /-- What has been written before is not written now. -/
  written : ∀ {q x}, q ∈ ps → x ∈ q.written → x ∉ p.written
  generated : ∀ {q x}, q ∈ ps ++ [p] → Generated x → x ∉ q.written
  single : ∀ {y ys}, ImportState.isTransparent p.typed.operator = true → p.outputNames = y :: ys →
    p.written = [y]

lemma messages_subset (next : p.next = rest.head?) : p.messages ⊆ p.message :: rest := by
  unfold Passage.messages
  cases p.consumed <;> cases rest <;> simp [next]

lemma fresh (hm : m.WellFormed) (hgen : m.NoGenerated) (reg : Registered m r₀ ps s.registry)
    (hp : p.Writes) (run : Run m ps (p.message :: rest) s) (next : p.next = rest.head?)
    (step : Step.Body s p) : Fresh m ps p := by
  have hnodes := run.messages
  have hrest : p.written ⊆ ModelMessage.written (p.message :: rest) := fun x hx => by
    obtain ⟨hne, n, hn, hxn⟩ := mem_written.mp (hp.written_subset hx)
    exact mem_written.mpr ⟨hne, n, messages_subset next hn, hxn⟩
  have hmodel : p.written ⊆ ModelMessage.written m.nodes := fun x hx => by
    rw [← hnodes, written_append]
    exact List.mem_append_right _ (hrest hx)
  refine ⟨fun hx hw => run.not_written_of_readBy hm hx (hrest hw),
    fun hx hw => hm.not_written_of_read hnodes.symm hx (hrest hw), fun {q x} hq hx hw => ?_,
    fun {q x} hq hx hw => ?_, fun {y ys} ht hy => ?_⟩
  · refine hm.disjoint hnodes.symm ?_ (hrest hw)
    obtain ⟨hne, n, hn, hxn⟩ := mem_written.mp ((reg.writes q hq).written_subset hx)
    exact mem_written.mpr ⟨hne, n, List.mem_flatMap.mpr ⟨q, hq, hn⟩, hxn⟩
  · refine not_written_of_generated hgen hx ?_
    rw [List.mem_append, List.mem_singleton] at hq
    rcases hq with hq | rfl
    · exact reg.written q hq hw
    · exact hmodel hw
  · have hmem : p.message ∈ m.nodes := by simp [← hnodes]
    obtain ⟨z, hz, hnames⟩ := step.single hm hmem ht
    obtain ⟨rfl, rfl⟩ : z = y ∧ [] = ys := by simpa [hnames] using hy
    rw [hp.written, hnames]
    simp [named, hz]

/-- What a passage adds to the names that are led past an identity. -/
structure NewElision (m : ModelMessage) (s : ImportState) (p : Passage) (s' : ImportState)
    (x : String) (e : Elision) : Prop where
  written : p.written = [x]
  operator : p.typed.operator = .identity
  place : e.place = s.place
  removed : s.place ∈ s'.removed
  source : ∃ a ∈ p.message.inputs, e.source = s.sourceOf a ∧ (a ≠ "" → a ∉ m.initializerNames)

lemma removed_subset (step : Step s p s') : p.elision.removed ⊆ s'.removed := by
  cases step.literals with
  | writes _ _ removed => rw [removed]; exact List.Subset.refl _
  | reads old => exact old

lemma removed_mono (step : Step s p s') : s.removed ⊆ s'.removed := by
  refine List.Subset.trans ?_ (removed_subset step)
  cases step.elision with
  | past _ removed => rw [removed]; exact List.Subset.refl _
  | out _ _ _ _ _ _ removed => exact fun i hi => (removed i).mpr (.inr hi)

/-- What was led past an identity before a passage is not written now. -/
lemma not_written_of_elided (h : Tracks m ps s) (new : Fresh m ps p) {e : Elision}
    (he : s.elisions.get? x = some e) : x ∉ p.written := by
  obtain ⟨-, q, hq, hw⟩ := h.elided he
  exact new.written (List.mem_of_getElem? hq) (by simp [hw])

/-- A passage leads at most the name past its node that the node writes itself. -/
lemma elisions_step (hm : m.WellFormed) (reg : Registered m r₀ ps s.registry) (new : Fresh m ps p)
    (step : Step s p s') :
    (∀ x, x ∉ p.written → s'.elisions.get? x = s.elisions.get? x) ∧
      ∀ x e, s'.elisions.get? x = some e →
        s.elisions.get? x = some e ∨ NewElision m s p s' x e := by
  cases step.elision with
  | past _ _ elisions =>
    rw [elisions]
    exact ⟨fun _ _ => rfl, fun _ _ => .inl⟩
  | @out a y u ys operator _ message outputs resolve bare removed elisions =>
    have hw : p.written = [y] := new.single (by simp [operator, ImportState.isTransparent]) outputs
    rw [elisions, hw]
    refine ⟨fun x hx => Table.get?_insert_of_ne _ _ (by simpa using hx), fun x e he => ?_⟩
    by_cases hx : x = y
    · subst hx
      rw [Table.get?_insert_self] at he
      obtain rfl := Option.some.inj he
      refine .inr ⟨hw, operator, rfl, removed_subset step ((removed _).mpr (.inl rfl)), a, message,
        ?_, fun ha => ?_⟩
      · rw [reg.name_resolve resolve]
      · rw [← reg.isSome_literal_resolve hm ha resolve, bare]
        simp
    · exact .inl (by rwa [Table.get?_insert_of_ne _ _ hx] at he)

lemma dropped_step (new : Fresh m ps p) (h : Tracks m ps s)
    (hsame : ∀ x, x ∉ p.written → s'.elisions.get? x = s.elisions.get? x)
    (hd : Dropped ps s i q) : Dropped (ps ++ [p]) s' i q := by
  cases hd with
  | @elided x e elision place =>
    refine .elided (x := x) (e := e) ?_ place
    rw [hsame x (h.not_written_of_elided new elision), elision]
  | lifted split mem input literal written lifts =>
    exact .lifted (by rw [split]; simp; rfl) mem input literal written lifts

/-- Why nodes are dropped after a passage. -/
lemma removed_step (h : Tracks m ps s) (new : Fresh m ps p) (step : Step s p s')
    (hsame : ∀ x, x ∉ p.written → s'.elisions.get? x = s.elisions.get? x) (hi : i ∈ s'.removed) :
    ∃ q, (ps ++ [p])[i]? = some q ∧ ImportState.isTransparent q.typed.operator = true ∧
      Dropped (ps ++ [p]) s' i q := by
  have hbefore : i ∈ s.removed → ∃ q, (ps ++ [p])[i]? = some q ∧
      ImportState.isTransparent q.typed.operator = true ∧ Dropped (ps ++ [p]) s' i q := by
    intro hi
    obtain ⟨q, hq, ht, hd⟩ := h.removed hi
    exact ⟨q, getElem?_append_of_some hq, ht, dropped_step new h hsame hd⟩
  have helision : i ∈ p.elision.removed → ∃ q, (ps ++ [p])[i]? = some q ∧
      ImportState.isTransparent q.typed.operator = true ∧ Dropped (ps ++ [p]) s' i q := by
    intro hi
    cases step.elision with
    | past _ removed => exact hbefore (removed ▸ hi)
    | out operator _ _ _ _ _ removed elisions =>
      rcases (removed i).mp hi with rfl | hi
      · refine ⟨p, h.getElem?_place, by simp [operator, ImportState.isTransparent], ?_⟩
        exact .elided (by rw [elisions, Table.get?_insert_self]) rfl
      · exact hbefore hi
  cases step.literals with
  | writes _ _ removed => exact helision (removed ▸ hi)
  | reads _ removed =>
    rcases removed i hi with hi | ⟨hlifts, w, hw, hlit, hknown⟩
    · exact helision hi
    · obtain ⟨q, hq, hwritten, ht⟩ := h.constant hknown
      exact ⟨q, getElem?_append_of_some hq, ht,
        .lifted rfl (List.mem_of_getElem? hq) hw hlit hwritten hlifts⟩

/-- Arrays of the file are not led past an identity. -/
lemma sourceOf_array (hm : m.WellFormed) (reg : Registered m r₀ ps s.registry) (h : Tracks m ps s)
    (hx : x ∈ m.initializerNames) : s.sourceOf x = x := by
  unfold ImportState.sourceOf
  cases he : s.elisions.get? x with
  | none => rfl
  | some e =>
    obtain ⟨-, q, hq, hw⟩ := h.elided he
    have hwritten := reg.written q (List.mem_of_getElem? hq) (by simp [hw] : x ∈ q.written)
    exact absurd hx (hm.written_initializers x hwritten)

/-- A literal that is read is led to an array of the file. -/
lemma leads_literal (hm : m.WellFormed) (reg : Registered m r₀ ps s.registry) (h : Tracks m ps s)
    {lead : String → String} (hlead : Step.Leads s p lead) (hu : s.registry.resolve x = .ok u)
    (hlit : u.literal.isSome) : lead x ∈ m.initializerNames := by
  have hmem := (reg.mem_initializerNames_of_literal hm hu hlit).2
  rcases hlead.cases with rfl | ⟨rfl, -⟩
  · rwa [h.sourceOf_array hm reg hmem]
  · exact hmem

/-- A literal operand is an array of the file, generated, or lifted from a node that is dropped. -/
lemma literal_step (hm : m.WellFormed) (reg : Registered m r₀ ps s.registry) (h : Tracks m ps s)
    (step : Step s p s') {lead : String → String} (hlead : Step.Leads s p lead)
    (hv : v ∈ p.typed.inputs) (hlit : v.literal.isSome) :
    v.name ∈ m.initializerNames ∨ Generated v.name ∨
      ∃ j q, ps[j]? = some q ∧ q.written = [v.name] ∧ j ∈ s'.removed := by
  have harray : ∀ {x u}, s.registry.resolve x = .ok u → u.literal.isSome →
      lead u.name ∈ m.initializerNames := fun hu hlit => by
    rw [reg.name_resolve hu]
    exact h.leads_literal hm reg hlead hu hlit
  obtain ⟨k, hk⟩ := List.getElem?_of_mem hv
  cases step.operand hlead hk with
  | read _ resolve value =>
    rw [value.isSome_literal] at hlit
    rw [value.name]
    exact .inl (harray resolve hlit)
  | lifted _ _ _ known _ _ dropped value =>
    obtain ⟨q, hq, hw, -⟩ := h.constant known
    refine .inr (.inr ⟨_, q, hq, ?_, ?_⟩)
    · rw [hw, value]
      rfl
    · rw [step.state]
      exact dropped
  | bias _ _ _ _ resolve known value => exact .inl (value ▸ harray resolve known)
  | shape _ _ _ value => exact .inr (.inl (value ▸ generated_shapeOperand _ _))

/-- A name that an operand may be led to is not written by the node that reads it. -/
lemma sourceOf_not_written (h : Tracks m ps s) (new : Fresh m ps p) (hx : x ∈ p.message.inputs) :
    s.sourceOf x ∉ p.written := by
  unfold ImportState.sourceOf
  cases he : s.elisions.get? x with
  | none => exact new.own hx
  | some e => exact new.read (h.source_read he)

/-- What is no array of the file is not led to one. -/
lemma sourceOf_notMem_arrays (h : Tracks m ps s) (hbare : x ≠ "" → x ∉ m.initializerNames)
    (hne : s.sourceOf x ≠ "") : s.sourceOf x ∉ m.initializerNames := by
  unfold ImportState.sourceOf at hne ⊢
  cases he : s.elisions.get? x with
  | none => simp only [he] at hne ⊢; exact hbare hne
  | some e => simp only [he] at hne ⊢; exact h.source_bare he hne

/-- A name that stands for a literal is written by one passage, whose node may be left out. -/
lemma constant_step (h : Tracks m ps s) (new : Fresh m ps p) (step : Step s p s')
    (hc : s'.constants.get? x = some i) : ∃ q, (ps ++ [p])[i]? = some q ∧ q.written = [x] ∧
      ImportState.isTransparent q.typed.operator = true := by
  have hold : s.constants.get? x = some i → ∃ q, (ps ++ [p])[i]? = some q ∧ q.written = [x] ∧
      ImportState.isTransparent q.typed.operator = true := fun hc => by
    obtain ⟨q, hq, hw⟩ := h.constant hc
    exact ⟨q, getElem?_append_of_some hq, hw⟩
  cases step.literals with
  | writes operator outputs _ constants =>
    rw [constants, Table.get?_insert] at hc
    split at hc
    · next hx =>
      obtain rfl := Option.some.inj hc
      exact ⟨p, h.getElem?_place, hx ▸ new.single operator outputs, operator⟩
    · exact hold hc
  | reads _ _ constants => exact hold (constants ▸ hc)

/-- The operands of a passage have names that are read, or are generated. -/
lemma reads_step (reg : Registered m r₀ ps s.registry) (h : Tracks m ps s) (step : Step s p s')
    (hv : v ∈ p.typed.inputs) : ReadBy (ps ++ [p]) v.name ∨ Generated v.name := by
  obtain ⟨lead, hlead⟩ := step.leads
  obtain ⟨x, hx, e⟩ | hg : (∃ x, ReadBy (ps ++ [p]) x ∧ v.name = lead x) ∨ Generated v.name :=
    step.reads reg.name_resolve hlead hv
  · refine .inl ?_
    rw [e]
    rcases hlead.cases with rfl | ⟨rfl, -⟩
    · exact h.readBy_sourceOf hx
    · exact hx
  · exact .inr hg

/-- No operand of a passage that is kept can be led past an identity any more. -/
lemma kept_step (reg : Registered m r₀ ps s.registry) (h : Tracks m ps s) (new : Fresh m ps p)
    (step : Step s p s') (hk : s.place ∉ s'.removed) (hv : v ∈ p.typed.inputs) :
    s'.elisions.get? v.name = none := by
  cases step.elision with
  | out _ _ _ _ _ _ removed =>
    exact absurd (removed_subset step ((removed _).mpr (.inl rfl))) hk
  | past leads _ elisions =>
    rw [elisions]
    obtain ⟨x, -, e⟩ | hg : (∃ x, ReadBy (ps ++ [p]) x ∧ v.name = s.sourceOf x) ∨
        Generated v.name := step.reads reg.name_resolve leads hv
    · rw [e]
      exact h.sourceOf_kept x
    · rw [Option.eq_none_iff_forall_ne_some]
      intro e he
      obtain ⟨-, q, hq, hw⟩ := h.elided he
      exact new.generated (List.mem_append_left [p] (List.mem_of_getElem? hq)) hg (by simp [hw])

/-- What a bare operand is led to is no array of the file. -/
lemma notMem_arrays_of_bare (hm : m.WellFormed) (reg : Registered m r₀ ps s.registry)
    (h : Tracks m ps s) (hu : s.registry.resolve x = .ok u) (hbare : u.literal = none)
    (hne : s.sourceOf x ≠ "") : s.sourceOf x ∉ m.initializerNames := by
  refine h.sourceOf_notMem_arrays (fun hx => ?_) hne
  rw [← reg.isSome_literal_resolve hm hx hu, hbare]
  simp

/-- A passage keeps what is known. -/
theorem step (hm : m.WellFormed) (reg : Registered m r₀ ps s.registry) (h : Tracks m ps s)
    (new : Fresh m ps p) (step : Step s p s') : Tracks m (ps ++ [p]) s' := by
  obtain ⟨hsame, hcases⟩ := elisions_step hm reg new step
  have hsub : s.removed ⊆ s'.removed := removed_mono step
  exact {
    nodes := by rw [step.nodes, h.nodes, List.map_append]; rfl
    elided := by
      intro x e he
      rcases hcases x e he with he | he
      · obtain ⟨hr, q, hq, hw⟩ := h.elided he
        exact ⟨hsub hr, q, getElem?_append_of_some hq, hw⟩
      · exact ⟨he.place ▸ he.removed, p, he.place ▸ h.getElem?_place, he.written⟩
    source_kept := by
      intro x e he
      rcases hcases x e he with he | he
      · rw [hsame _ (new.read (h.source_read he)), h.source_kept he]
      · obtain ⟨a, ha, hsrc, -⟩ := he.source
        rw [hsrc, hsame _ (h.sourceOf_not_written new ha), h.sourceOf_kept]
    source_read := by
      intro x e he
      rcases hcases x e he with he | he
      · exact (h.source_read he).append
      · obtain ⟨a, ha, hsrc, -⟩ := he.source
        exact hsrc ▸ h.readBy_sourceOf (.of_mem ha)
    source_bare := by
      intro x e he hne
      rcases hcases x e he with he | he
      · exact h.source_bare he hne
      · obtain ⟨a, -, hsrc, hbare⟩ := he.source
        rw [hsrc] at hne ⊢
        exact h.sourceOf_notMem_arrays hbare hne
    constant := constant_step h new step
    removed := removed_step h new step hsame
    reads := by
      intro q v hq hv
      rcases List.mem_append.mp hq with hq | hq
      · exact (h.reads hq hv).imp_left ReadBy.append
      · exact reads_step reg h step (List.mem_singleton.mp hq ▸ hv)
    kept := by
      intro k q v hq hk hv
      rcases getElem?_concat_eq_some.mp hq with hq | ⟨rfl, rfl⟩
      · have hv' : v.name ∉ p.written := by
          rcases h.reads (List.mem_of_getElem? hq) hv with hr | hg
          · exact new.read hr
          · exact new.generated (by simp) hg
        rw [hsame _ hv']
        exact h.kept hq (fun hr => hk (hsub hr)) hv
      · exact kept_step reg h new step (h.place_eq ▸ hk) hv
    literal := by
      intro q v hq hv hlit
      have hlater : (∃ j q, ps[j]? = some q ∧ q.written = [v.name] ∧ j ∈ s'.removed) →
          ∃ j q, (ps ++ [p])[j]? = some q ∧ q.written = [v.name] ∧ j ∈ s'.removed := by
        rintro ⟨j, q, hq, hw, hj⟩
        exact ⟨j, q, getElem?_append_of_some hq, hw, hj⟩
      rcases List.mem_append.mp hq with hq | hq
      · refine (h.literal hq hv hlit).imp_right (Or.imp_right fun ⟨j, q, hq, hw, hj⟩ => ?_)
        exact hlater ⟨j, q, hq, hw, hsub hj⟩
      · obtain ⟨lead, hlead⟩ := step.leads
        rw [List.mem_singleton.mp hq] at hv
        exact (literal_step hm reg h step hlead hv hlit).imp_right (Or.imp_right hlater) }

end Tracks

/-- What is known of the nodes that are dropped, and of the names that are led past an identity, after
a run over a well-formed model. -/
theorem Run.tracks (hm : m.WellFormed) (hin : m.InputsNamed) (hgen : m.NoGenerated)
    (run : Run m ps rest s) : Tracks m ps s := by
  induction run with
  | start => exact .start
  | @step ps p rest s s' run next step ih =>
    obtain ⟨r₀, hr⟩ := run.registry_eq_ok
    have reg := run.registered hm hin hr
    have hp := (Run.step run next step).registered hm hin hr
    exact Tracks.step hm reg ih
      (Tracks.fresh hm hgen reg (hp.writes p (by simp)) run next step.toBody) step

end TensorGraph
