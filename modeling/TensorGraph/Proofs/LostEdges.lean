import TensorGraph.Proofs.Import.Edges
import TensorGraph.Proofs.Import.Messages
import TensorGraph.Proofs.Naming

/-!
# Lost edges

A linear layer takes over the addition after a product, and with it the name of what the product
wrote. A node that still reads that name is left with an operand that is neither named nor a literal.
This is the only way in which an operand that the file names gets lost (`noLostEdge_iff`).
-/

namespace TensorGraph

open Onnx ModelMessage Registry

variable {m : ModelMessage} {r r₀ : Registry} {s s' : ImportState} {p q : Passage}
  {ps before after : List Passage} {rest : List NodeMessage} {n n' : Node} {v w : Value} {x : String}
  {i k : Nat} {checkFirst : Bool}

/-- A name that a node reads leads to the same name at the end of a run as at the time of the node,
and what the node drops stays dropped. -/
lemma Run.split_led (hm : m.WellFormed) (hin : m.InputsNamed) (hgen : m.NoGenerated)
    (run : Run m ps rest s) (h : ps = before ++ p :: after) :
    ∃ rest₁ s₁ s₂, Run m before (p.message :: rest₁) s₁ ∧ p.next = rest₁.head? ∧ Step s₁ p s₂ ∧
      s₂.removed ⊆ s.removed ∧ ∀ x ∈ p.message.inputs, s.sourceOf x = s₁.sourceOf x := by
  have hsource : ∀ {ps q rest s s' x}, Run m ps (q.message :: rest) s → q.next = rest.head? →
      Step s q s' → x ∉ q.written → s'.sourceOf x = s.sourceOf x := by
    intro ps q rest s s' x run next step hx
    obtain ⟨r₀, hr⟩ := run.registry_eq_ok
    have new := run.fresh hm hin next step.toBody hgen
    have hsame := (Tracks.elisions_step hm (run.registered hm hin hr) new step).1
    simp only [ImportState.sourceOf, hsame x hx]
  obtain ⟨rest₁, s₁, s₂, run₁, next₁, step₁, hkeep⟩ := run.split h
  refine ⟨rest₁, s₁, s₂, run₁, next₁, step₁, ?_⟩
  refine hkeep (fun t => s₂.removed ⊆ t.removed ∧
    ∀ x ∈ p.message.inputs, t.sourceOf x = s₁.sourceOf x) ⟨List.Subset.refl _, fun x hx => ?_⟩ ?_
  · have new := run₁.fresh hm hin next₁ step₁.toBody hgen
    exact hsource run₁ next₁ step₁ (new.own hx)
  · rintro ps q rest s s' hp run next step ⟨hremoved, hled⟩
    refine ⟨List.Subset.trans hremoved (Tracks.removed_mono step), fun x hx => ?_⟩
    have new := run.fresh hm hin next step.toBody hgen
    have hread : x ∉ q.written :=
      new.read ⟨p.message, List.mem_flatMap_of_mem hp (List.mem_cons_self ..), hx⟩
    rw [hsource run next step hread, hled x hx]

/-- The second operand of a Reshape that was an Unsqueeze is a literal. -/
lemma Step.Body.literal_of_reshaped (h : Step.Body s p) (hp : p.Reshaped)
    (hv : p.typed.inputs[1]? = some v) : v.literal.isSome := by
  rw [h.inputs_typed] at hv
  have hop := hp.2
  rw [h.operator_typed] at hop
  cases h.reshapes with
  | same node => simp [node, hp.1] at hop
  | reshape _ _ _ _ _ _ node =>
    rw [node] at hv
    rw [← Option.some.inj hv]
    rfl

lemma Onnx.ModelMessage.OperandsDefined.mem {raw : NodeMessage} (h : m.OperandsDefined)
    (hraw : raw ∈ m.nodes) (hx : x ∈ raw.inputs) (hne : x ≠ "") :
    x ∈ m.inputNames ∨ x ∈ m.initializerNames ∨ x ∈ ModelMessage.written m.nodes := by
  obtain ⟨i, hi⟩ := List.getElem?_of_mem hraw
  refine (h i (List.getElem?_eq_some_iff.mp hi).1 raw hi x (mem_named.mpr ⟨hx, hne⟩)).imp id
    (Or.imp id fun hw => ?_)
  rw [← List.take_append_drop i m.nodes, written_append]
  exact List.mem_append_left _ hw

/-- What a name leads to is read no later than the name, and not written from then on. -/
lemma Run.read_sourceOf (hm : m.WellFormed) (tracks : Tracks m ps s)
    (run : Run m ps (p.message :: rest) s) (hx : x ∈ p.message.inputs) :
    (∃ raw ∈ m.nodes, s.sourceOf x ∈ raw.inputs) ∧
      s.sourceOf x ∉ ModelMessage.written (p.message :: rest) := by
  unfold ImportState.sourceOf
  cases he : s.elisions.get? x with
  | none =>
    exact ⟨⟨p.message, by simp [← run.messages], hx⟩,
      hm.not_written_of_read run.messages.symm hx⟩
  | some e =>
    have hread := tracks.source_read he
    exact ⟨run.exists_reader hread, run.not_written_of_readBy hm hread⟩

/-- The value is neither named nor a literal. -/
def Value.Missing (v : Value) : Prop := v.name = "" ∧ v.literal = none

instance : DecidablePred Value.Missing := fun _ => by
  unfold Value.Missing
  infer_instance

/-- Where an operand of a node that is kept is missing, the file has left it out, or has it from an
identity of what is left out. -/
def ImportState.NoLostEdge (s : ImportState) (ps : List Passage) : Prop :=
  ∀ (i k : Nat) (p : Passage) (v : Value), ps[i]? = some p → i ∉ s.removed →
    p.final.inputs[k]? = some v → v.Missing →
      ∃ x, p.message.inputs[k]? = some x ∧ s.sourceOf x = ""

/-- A node that is kept reads a name that is retired. -/
def ImportState.ReadsRetired (s : ImportState) (ps : List Passage) : Prop :=
  ∃ (i k : Nat) (p : Passage) (x : String), ps[i]? = some p ∧ i ∉ s.removed ∧
    p.message.inputs[k]? = some x ∧ ¬ (k = 1 ∧ p.Reshaped) ∧ ∃ q ∈ ps, s.sourceOf x ∈ q.retired

section Runs

variable (hm : m.WellFormed) (hin : m.InputsNamed) (hgen : m.NoGenerated)

include hm hin hgen

/-- What the operands of a node that is kept are led to. -/
lemma lead_of_kept (run : Run m ps [] s) (hps : ps = before ++ p :: after)
    (hkept : before.length ∉ s.removed) :
    ∃ rest₁ s₁ s₂, Run m before (p.message :: rest₁) s₁ ∧ Step s₁ p s₂ ∧
      Step.Leads s₁ p s₁.sourceOf ∧ s₂.removed ⊆ s.removed ∧
        ∀ x ∈ p.message.inputs, s.sourceOf x = s₁.sourceOf x := by
  obtain ⟨rest₁, s₁, s₂, run₁, next, step, hremoved, hled⟩ := run.split_led hm hin hgen hps
  refine ⟨rest₁, s₁, s₂, run₁, step, ?_, hremoved, hled⟩
  cases step.elision with
  | past leads => exact leads
  | out _ _ _ _ _ _ removed =>
    have hplace : s₁.place = before.length := (run₁.tracks hm hin hgen).place_eq
    have hmem := Tracks.removed_subset step ((removed _).mpr (.inl rfl))
    exact absurd (hremoved (hplace ▸ hmem)) hkept

/-- What is retired stands for nothing: where a node reads it, an operand is missing. -/
lemma missing_of_retired (run : Run m ps [] s) (hps : ps = before ++ p :: after)
    (hkept : before.length ∉ s.removed) (hx : p.message.inputs[k]? = some x)
    (hk : ¬ (k = 1 ∧ p.Reshaped)) (hq : q ∈ ps) (hret : s.sourceOf x ∈ q.retired) :
    ∃ v, p.final.inputs[k]? = some v ∧ v.Missing := by
  obtain ⟨r₀, hr⟩ := run.registry_eq_ok
  have edged := run.edged hm hin hgen hr hps
  obtain ⟨rest₁, s₁, s₂, run₁, step, hlead, -, hled⟩ := lead_of_kept hm hin hgen run hps hkept
  have reg := run₁.registered hm hin hr
  have tracks := run₁.tracks hm hin hgen
  obtain ⟨v, u, hv, hu, hname, hlit⟩ := step.operand_of_message hlead hx hk
  rw [reg.name_resolve hu] at hname
  rw [hled x (List.mem_of_getElem? hx), ← hname] at hret
  have hwritten := run.written_of_retired hq hret
  have harray := hm.written_initializers _ hwritten
  have hunwritten : ∀ p ∈ ps, v.name ∉ p.written :=
    fun p hp => run.not_written_of_retired hm hin hq hret hp
  have hbare : v.literal = none := by
    rw [← Option.not_isSome_iff_eq_none]
    rcases hlit with hlit | ⟨place, hplace⟩
    · rw [hlit]
      exact fun hlit => harray (hname ▸ tracks.leads_literal hm reg hlead hu hlit)
    · obtain ⟨q', hq', hw, -⟩ := tracks.constant hplace
      exact absurd (by simp [hw]) (hunwritten q' (by simp [hps, List.mem_of_getElem? hq']))
  refine ⟨p.recorded.renamedOperand v, ?_, ?_, literal_renamedOperand.trans hbare⟩
  · rw [edged.inputs, List.getElem?_map, hv]
    rfl
  · exact edged.name_of_unwritten (List.mem_of_getElem? hv) harray (reg.not_input hm hwritten)
      fun q hq => hunwritten q (by simp [hps, hq])

/-- What a node reads that stands for nothing has been retired, if the file defines it. -/
lemma retired_of_unwritten (hdef : m.OperandsDefined) (run : Run m ps (p.message :: rest) s)
    (hr : ofModel m = .ok r₀) (hx : x ∈ p.message.inputs) (hne : s.sourceOf x ≠ "")
    (hslot : r₀.slots.get? (s.sourceOf x) = none) (harray : s.sourceOf x ∉ m.initializerNames)
    (hunwritten : ∀ q ∈ ps, s.sourceOf x ∉ q.written) : ∃ q ∈ ps, s.sourceOf x ∈ q.retired := by
  have reg := run.registered hm hin hr
  obtain ⟨⟨raw, hraw, hread⟩, hlater⟩ := run.read_sourceOf hm (run.tracks hm hin hgen) hx
  have hwritten : s.sourceOf x ∈ ModelMessage.written m.nodes := by
    rcases hdef.mem hraw hread hne with hinput | hmem | hwritten
    · have := reg.declares.known (.inl hinput)
      simp [hslot] at this
    · exact absurd hmem harray
    · exact hwritten
  rw [← run.messages, written_append, List.mem_append, or_iff_left hlater] at hwritten
  obtain ⟨q, hq, hmem⟩ := reg.written_or_retired hwritten
  exact ⟨q, hq, hmem.resolve_left (hunwritten q hq)⟩

/-- Where an operand is missing that the file does not leave out, a node reads what is retired. -/
lemma retired_of_missing (hdef : m.OperandsDefined) (run : Run m ps [] s)
    (hps : ps = before ++ p :: after) (hkept : before.length ∉ s.removed)
    (hw : p.final.inputs[k]? = some w) (hmissing : w.Missing) :
    ∃ x, p.message.inputs[k]? = some x ∧ (s.sourceOf x = "" ∨
      ¬ (k = 1 ∧ p.Reshaped) ∧ ∃ q ∈ ps, s.sourceOf x ∈ q.retired) := by
  obtain ⟨r₀, hr⟩ := run.registry_eq_ok
  have edged := run.edged hm hin hgen hr hps
  obtain ⟨rest₁, s₁, s₂, run₁, step, hlead, -, hled⟩ := lead_of_kept hm hin hgen run hps hkept
  have reg := run₁.registered hm hin hr
  have tracks := run₁.tracks hm hin hgen
  rw [edged.inputs, List.getElem?_map, Option.map_eq_some_iff] at hw
  obtain ⟨v, hv, rfl⟩ := hw
  obtain ⟨hname, hlit⟩ := hmissing
  rw [literal_renamedOperand] at hlit
  rw [name_renamedOperand] at hname
  cases step.operand hlead hv with
  | lifted _ _ _ _ _ literal _ value =>
    have := isSome_literal_literalOf literal
    rw [value] at hlit
    exact absurd hlit (Option.isSome_iff_ne_none.mp this)
  | bias _ _ _ _ _ known value =>
    rw [value] at hlit
    exact absurd hlit (Option.isSome_iff_ne_none.mp known)
  | shape _ _ _ value => simp [value, Node.shapeOperand] at hlit
  | @read x u message resolve value =>
    have hx := List.mem_of_getElem? message
    have hreads : v.name = s₁.sourceOf x := value.name.trans (by rw [reg.name_resolve resolve])
    refine ⟨x, message, ?_⟩
    rw [hled x hx, ← hreads]
    by_cases hne : v.name = ""
    · exact .inl hne
    refine .inr ⟨fun ⟨hk, hp⟩ => ?_, ?_⟩
    · have := step.literal_of_reshaped hp (hk ▸ hv)
      simp [hlit] at this
    cases edged.names (List.mem_of_getElem? hv) hne with
    | array mem =>
      have hbare : u.literal = none := by
        rw [← Option.not_isSome_iff_eq_none, ← value.isSome_literal, hlit]
        simp
      rw [hreads] at mem hne
      exact absurd mem (tracks.notMem_arrays_of_bare hm reg resolve hbare hne)
    | input _ _ eq =>
      rw [eq] at hname
      exact absurd hname (inputName_ne_empty _)
    | written _ _ _ eq =>
      rw [eq] at hname
      exact absurd hname (outputName_ne_empty _ _)
    | unknown slot unwritten mem =>
      rw [hreads] at hne slot unwritten mem ⊢
      obtain ⟨q, hq, hret⟩ :=
        retired_of_unwritten hm hin hgen hdef run₁ hr hx hne slot mem unwritten
      exact ⟨q, by simp [hps, hq], hret⟩

/-- An operand that the file names is lost exactly where a node that is kept reads what a product
wrote whose sum with a bias has been taken over. -/
theorem noLostEdge_iff (hdef : m.OperandsDefined) (h : m.importState checkFirst = .ok s) :
    ∃ ps, Run m ps [] s ∧ (s.NoLostEdge ps ↔ ¬ s.ReadsRetired ps) := by
  obtain ⟨ps, run⟩ := importState_eq_ok.mp (importState_of_check h)
  refine ⟨ps, run, fun hlost => ?_, fun hret i k p v hp hi hv hmissing => ?_⟩
  · rintro ⟨i, k, p, x, hp, hi, hx, hk, q, hq, hret⟩
    obtain ⟨before, after, hps, rfl⟩ := split_of_getElem? hp
    obtain ⟨v, hv, hmissing⟩ := missing_of_retired hm hin hgen run hps hi hx hk hq hret
    obtain ⟨y, hy, hempty⟩ := hlost _ _ _ _ hp hi hv hmissing
    obtain rfl := Option.some.inj (hx.symm.trans hy)
    exact (ModelMessage.mem_written.mp (run.written_of_retired hq hret)).1 hempty
  · obtain ⟨before, after, hps, rfl⟩ := split_of_getElem? hp
    obtain ⟨x, hx, hempty | ⟨hk, q, hq, hr⟩⟩ :=
      retired_of_missing hm hin hgen hdef run hps hi hv hmissing
    · exact ⟨x, hx, hempty⟩
    · exact absurd ⟨_, k, p, x, hp, hi, hx, hk, q, hq, hr⟩ hret

end Runs

/-- A product whose sum with a bias becomes a linear layer, and which a Relu reads as well. -/
def sharedProduct : ModelMessage where
  inputs := [{ name := "x", elementType := 7, dims := [.size 2, .size 3] }]
  outputs := [{ name := "y", elementType := 7, dims := [.size 2, .size 2] },
    { name := "z", elementType := 7, dims := [.size 2, .size 2] }]
  initializers := [
    { name := "w", dataType := 7, dims := [3, 2], int64s := [1, 2, 3, 4, 5, 6] },
    { name := "b", dataType := 7, dims := [2], int64s := [7, 8] }]
  nodes := [
    { operator := "MatMul", inputs := ["x", "w"], outputs := ["p"] },
    { operator := "Add", inputs := ["p", "b"], outputs := ["y"] },
    { operator := "Relu", inputs := ["p"], outputs := ["z"] }]

theorem noLostEdge_iff_sharedProduct :
    ∃ s ps, sharedProduct.importState false = .ok s ∧ Run sharedProduct ps [] s ∧
      (s.NoLostEdge ps ↔ ¬ s.ReadsRetired ps) := by
  obtain ⟨s, hs, -⟩ : ∃ s, sharedProduct.importState false = .ok s ∧ True :=
    Except.exists_ok (by decide +kernel)
  obtain ⟨ps, h⟩ := noLostEdge_iff (by decide) (by decide) (by decide) (by decide) hs
  exact ⟨s, ps, hs, h⟩

/-- The Relu has lost its operand, although the file leaves out none. -/
theorem sharedProduct_loses :
    sharedProduct.WellFormed ∧ sharedProduct.InputsNamed ∧ sharedProduct.ConstantsClosed ∧
      sharedProduct.NoGenerated ∧ sharedProduct.OperandsDefined ∧
        (∀ n ∈ sharedProduct.nodes, "" ∉ n.inputs) ∧
          ∃ g, sharedProduct.importGraph false = .ok g ∧ ∃ n ∈ g.nodes, ∃ v ∈ n.inputs, v.Missing :=
  ⟨by decide, by decide, by decide, by decide, by decide, by decide,
    Except.exists_ok (by decide +kernel)⟩

end TensorGraph
