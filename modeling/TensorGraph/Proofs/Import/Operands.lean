import TensorGraph.Proofs.Import.Trace

/-!
# Where the operands of a node come from

Before its last stages each operand of a node is one that the file names, with a literal perhaps
that its name stands for, the bias that a linear layer takes over, or the generated shape of a
Reshape (`Step.operand`).
-/

namespace TensorGraph

open Onnx ModelMessage Registry

variable {m : ModelMessage} {r r₀ : Registry} {s s' : ImportState} {p : Passage} {n n' : Node}
  {v w : Value} {vs ws : List Value} {x : String} {k : Nat}

/-- Where the operand `v` of a node at the place `k` comes from; `lead` is what becomes of the names
of the file. -/
inductive Passage.Operand (p : Passage) (s : ImportState) (lead : String → String) (k : Nat)
    (v : Value) : Prop where
  | read {x : String} {u : Value} (message : p.message.inputs[k]? = some x)
      (resolve : s.registry.resolve x = .ok u)
      (value : Value.Transposable { u with name := lead u.name } v)
  | lifted {x : String} {u a : Value} {place : Nat} {n : Node}
      (message : p.message.inputs[k]? = some x) (resolve : s.registry.resolve x = .ok u)
      (lifts : ImportState.liftsConstants p.lifted.operator = true)
      (known : s.constants.get? (lead u.name) = some place) (node : s.nodes[place]? = some n)
      (literal : ImportState.literalOf n = .ok a) (dropped : place ∈ p.lifting.removed)
      (value : v = { u with name := lead u.name }.copyFrom a)
  | bias {x : String} {u : Value} {next : NodeMessage} (taken : p.consumed = true)
      (place : k = p.message.inputs.length) (next_eq : p.next = some next) (read : x ∈ next.inputs)
      (resolve : s.registry.resolve x = .ok u) (known : u.literal.isSome = true)
      (value : v = { u with name := lead u.name })
  | shape {target : List Int} (place : k = 1) (operator : p.lifted.operator = .unsqueeze)
      (operator' : p.typed.operator = .reshape) (value : v = p.lifted.shapeOperand target)

lemma ImportState.Lifting.input (h : s.Lifting n s' n') (hw : n'.inputs[k]? = some w) :
    ∃ v, n.inputs[k]? = some v ∧
      (w = v ∨ liftsConstants n.operator = true ∧ s.Lifts v w ∧
        ∀ place, s.constants.get? v.name = some place → place ∈ s'.removed) := by
  cases h with
  | writes _ _ node => exact ⟨w, node ▸ hw, .inl rfl⟩
  | same _ _ node => exact ⟨w, node ▸ hw, .inl rfl⟩
  | operands _ lifts operands node drops =>
    rw [node] at hw
    cases hn : n.inputs with
    | nil =>
      rw [hn, List.drop_nil, List.forall₂_nil_left_iff] at operands
      simp [hn, operands] at hw
    | cons u us =>
      rw [hn] at operands
      cases k with
      | zero => exact ⟨u, rfl, .inl (by simpa [hn] using hw.symm)⟩
      | succ k =>
        obtain ⟨v, hv, hlift⟩ := forall₂_getElem? operands (by simpa [hn] using hw)
        refine ⟨v, by simpa using hv, .inr ⟨lifts, hlift, fun place hplace => ?_⟩⟩
        refine drops.mem_removed.mpr (.inr (List.mem_filterMap.mpr ⟨v, ?_, hplace⟩))
        rw [hn]
        exact List.mem_of_getElem? hv

lemma Node.Reshapes.input (h : n.Reshapes r n') (hw : n'.inputs[k]? = some w) :
    n.inputs[k]? = some w ∨ k = 1 ∧ n.operator = .unsqueeze ∧ n'.operator = .reshape ∧
      ∃ target, w = n.shapeOperand target := by
  cases h with
  | same node => exact .inl (node ▸ hw)
  | reshape operator inputs _ _ _ _ node =>
    rw [node] at hw
    rw [inputs]
    match k with
    | 0 => exact .inl hw
    | 1 => exact .inr ⟨rfl, operator, by rw [node], _, by simpa using hw.symm⟩
    | k + 2 => exact .inl hw

namespace Step

lemma Front.inputs_specialised (h : Front s p) :
    List.Forall₂ (fun x v => s.registry.resolve x = .ok v) p.message.inputs p.specialised.inputs := by
  rw [(specialise_ok h.specialise).2]
  exact (convert_ok h.convert).2.2.1

lemma Body.inputs_typed (h : Body s p) : p.typed.inputs = p.reshaped.inputs := by
  obtain ⟨outputs, -, hinfer⟩ := infer_ok h.infer
  rw [hinfer]

/-- The operands of a node after fusion: those of its message, and the bias. -/
lemma Front.input_fused (h : Front s p) (hv : p.fused.inputs[k]? = some v) :
    (∃ x u, p.message.inputs[k]? = some x ∧ s.registry.resolve x = .ok u ∧
      (v = u ∨ v = u.transpose ∧ p.fused.operator = .linear)) ∨
    p.consumed = true ∧ k = p.message.inputs.length ∧ ∃ next x, p.next = some next ∧
      x ∈ next.inputs ∧ s.registry.resolve x = .ok v ∧ v.literal.isSome = true := by
  have hread := h.inputs_specialised
  cases h.fuses with
  | same node =>
    obtain ⟨x, hx, hr⟩ := forall₂_getElem? hread (node ▸ hv)
    exact .inl ⟨x, v, hx, hr, .inl rfl⟩
  | product _ node =>
    obtain ⟨x, hx, hr⟩ := forall₂_getElem? hread (by simpa [node] using hv)
    exact .inl ⟨x, v, hx, hr, .inl rfl⟩
  | gemm _ operator' _ inputs =>
    obtain ⟨u, hu, htrans⟩ := forall₂_getElem? inputs hv
    obtain ⟨x, hx, hr⟩ := forall₂_getElem? hread hu
    exact .inl ⟨x, u, hx, hr, htrans.imp id fun e => ⟨e, operator'⟩⟩
  | @biased raw add bias o y os _ _ next_eq convert adds _ _ node taken =>
    rw [node] at hv
    rcases getElem?_concat_eq_some.mp hv with hv | ⟨rfl, rfl⟩
    · obtain ⟨x, hx, hr⟩ := forall₂_getElem? hread hv
      exact .inl ⟨x, v, hx, hr, .inl rfl⟩
    · obtain ⟨i, hi⟩ := List.getElem?_of_mem adds.bias_mem
      obtain ⟨x, hx, hr⟩ := forall₂_getElem? (convert_ok convert).2.2.1 hi
      exact .inr ⟨taken, hread.length_eq.symm, raw, x, next_eq, List.mem_of_getElem? hx, hr,
        adds.literal⟩

/-- What becomes of the names of a passage's operands: nothing if it is left out, otherwise they are
led past what has been left out. -/
structure Leads (s : ImportState) (p : Passage) (lead : String → String) : Prop where
  inputs : p.led.inputs = p.fused.inputs.map fun v => { v with name := lead v.name }
  cases : lead = s.sourceOf ∨ lead = id ∧ s.place ∈ p.elision.removed

lemma Front.leads (h : Front s p) : ∃ lead, Leads s p lead := by
  cases h.elides with
  | out _ _ _ _ _ node state =>
    refine ⟨id, by simp [node, ImportState.nameNode], .inr ⟨rfl, ?_⟩⟩
    rw [state]
    exact mem_removed_remove.mpr (.inl rfl)
  | past _ node => exact ⟨s.sourceOf, by rw [node]; rfl, .inl rfl⟩

lemma Front.constants_elision (h : Front s p) : p.elision.constants = s.constants := by
  cases h.elides with
  | out _ _ _ _ _ _ state => rw [state]; rfl
  | past _ _ state => rw [state]; rfl

lemma Front.nodes_elision (h : Front s p) : p.elision.nodes = s.nodes := by
  cases h.elides with
  | out _ _ _ _ _ _ state => rw [state]; rfl
  | past _ _ state => rw [state]; rfl

/-- Where the operands of a node come from. -/
theorem Body.operand {lead : String → String} (h : Body s p) (hlead : Leads s p lead)
    (hv : p.typed.inputs[k]? = some v) : p.Operand s lead k v := by
  rw [h.inputs_typed] at hv
  rcases h.reshapes.input hv with hv | ⟨hk, hop, hop', target, rfl⟩
  swap
  · exact .shape hk hop (h.operator_typed.trans hop') rfl
  obtain ⟨w, hw, hlift⟩ := h.lifts.input hv
  rw [hlead.inputs, List.getElem?_map, Option.map_eq_some_iff] at hw
  obtain ⟨u, hu, rfl⟩ := hw
  have hlinear : p.fused.operator = .linear → v = { u with name := lead u.name } := by
    intro hop
    rcases hlift with rfl | ⟨hlifts, -⟩
    · rfl
    · have : p.led.operator = .linear := by rw [h.elides.node]; exact hop
      simp [this, ImportState.liftsConstants] at hlifts
  rcases h.input_fused hu with ⟨x, u', hx, hr, htrans⟩ | ⟨hc, hk, next, x, hnext, hx, hr, hlit⟩
  · rcases htrans with rfl | ⟨rfl, hop⟩
    · rcases hlift with rfl | ⟨hlifts, hlift, hdropped⟩
      · exact .read hx hr (.inl rfl)
      · cases hlift with
        | bare _ value => exact .read hx hr (.inl value)
        | literal known node literal value =>
          have hplace := hdropped _ known
          rw [h.constants_elision] at known
          rw [h.nodes_elision] at node
          refine .lifted hx hr ?_ known node literal hplace value
          rw [h.lifts.node]
          exact hlifts
    · rw [hlinear hop, u'.name_transpose, ← Value.transpose_rename]
      exact .read hx hr (.inr rfl)
  · have hop : p.fused.operator = .linear := by
      rcases h.fuses.operator with ⟨-, hc'⟩ | hop
      · simp [hc] at hc'
      · exact hop
    exact .bias hc hk hnext hx hr hlit (hlinear hop)

end Step

end TensorGraph
