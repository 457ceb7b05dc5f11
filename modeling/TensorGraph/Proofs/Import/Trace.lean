import TensorGraph.Proofs.Import.Boundary
import TensorGraph.Proofs.Import.Outputs
import TensorGraph.Proofs.Import.Run
import TensorGraph.Proofs.Import.Stages
import TensorGraph.Proofs.WellFormed

/-!
# What the registry holds along a run

After every passage the registry leads each name of the file to the graph input or output that
declares it, or to what the passage that wrote it has written (`Run.registered`).
-/

namespace TensorGraph

open Onnx ModelMessage Registry

variable {m : ModelMessage} {r r₀ r' : Registry} {s s' : ImportState} {p q : Passage}
  {ps : List Passage} {rest : List NodeMessage} {n n' : Node} {v : Value} {x : String}

lemma Operator.name_of_ofName? {o : Operator} (h : ofName? x = some o) : o.name = x := by
  have := List.find?_some h
  simp only [decide_eq_true_eq] at this
  exact this.2

lemma name_of_knownOperator {raw : NodeMessage} {o : Operator} (h : raw.knownOperator = .ok o) :
    o.name = raw.operator := by
  unfold NodeMessage.knownOperator at h
  split at h
  · next o' ho =>
    obtain rfl := Except.ok.inj h
    exact Operator.name_of_ofName? ho
  · simp at h

lemma Node.Fuses.operator {next : Option NodeMessage} {consumed : Bool}
    (h : n.Fuses r next n' consumed) :
    n'.operator = n.operator ∧ consumed = false ∨ n'.operator = .linear :=
  h.eq_or_layer.imp (fun ⟨node, kept⟩ => ⟨by rw [node], kept⟩) And.right

lemma Node.Reshapes.operator (h : n.Reshapes r n') :
    n'.operator = n.operator ∨ n.operator = .unsqueeze ∧ n'.operator = .reshape := by
  cases h with
  | same node => exact .inl (by rw [node])
  | reshape operator _ _ _ _ _ node => exact .inr ⟨operator, by rw [node]⟩

namespace ImportState

lemma Elides.node (h : s.Elides n s' n') : n' = { n with inputs := n'.inputs } := by
  cases h with
  | out _ _ _ _ _ node => rw [node]
  | past _ node => rw [node]

lemma Elides.registry (h : s.Elides n s' n') : s'.registry = s.registry := by
  cases h with
  | out _ _ _ _ _ _ state => rw [state]; rfl
  | past _ _ state => rw [state]

lemma Lifting.node (h : s.Lifting n s' n') : n' = { n with inputs := n'.inputs } := by
  cases h with
  | writes _ _ node => rw [node]
  | operands _ _ _ node => rw [node]
  | same _ _ node => rw [node]

lemma Lifting.registry (h : s.Lifting n s' n') : s'.registry = s.registry := by
  cases h with
  | writes _ _ _ state => rw [state]
  | operands _ _ _ _ drops => rw [drops.eq]
  | same _ _ _ state => rw [state]

end ImportState

namespace Passage

lemma mem_messages {raw : NodeMessage} :
    raw ∈ p.messages ↔ raw = p.message ∨ p.consumed = true ∧ p.next = some raw := by
  simp [messages]

/-- The names of the file for what the node writes. -/
def outputNames (p : Passage) : List String :=
  if p.consumed then (p.next.elim [] (·.outputs.take 1)) ++ p.message.outputs.drop 1
  else p.message.outputs

lemma outputNames_of_kept (hc : p.consumed = false) : p.outputNames = p.message.outputs := by
  rw [outputNames, hc, if_neg Bool.false_ne_true]

/-- The names of the file under which the node is registered. -/
def written (p : Passage) : List String := namesOf p.typed.outputs

/-- The outputs of the node bear the names that the file has for them, and no literals. -/
def Writes (p : Passage) : Prop :=
  List.Forall₂ (fun x v => v.name = x ∧ v.literal = none) p.outputNames p.typed.outputs

lemma Writes.map_name (h : p.Writes) : p.typed.outputs.map Value.name = p.outputNames :=
  map_eq_of_forall₂ h fun _ _ hv => hv.1

lemma Writes.literal (h : p.Writes) (hv : v ∈ p.typed.outputs) : v.literal = none := by
  obtain ⟨i, hi, rfl⟩ := List.getElem_of_mem hv
  exact (List.Forall₂.get h (by rw [h.length_eq]; exact hi) hi).2

lemma Writes.written (h : p.Writes) : p.written = named p.outputNames := by
  rw [Passage.written, namesOf, h.map_name, named]

/-- What the node writes, one of its messages writes. -/
lemma mem_outputs_of_mem_outputNames (hx : x ∈ p.outputNames) :
    ∃ n ∈ p.messages, x ∈ n.outputs := by
  unfold outputNames at hx
  unfold messages
  split at hx
  · next hc =>
    rw [List.mem_append] at hx
    rcases hx with hx | hx
    · cases hnext : p.next with
      | none => simp [hnext] at hx
      | some n => exact ⟨n, by simp [hc], List.mem_of_mem_take (by simpa [hnext] using hx)⟩
    · exact ⟨p.message, by simp, List.mem_of_mem_drop hx⟩
  · exact ⟨p.message, by simp, hx⟩

lemma written_of_mem_outputNames (hx : x ∈ p.outputNames) (hne : x ≠ "") :
    x ∈ ModelMessage.written p.messages :=
  ModelMessage.mem_written.mpr ⟨hne, mem_outputs_of_mem_outputNames hx⟩

lemma Writes.written_subset (h : p.Writes) : p.written ⊆ ModelMessage.written p.messages := by
  rw [h.written]
  intro x hx
  obtain ⟨hx, hne⟩ := mem_named.mp hx
  exact written_of_mem_outputNames hx hne

lemma Writes.nodup (h : p.Writes) (hnd : (ModelMessage.written p.messages).Nodup) :
    p.written.Nodup := by
  rw [h.written]
  unfold messages at hnd
  rw [ModelMessage.written_cons] at hnd
  unfold outputNames
  split
  · next hc =>
    rw [if_pos hc] at hnd
    rw [named, List.filter_append, List.nodup_append_comm]
    refine hnd.sublist (List.Sublist.append ((List.drop_sublist 1 _).filter _) ?_)
    cases p.next with
    | none => simp
    | some n => simpa [ModelMessage.written, named] using (List.take_sublist 1 n.outputs).filter _
  · exact hnd.of_append_left

lemma mem_written : x ∈ p.written ↔ x ≠ "" ∧ ∃ v ∈ p.typed.outputs, v.name = x := mem_namesOf

end Passage

namespace Step

lemma Front.fuses (h : Front s p) : p.specialised.Fuses s.registry p.next p.fused p.consumed :=
  fuse_ok h.fuse

/-- A message that is taken over is a sum with a literal of what a product writes. -/
lemma Front.taken (h : Front s p) (hc : p.consumed = true) :
    p.specialised.operator = .matMul ∧ p.fused.operator = .linear ∧ ∃ sum add bias,
      p.next = some sum ∧ s.registry.convert sum = .ok add ∧ p.specialised.AddsBias add bias := by
  cases h.fuses with
  | same _ kept | gemm _ _ _ _ _ kept | product _ _ kept => simp [hc] at kept
  | biased operator _ next_eq convert adds _ _ node =>
    exact ⟨operator, by rw [node], _, _, _, next_eq, convert, adds⟩

/-- All messages of a passage are converted from the registry before it. -/
lemma Front.converts {raw : NodeMessage} (h : Front s p) (hraw : raw ∈ p.messages) :
    ∃ n, s.registry.convert raw = .ok n := by
  rcases Passage.mem_messages.mp hraw with rfl | ⟨hc, hnext⟩
  · exact ⟨_, h.convert⟩
  · obtain ⟨-, -, sum, add, -, hsum, convert, -⟩ := h.taken hc
    obtain rfl := Option.some.inj (hnext.symm.trans hsum)
    exact ⟨add, convert⟩

lemma Front.elides (h : Front s p) :
    (s.nameNode p.fused).1.Elides (s.nameNode p.fused).2 p.elision p.led :=
  elide_ok h.elide

lemma Front.lifts (h : Front s p) : p.elision.Lifting p.led p.lifting p.lifted := lift_ok h.lift

lemma Front.registry_lifting (h : Front s p) : p.lifting.registry = s.registry := by
  rw [h.lifts.registry, h.elides.registry]
  rfl

lemma Typed.reshapes (h : Typed s p) : p.lifted.Reshapes s.registry p.reshaped :=
  h.registry_lifting ▸ unsqueezeAsReshape_ok h.reshape

lemma Body.reshapes (h : Body s p) : p.lifted.Reshapes s.registry p.reshaped := h.typed.reshapes

lemma Front.operator_lifted (h : Front s p) : p.lifted.operator = p.fused.operator := by
  rw [h.lifts.node, h.elides.node]
  rfl

lemma Typed.operator_typed (h : Typed s p) : p.typed.operator = p.reshaped.operator := by
  obtain ⟨outputs, -, hinfer⟩ := infer_ok h.infer
  rw [hinfer]

lemma Body.operator_typed (h : Body s p) : p.typed.operator = p.reshaped.operator :=
  h.typed.operator_typed

lemma Front.operator_message (h : Front s p) : p.message.operator = p.converted.operator.name :=
  (name_of_knownOperator (convert_ok h.convert).1).symm

/-- An operator of no fixed number of spatial axes is that of the message. -/
lemma Front.operator_specialised (h : Front s p)
    (hop : p.specialised.operator.spatialAxes? = none) :
    p.message.operator = p.specialised.operator.name := by
  rw [h.operator_message, (specialise_ok h.specialise).1.eq_of_no_axes hop]

/-- A Constant or an identity stands for a message of that operator. -/
lemma Body.transparent (h : Body s p) (ht : ImportState.isTransparent p.typed.operator = true) :
    p.consumed = false ∧ p.reshaped.operator = p.lifted.operator ∧
      p.message.operator = p.typed.operator.name := by
  rw [h.operator_typed] at ht ⊢
  rcases h.reshapes.operator with hr | ⟨-, hr⟩
  swap
  · simp [ImportState.isTransparent, hr] at ht
  rw [hr, h.operator_lifted] at ht ⊢
  rcases h.fuses.operator with ⟨hf, hc⟩ | hf
  swap
  · simp [ImportState.isTransparent, hf] at ht
  rw [hf] at ht ⊢
  refine ⟨hc, rfl, h.operator_specialised ?_⟩
  revert ht
  cases p.specialised.operator <;> simp [ImportState.isTransparent, Operator.spatialAxes?]

lemma Front.outputs_specialised (h : Front s p) :
    p.specialised.outputs = p.message.outputs.map bareValue := by
  rw [(specialise_ok h.specialise).2, ← (convert_ok h.convert).2.2.2.1]

lemma Front.outputs_fused (h : Front s p) : p.fused.outputs = p.outputNames.map bareValue := by
  have hn := h.outputs_specialised
  have hf := h.fuses
  unfold Passage.outputNames
  cases hf with
  | same node kept => simp [node, kept, hn]
  | gemm _ _ _ _ outputs kept => simp [outputs, kept, hn]
  | product _ node kept => simp [node, kept, hn]
  | @biased raw add _ o y os _ _ next_eq convert _ outputs result node taken =>
    rw [outputs] at hn
    rw [node, taken]
    obtain ⟨ys, hy⟩ := Node.output_zero_eq_ok.mp result
    rw [(convert_ok convert).2.2.2.1] at hy
    cases hm : p.message.outputs with
    | nil => simp [hm] at hn
    | cons x xs =>
      cases hr : raw.outputs with
      | nil => simp [hr] at hy
      | cons z zs =>
        rw [hm] at hn
        rw [hr] at hy
        simp only [List.map_cons, List.cons.injEq] at hn hy
        simp [next_eq, hr, ← hy.1, hn.1, hn.2, bareValue]

lemma Front.outputs_lifted (h : Front s p) : p.lifted.outputs = p.outputNames.map bareValue := by
  rw [← h.outputs_fused, h.lifts.node, h.elides.node]
  rfl

/-- The outputs bear the names that the file has for them, and no literals, if that is so of the
graph boundaries under these names. -/
lemma Body.outputs_typed (h : Body s p)
    (hb : ∀ x ∈ p.outputNames, ∀ slot, s.registry.slots.get? x = some slot →
      (∀ i, slot ≠ .interior i) →
        (s.registry.value slot).name = x ∧ (s.registry.value slot).literal = none) :
    List.Forall₂ (fun x v => v.name = x ∧ v.literal = none) p.outputNames p.typed.outputs := by
  have hbare : ∀ xs : List String,
      List.Forall₂ (fun x v => v.name = x ∧ v.literal = none) xs (xs.map bareValue) := by
    intro xs
    rw [List.forall₂_map_right_iff]
    exact List.forall₂_same.mpr fun x _ => ⟨rfl, rfl⟩
  have hreshaped : List.Forall₂ (fun x v => v.name = x ∧ v.literal = none)
      p.outputNames p.reshaped.outputs := by
    have hl := h.outputs_lifted
    have hr := h.reshapes
    cases hr with
    | same node =>
      rw [node, hl]
      exact hbare _
    | reshape _ _ _ outputs slot_eq outer node =>
      rw [outputs] at hl
      rw [node]
      cases hx : p.outputNames with
      | nil => simp [hx] at hl
      | cons x xs =>
        simp only [hx, List.map_cons, List.cons.injEq] at hl
        obtain ⟨rfl, rfl⟩ := hl
        exact .cons (hb x (by simp [hx]) _ slot_eq outer) (hbare xs)
  obtain ⟨outputs, hretyped, hinfer⟩ := infer_ok h.infer
  rw [hinfer]
  exact forall₂_trans (fun x v w hv hw => by obtain ⟨t, rfl⟩ := hw; exact hv) hreshaped hretyped

/-- What the last stages do to the registry. -/
structure Closes (r : Registry) (p : Passage) : Prop where
  outside : SameOutside p.written r p.recorded
  records : ∀ v ∈ p.typed.outputs, v.name ≠ "" → Recorded r p.recorded v
  marks : Marked p.recorded p.marked
  inputs : p.inputs = p.typed.inputs.map p.recorded.renamedOperand
  reads : ∀ v ∈ p.typed.inputs, v.name ≠ "" →
    (∀ i, p.recorded.slots.get? v.name ≠ some (.output i)) ∧
      ∀ i, p.recorded.slots.get? v.name = some (.input i) →
        (p.marked.value (.input i)).used = true
  settles : Settled p.typed 1 p.typed.outputs p.marked p.registry
  outputs : p.outputs = renamedOutputs p.typed 1 p.typed.outputs

/-- The last stages of a passage whose outputs have different names. A Constant or an identity has
one output, which has a name. -/
theorem closes (h : Step s p s') (hs : s.registry.Sound) (hnd : p.written.Nodup)
    (hsingle : ImportState.isTransparent p.typed.operator = true →
      ∃ v, p.typed.outputs = [v] ∧ v.name ≠ "") : Closes s.registry p := by
  obtain ⟨houtside, hrecords⟩ := record_ok hs hnd (h.registry_lifting ▸ h.record)
  obtain ⟨hmarks, hinputs, hreads⟩ := renameInputs_ok houtside.sound h.renameInputs
  have hsound := hmarks.sound houtside.sound
  have hrename := h.renameOutputs
  have hboth : Settled p.typed 1 p.typed.outputs p.marked p.registry ∧
      p.outputs = renamedOutputs p.typed 1 p.typed.outputs := by
    split at hrename
    · next ht =>
      obtain ⟨v, hv, hne⟩ := hsingle ht
      have hrec := hrecords v (by simp [hv]) hne
      have hslot : p.marked.slots.get? v.name = p.recorded.slots.get? v.name := by rw [hmarks.slots]
      refine renameLiteral_ok hsound hv hne ?_ (fun i hi => ?_) hrename
      · cases hrec with
        | fresh i _ _ slot => exact ⟨_, find?_of_slot (hslot.trans slot)⟩
        | input i _ slot => exact ⟨_, find?_of_slot (hslot.trans slot)⟩
        | output i _ slot => exact ⟨_, find?_of_slot (hslot.trans slot)⟩
      · cases hrec with
        | fresh j _ _ slot value =>
          rw [find?_of_slot hi]
          rw [find?_of_slot (hslot ▸ hi)] at value
          rw [← value]
          simp only [Registry.value, hmarks.interior]
        | input j _ slot => simp [hslot, slot] at hi
        | output j _ slot => simp [hslot, slot] at hi
    · exact renameOutputs_ok hsound hnd hrename
  exact ⟨houtside, hrecords, hmarks, hinputs, hreads, hboth.1, hboth.2⟩

namespace Closes

lemma slots (h : Closes r p) : p.registry.slots = p.recorded.slots := by
  rw [h.settles.slots, h.marks.slots]

lemma slots_outside (h : Closes r p) (hx : x ∉ p.written) :
    p.registry.slots.get? x = r.slots.get? x := by
  rw [h.slots, h.outside.slots hx]

lemma slots_of_some {slot : Slot} (h : Closes r p) (hs : r.slots.get? x = some slot) :
    p.registry.slots.get? x = some slot := by
  by_cases hx : x ∈ p.written
  · obtain ⟨hne, v, hv, rfl⟩ := Passage.mem_written.mp hx
    rw [h.slots]
    cases h.records v hv hne with
    | fresh i new => simp [new] at hs
    | input i slot slot' => rw [slot', ← slot, hs]
    | output i slot slot' => rw [slot', ← slot, hs]
  · rw [h.slots_outside hx, hs]

/-- A slot that a passage adds is an interior one, for a name that the passage writes. -/
lemma slots_cases {slot : Slot} (h : Closes r p) (hs : p.registry.slots.get? x = some slot) :
    r.slots.get? x = some slot ∨ (∃ i, slot = .interior i) ∧ x ∈ p.written := by
  by_cases hx : x ∈ p.written
  · obtain ⟨hne, v, hv, rfl⟩ := Passage.mem_written.mp hx
    rw [h.slots] at hs
    cases h.records v hv hne with
    | fresh i _ _ slot => exact .inr ⟨⟨i, by simpa [slot] using hs.symm⟩, hx⟩
    | input i slot slot' => exact .inl (by rw [slot, ← slot', hs])
    | output i slot slot' => exact .inl (by rw [slot, ← slot', hs])
  · exact .inl (h.slots_outside hx ▸ hs)

/-- What a passage does not write stays, but that graph inputs may count as used. -/
lemma find?_outside (h : Closes r p) (hx : x ∉ p.written) :
    p.registry.find? x = r.find? x ∨
      (∃ i, r.slots.get? x = some (.input i)) ∧
        p.registry.find? x = (r.find? x).map fun v => { v with used := true } := by
  rw [h.settles.outside.find? hx, ← h.outside.find? hx, ← h.outside.slots hx]
  simp only [Registry.find?, h.marks.slots]
  cases hs : p.recorded.slots.get? x with
  | none => exact .inl rfl
  | some slot =>
    cases slot with
    | input i =>
      rcases h.marks.value (.input i) with e | e
      · exact .inl (by simp [e])
      · exact .inr ⟨⟨i, rfl⟩, by simp [e]⟩
    | output i => exact .inl (by simp [Registry.value, h.marks.outputs])
    | interior i => exact .inl (by simp [Registry.value, h.marks.interior])

/-- What a passage writes stands in the registry under its new name, if it is not the name of a
graph input. -/
lemma find?_written {k : Nat} (h : Closes r p) (hv : p.typed.outputs[k]? = some v)
    (hne : v.name ≠ "") (hin : ∀ i, r.slots.get? v.name ≠ some (.input i)) :
    ∃ used, p.registry.find? v.name = some
      { v with name := ImportState.outputName p.typed (k + 1), used } := by
  obtain ⟨-, w, hw, hfind⟩ := h.settles.renamed hv hne
  rw [Nat.add_comm 1 k] at hfind
  obtain ⟨slot, hslot, rfl⟩ := Option.map_eq_some_iff.mp hw
  rw [h.marks.slots] at hslot
  rw [hfind]
  cases h.records v (List.mem_of_getElem? hv) hne with
  | fresh i _ _ slot' value =>
    obtain rfl : slot = .interior i := by simpa [slot'] using hslot.symm
    rw [find?_of_slot slot'] at value
    have : p.marked.value (.interior i) = v := by
      rw [← Option.some.inj value]
      simp [Registry.value, h.marks.interior]
    exact ⟨v.used, by rw [this]⟩
  | input i slot' => exact absurd slot' (hin i)
  | output i _ slot' value =>
    obtain rfl : slot = .output i := by simpa [slot'] using hslot.symm
    rw [find?_of_slot slot'] at value
    have : p.marked.value (.output i) =
        { (r.value (.output i)).copyFrom v with used := true } := by
      rw [← Option.some.inj value]
      simp [Registry.value, h.marks.outputs]
    exact ⟨true, by rw [this]; rfl⟩

end Closes

end Step

/-- What the registry holds under the names of the file after the passages `ps`, where `r₀` is the
registry before them. -/
structure Holds (r₀ : Registry) (ps : List Passage) (r : Registry) : Prop where
  sound : r.Sound
  initializers : r.initializers = r₀.initializers
  outputs : r.outputs.length = r₀.outputs.length
  outer : ∀ {x slot}, r₀.slots.get? x = some slot → r.slots.get? x = some slot
  inner : ∀ {x slot}, r.slots.get? x = some slot →
    r₀.slots.get? x = some slot ∨ (∃ i, slot = .interior i) ∧ ∃ p ∈ ps, x ∈ p.written
  input : ∀ {x i}, r₀.slots.get? x = some (.input i) →
    ∃ used, r.find? x = some { r₀.value (.input i) with used }
  pending : ∀ {x i}, r₀.slots.get? x = some (.output i) → (∀ p ∈ ps, x ∉ p.written) →
    r.find? x = r₀.find? x
  written : ∀ {p : Passage} {k : Nat} {v : Value}, p ∈ ps → p.typed.outputs[k]? = some v → v.name ≠ "" →
    (∀ i, r.slots.get? v.name ≠ some (.input i)) ∧
      ∃ used, r.find? v.name = some
        { v with name := ImportState.outputName p.typed (k + 1), used }

namespace Holds

lemma start (hr : r.Sound) : Holds r [] r where
  sound := hr
  initializers := rfl
  outputs := rfl
  outer h := h
  inner h := .inl h
  input {x i} h := ⟨_, find?_of_slot h⟩
  pending _ _ := rfl
  written h := by simp at h

/-- A passage that writes new names, none of which is that of a graph input. -/
theorem step (h : Holds r₀ ps r) (hc : Step.Closes r p)
    (hnew : ∀ x ∈ p.written, ∀ q ∈ ps, x ∉ q.written)
    (hin : ∀ x ∈ p.written, ∀ i, r₀.slots.get? x ≠ some (.input i)) :
    Holds r₀ (ps ++ [p]) p.registry where
  sound := hc.settles.outside.sound
  initializers := by
    rw [hc.settles.outside.initializers, hc.marks.initializers, hc.outside.initializers,
      h.initializers]
  outputs := by
    rw [hc.settles.outside.outputs, hc.marks.outputs, hc.outside.outputs, h.outputs]
  outer hs := hc.slots_of_some (h.outer hs)
  inner {x slot} hs := by
    rcases hc.slots_cases hs with hs | ⟨hi, hx⟩
    · rcases h.inner hs with hs | ⟨hi, q, hq, hx⟩
      · exact .inl hs
      · exact .inr ⟨hi, q, by simp [hq], hx⟩
    · exact .inr ⟨hi, p, by simp, hx⟩
  input {x i} hs := by
    have hx : x ∉ p.written := fun hx => hin x hx i hs
    obtain ⟨used, hfind⟩ := h.input hs
    rcases hc.find?_outside hx with e | ⟨-, e⟩
    · exact ⟨used, e.trans hfind⟩
    · exact ⟨true, by rw [e, hfind]; rfl⟩
  pending {x i} hs hx := by
    have hx' : x ∉ p.written := hx p (by simp)
    rw [← h.pending hs fun q hq => hx q (by simp [hq])]
    rcases hc.find?_outside hx' with e | ⟨⟨j, hj⟩, -⟩
    · exact e
    · simp [h.outer hs] at hj
  written {q k v} hq hv hne := by
    rw [List.mem_append, List.mem_singleton] at hq
    rcases hq with hq | rfl
    · have hx : v.name ∉ p.written := fun hx =>
        hnew _ hx q hq (mem_namesOf_of_mem (List.mem_of_getElem? hv) hne)
      obtain ⟨hslot, used, hfind⟩ := h.written hq hv hne
      rw [hc.slots_outside hx]
      refine ⟨hslot, ?_⟩
      rcases hc.find?_outside hx with e | ⟨⟨i, hi⟩, -⟩
      · exact ⟨used, e.trans hfind⟩
      · exact absurd hi (hslot i)
    · have hx := mem_namesOf_of_mem (List.mem_of_getElem? hv) hne
      have hslot : ∀ i, r.slots.get? v.name ≠ some (.input i) := by
        intro i hi
        rcases h.inner hi with hi | ⟨⟨j, hj⟩, -⟩
        · exact hin _ hx i hi
        · simp at hj
      refine ⟨fun i hi => ?_, hc.find?_written hv hne hslot⟩
      rcases hc.slots_cases hi with hi | ⟨⟨j, hj⟩, -⟩
      · exact hslot i hi
      · simp at hj

end Holds

/-- The message of a Constant or an identity has one output, which has a name. -/
lemma Step.Body.single (hm : m.WellFormed) (h : Step.Body s p) (hmem : p.message ∈ m.nodes)
    (ht : ImportState.isTransparent p.typed.operator = true) : ∃ x, x ≠ "" ∧ p.outputNames = [x] := by
  obtain ⟨hc, -, hmsg⟩ := h.transparent ht
  have hop : p.message.operator = "Constant" ∨ p.message.operator = "Identity" := by
    rw [hmsg]
    revert ht
    cases p.typed.operator <;> simp [ImportState.isTransparent, Operator.name]
  obtain ⟨x, hx, houtputs⟩ := hm.single_output hmem hop
  exact ⟨x, hx, by rw [Passage.outputNames_of_kept hc, houtputs]⟩

lemma Step.Body.reshaped_of_transparent (h : Step.Body s p)
    (ht : ImportState.isTransparent p.typed.operator = true) : p.reshaped = p.lifted := by
  obtain ⟨-, hop, -⟩ := h.transparent ht
  cases h.reshapes with
  | same node => exact node
  | reshape operator _ _ _ _ _ node => simp [node, operator] at hop

/-- A Constant or an identity writes one value, under the name that the file has for it and without
a literal. -/
lemma Step.Body.single_typed (hm : m.WellFormed) (h : Step.Body s p) (hmem : p.message ∈ m.nodes)
    (ht : ImportState.isTransparent p.typed.operator = true) :
    ∃ v, v.name ≠ "" ∧ p.outputNames = [v.name] ∧ p.typed.outputs = [v] ∧ v.literal = none := by
  obtain ⟨x, hx, hnames⟩ := h.single hm hmem ht
  obtain ⟨outputs, hretyped, hinfer⟩ := infer_ok h.infer
  rw [h.reshaped_of_transparent ht, h.outputs_lifted, hnames] at hretyped
  obtain ⟨v, vs, hv, hnil, rfl⟩ := List.forall₂_cons_left_iff.mp hretyped
  obtain rfl := List.forall₂_nil_left_iff.mp hnil
  have hname : v.name = x := hv.name
  have hliteral : v.literal = none := by
    obtain ⟨t, rfl⟩ := hv
    rfl
  exact ⟨v, hname ▸ hx, by rw [hnames, hname], by rw [hinfer], hliteral⟩

/-- The registry `r` holds what the model `m` declares and what the passages `ps` have written. -/
structure Registered (m : ModelMessage) (r₀ : Registry) (ps : List Passage) (r : Registry) : Prop where
  declares : r₀.Declares m.inputs m.outputs
  arrays : HoldsArrays m.initializers r₀.initializers
  holds : Holds r₀ ps r
  writes : ∀ p ∈ ps, p.Writes
  written : ∀ p ∈ ps, p.written ⊆ ModelMessage.written m.nodes

namespace Registered

variable {after : List NodeMessage}

lemma not_input (hm : m.WellFormed) (h : Registered m r₀ ps r)
    (hx : x ∈ ModelMessage.written m.nodes) (i : Nat) : r₀.slots.get? x ≠ some (.input i) := by
  intro hi
  obtain ⟨d, v, hd, rfl, -⟩ := h.declares.input hi
  exact hm.written_inputs _ hx (List.mem_map_of_mem (List.mem_of_getElem? hd))

lemma not_written (hm : m.WellFormed) (h : Registered m r₀ ps r)
    (hnodes : ps.flatMap Passage.messages ++ p.messages ++ after = m.nodes)
    (hx : x ∈ ModelMessage.written p.messages) : ∀ q ∈ ps, x ∉ q.written := by
  intro q hq hx'
  have hq' : x ∈ ModelMessage.written (ps.flatMap Passage.messages) := by
    obtain ⟨hne, n, hn, hxn⟩ := ModelMessage.mem_written.mp ((h.writes q hq).written_subset hx')
    exact ModelMessage.mem_written.mpr ⟨hne, n, List.mem_flatMap.mpr ⟨q, hq, hn⟩, hxn⟩
  refine hm.disjoint (by rw [← hnodes, List.append_assoc]) hq' ?_
  rw [written_append]
  exact List.mem_append_left _ hx

lemma written_messages
    (hnodes : ps.flatMap Passage.messages ++ p.messages ++ after = m.nodes) :
    ModelMessage.written p.messages ⊆ ModelMessage.written m.nodes := by
  rw [← hnodes, written_append, written_append]
  exact fun x hx => by simp [hx]

lemma writes_step (hm : m.WellFormed) (hin : m.InputsNamed) (h : Registered m r₀ ps s.registry)
    (hnodes : ps.flatMap Passage.messages ++ p.messages ++ after = m.nodes) (step : Step.Body s p) :
    p.Writes := by
  refine step.outputs_typed fun x hx slot hslot houter => ?_
  have hslot₀ : r₀.slots.get? x = some slot := by
    rcases h.holds.inner hslot with hslot₀ | ⟨⟨i, hi⟩, -⟩
    · exact hslot₀
    · exact absurd hi (houter i)
  cases slot with
  | interior i => exact absurd rfl (houter i)
  | input i =>
    obtain ⟨d, v, hd, rfl, -⟩ := h.declares.input hslot₀
    have hne := hin d (List.mem_of_getElem? hd)
    have hx := written_messages hnodes (Passage.written_of_mem_outputNames hx hne)
    exact absurd hslot₀ (h.not_input hm hx i)
  | output i =>
    obtain ⟨d, hd, rfl, hvalue⟩ := h.declares.output hslot₀
    have hpending := h.holds.pending hslot₀ fun q hq hx' => h.not_written hm hnodes
      (Passage.written_of_mem_outputNames hx (Passage.mem_written.mp hx').1) q hq hx'
    rw [find?_of_slot hslot, find?_of_slot hslot₀] at hpending
    rw [Option.some.inj hpending]
    exact declared_ok hvalue

lemma closes_step (hm : m.WellFormed) (hin : m.InputsNamed) (h : Registered m r₀ ps s.registry)
    (hnodes : ps.flatMap Passage.messages ++ p.messages ++ after = m.nodes) (step : Step s p s') :
    Step.Closes s.registry p := by
  have hw := h.writes_step hm hin hnodes step.toBody
  refine step.closes h.holds.sound (hw.nodup (hm.nodup hnodes.symm)) fun ht => ?_
  have hmem : p.message ∈ m.nodes := by
    rw [← hnodes]
    simp [Passage.messages]
  obtain ⟨v, hne, -, hv, -⟩ := step.single_typed hm hmem ht
  exact ⟨v, hv, hne⟩

theorem step (hm : m.WellFormed) (hin : m.InputsNamed) (h : Registered m r₀ ps s.registry)
    (hnodes : ps.flatMap Passage.messages ++ p.messages ++ after = m.nodes) (step : Step s p s') :
    Registered m r₀ (ps ++ [p]) s'.registry := by
  have hw := h.writes_step hm hin hnodes step.toBody
  have hsub := List.Subset.trans hw.written_subset (written_messages hnodes)
  rw [step.state]
  refine ⟨h.declares, h.arrays, h.holds.step (h.closes_step hm hin hnodes step)
    (fun x hx => h.not_written hm hnodes (hw.written_subset hx))
    (fun x hx => h.not_input hm (hsub hx)), fun q hq => ?_, fun q hq => ?_⟩
  all_goals
    rw [List.mem_append, List.mem_singleton] at hq
    rcases hq with hq | rfl
  · exact h.writes q hq
  · exact hw
  · exact h.written q hq
  · exact hsub

end Registered

/-- After a run over a well-formed model the registry holds what the model declares and what the
passages have written. -/
theorem Run.registered (hm : m.WellFormed) (hin : m.InputsNamed) (hr : ofModel m = .ok r₀)
    (run : Run m ps rest s) : Registered m r₀ ps s.registry := by
  induction run with
  | start h =>
    obtain rfl := Except.ok.inj (hr.symm.trans h)
    obtain ⟨hdecl, harrays⟩ := ofModel_declares hr
    exact ⟨hdecl, harrays, .start hdecl.sound, by simp, by simp⟩
  | step run next step ih => exact ih.step hm hin (run.nodes_step next) step

lemma Run.closes (hm : m.WellFormed) (hin : m.InputsNamed)
    (run : Run m ps (p.message :: rest) s) (next : p.next = rest.head?) (step : Step s p s') :
    Step.Closes s.registry p := by
  obtain ⟨r₀, hr⟩ := run.registry_eq_ok
  exact (run.registered hm hin hr).closes_step hm hin (run.nodes_step next) step

end TensorGraph
