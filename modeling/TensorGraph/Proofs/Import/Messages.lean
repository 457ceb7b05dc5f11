import Mathlib.Data.List.Pairwise
import TensorGraph.Proofs.Import.Growth
import TensorGraph.Proofs.Import.Operands

/-!
# The messages of a run

Which passage takes in a message of the file, and what becomes of the names that the message reads
and writes: what is written is retired, or closed from then on (`Step.writes`), and so is what is
read (`Run.reads`), with the exceptions that these list.
-/

namespace TensorGraph

open Onnx ModelMessage Registry

variable {m : ModelMessage} {r r₀ : Registry} {s s' : ImportState} {p q : Passage}
  {ps : List Passage} {rest : List NodeMessage} {raw raw' : NodeMessage} {n n' : Node} {v w : Value}
  {x : String} {a b i j k : Nat}

/-- The passage `p`, at the place `a` of a run, takes in the message at position `i` of the file. -/
structure Handles (ps : List Passage) (i a : Nat) (p : Passage) : Prop where
  passage : ps[a]? = some p
  first : ((ps.take a).flatMap Passage.messages).length ≤ i
  last : i < ((ps.take a).flatMap Passage.messages).length + p.messages.length

lemma exists_handles (h : i < (ps.flatMap Passage.messages).length) : ∃ a p, Handles ps i a p := by
  induction ps generalizing i with
  | nil => simp at h
  | cons p ps ih =>
    rw [List.flatMap_cons, List.length_append] at h
    rcases Nat.lt_or_ge i p.messages.length with hlt | hge
    · exact ⟨0, p, rfl, by simp, by simpa using hlt⟩
    · obtain ⟨a, q, hq⟩ := ih (i := i - p.messages.length) (by omega)
      have hfirst := hq.first
      have hlast := hq.last
      refine ⟨a + 1, q, by simpa using hq.passage, ?_, ?_⟩ <;>
        rw [List.take_succ_cons, List.flatMap_cons, List.length_append] <;> omega

namespace Handles

lemma split (h : Handles ps i a p) :
    ps.flatMap Passage.messages = (ps.take a).flatMap Passage.messages ++ p.messages ++
      (ps.drop (a + 1)).flatMap Passage.messages := by
  obtain ⟨ha, hp⟩ := List.getElem?_eq_some_iff.mp h.passage
  conv_lhs => rw [← List.take_append_drop a ps, List.drop_eq_getElem_cons ha, hp]
  simp

lemma getElem? (h : Handles ps i a p) :
    p.messages[i - ((ps.take a).flatMap Passage.messages).length]? =
      (ps.flatMap Passage.messages)[i]? := by
  have hlast := h.last
  have hfirst := h.first
  rw [h.split, List.getElem?_append_left (by rw [List.length_append]; exact hlast),
    List.getElem?_append_right hfirst]

lemma mem (h : Handles ps i a p) (hraw : (ps.flatMap Passage.messages)[i]? = some raw) :
    raw ∈ p.messages :=
  List.mem_of_getElem? (h.getElem?.trans hraw)

/-- Messages are taken in in their order. -/
lemma mono (h : Handles ps i a p) (h' : Handles ps j b q) (hij : i ≤ j) : a ≤ b := by
  by_contra hlt
  obtain ⟨hb, hq⟩ := List.getElem?_eq_some_iff.mp h'.passage
  have htake : ps.take a = ps.take b ++ q :: (ps.take a).drop (b + 1) := by
    conv_lhs => rw [← List.take_append_drop (b + 1) (ps.take a), List.take_take,
      Nat.min_eq_left (by omega), List.take_succ_eq_append_getElem hb, hq]
    simp
  have hlast := h'.last
  have hfirst := h.first
  rw [htake, List.flatMap_append, List.flatMap_cons, List.length_append, List.length_append]
    at hfirst
  omega

/-- Of two messages of one passage the first is the one that the passage starts with, and the second
has been taken over. -/
lemma consumed (h : Handles ps i a p) (h' : Handles ps j a p) (hij : i < j)
    (hraw : (ps.flatMap Passage.messages)[i]? = some raw)
    (hraw' : (ps.flatMap Passage.messages)[j]? = some raw') :
    p.consumed = true ∧ raw = p.message ∧ p.next = some raw' := by
  have hfirst := h.first
  have hlast := h'.last
  rw [← h.getElem?] at hraw
  rw [← h'.getElem?] at hraw'
  cases hc : p.consumed with
  | false =>
    have hlen : p.messages.length = 1 := by simp [Passage.messages, hc]
    omega
  | true =>
    cases hnext : p.next with
    | none =>
      have hlen : p.messages.length = 1 := by simp [Passage.messages, hnext]
      omega
    | some next =>
      have hmessages : p.messages = [p.message, next] := by simp [Passage.messages, hc, hnext]
      rw [hmessages, List.length_cons, List.length_singleton] at hlast
      rw [hmessages, show i - _ = 0 by omega] at hraw
      rw [hmessages, show j - _ = 1 by omega] at hraw'
      exact ⟨rfl, (Option.some.inj hraw).symm, by simpa using hraw'⟩

end Handles

lemma not_mem_exchanged {as bs : List String} (h : (named (as ++ bs)).Nodup) (hne : x ≠ "")
    (hx : x ∈ as.take 1 ++ bs.drop 1) : x ∉ bs.take 1 ++ as.drop 1 := by
  have hperm : (as ++ bs).Perm ((as.take 1 ++ bs.drop 1) ++ (bs.take 1 ++ as.drop 1)) := by
    refine List.perm_iff_count.mpr fun a => ?_
    have has : as.count a = (as.take 1).count a + (as.drop 1).count a := by
      rw [← List.count_append, List.take_append_drop]
    have hbs : bs.count a = (bs.take 1).count a + (bs.drop 1).count a := by
      rw [← List.count_append, List.take_append_drop]
    simp only [List.count_append]
    omega
  rw [named, (hperm.filter _).nodup_iff, List.filter_append, List.nodup_append] at h
  exact fun hx' => h.2.2 x (mem_named.mpr ⟨hx, hne⟩) x (mem_named.mpr ⟨hx', hne⟩) rfl

namespace Passage

/-- What the message after it writes. -/
def nextOutputs (p : Passage) : List String := p.next.elim [] NodeMessage.outputs

/-- The names of the file that the messages of a passage write, and that stand for nothing after it:
what a product writes whose sum with a bias has been taken over, and what the addition writes beside
that sum. -/
def retired (p : Passage) : List String :=
  if p.consumed then named (p.message.outputs.take 1 ++ p.nextOutputs.drop 1) else []

/-- The node is a Reshape that was an Unsqueeze: its second operand is generated. -/
def Reshaped (p : Passage) : Prop := p.lifted.operator = .unsqueeze ∧ p.typed.operator = .reshape

instance (p : Passage) : Decidable p.Reshaped := by
  unfold Reshaped
  infer_instance

/-- The name that is generated for the second operand of the node if it is a Reshape that was an
Unsqueeze. -/
def operandName (p : Passage) : String := p.final.shapeOperandName

lemma outputNames_of_consumed (h : p.consumed = true) :
    p.outputNames = p.nextOutputs.take 1 ++ p.message.outputs.drop 1 := by
  rw [outputNames, if_pos h, nextOutputs]
  cases p.next <;> rfl

lemma written_messages_of_consumed (h : p.consumed = true) :
    ModelMessage.written p.messages = named (p.message.outputs ++ p.nextOutputs) := by
  rw [messages, if_pos h, nextOutputs, named, List.filter_append, written_cons]
  cases p.next <;> simp [ModelMessage.written, named]

/-- What the messages of a passage write, its node writes, or it is retired. -/
lemma mem_outputNames_or_retired (hx : x ∈ ModelMessage.written p.messages) :
    x ∈ p.outputNames ∨ x ∈ p.retired := by
  cases hc : p.consumed with
  | false =>
    left
    rw [messages, hc, if_neg Bool.false_ne_true, written_cons, written_nil, List.append_nil,
      mem_named] at hx
    rw [outputNames_of_kept hc]
    exact hx.1
  | true =>
    rw [written_messages_of_consumed hc, mem_named, List.mem_append,
      ← List.take_append_drop 1 p.message.outputs, ← List.take_append_drop 1 p.nextOutputs] at hx
    rw [outputNames_of_consumed hc, retired, if_pos hc, mem_named]
    simp only [List.mem_append] at hx ⊢
    tauto

/-- What the messages of a passage write is registered or retired. -/
lemma written_or_retired (h : p.Writes) (hx : x ∈ ModelMessage.written p.messages) :
    x ∈ p.written ∨ x ∈ p.retired :=
  (mem_outputNames_or_retired hx).imp_left fun hmem =>
    h.written ▸ mem_named.mpr ⟨hmem, (ModelMessage.mem_written.mp hx).1⟩

lemma written_of_retired (hx : x ∈ p.retired) : x ∈ ModelMessage.written p.messages := by
  unfold retired at hx
  split at hx
  · next hc =>
    rw [mem_named, List.mem_append] at hx
    rw [written_messages_of_consumed hc, mem_named, List.mem_append]
    exact ⟨hx.1.imp List.mem_of_mem_take List.mem_of_mem_drop, hx.2⟩
  · simp at hx

/-- Nothing is both registered and retired by one passage. -/
lemma not_written_of_retired (h : p.Writes) (hnd : (ModelMessage.written p.messages).Nodup)
    (hx : x ∈ p.retired) : x ∉ p.written := by
  unfold retired at hx
  split at hx
  · next hc =>
    rw [written_messages_of_consumed hc] at hnd
    rw [mem_named] at hx
    rw [h.written, outputNames_of_consumed hc, mem_named]
    exact fun hw => not_mem_exchanged hnd hx.2 hx.1 hw.1
  · simp at hx

end Passage

/-- What the messages of some passages write is registered or retired. -/
lemma Registered.written_or_retired (h : Registered m r₀ ps r)
    (hx : x ∈ ModelMessage.written (ps.flatMap Passage.messages)) :
    ∃ q ∈ ps, x ∈ q.written ∨ x ∈ q.retired := by
  obtain ⟨hne, raw, hraw, hxraw⟩ := ModelMessage.mem_written.mp hx
  obtain ⟨q, hq, hraw⟩ := List.mem_flatMap.mp hraw
  exact ⟨q, hq, Passage.written_or_retired (h.writes q hq)
    (ModelMessage.mem_written.mpr ⟨hne, raw, hraw, hxraw⟩)⟩

lemma Run.not_written_of_retired (hm : m.WellFormed) (hin : m.InputsNamed) (run : Run m ps [] s)
    (hp : p ∈ ps) (hx : x ∈ p.retired) (hq : q ∈ ps) : x ∉ q.written := by
  obtain ⟨r₀, hr⟩ := run.registry_eq_ok
  have reg := run.registered hm hin hr
  have hnd : (ps.flatMap fun p => ModelMessage.written p.messages).Nodup := by
    have := hm.written_nodup
    rwa [← run.messages, List.append_nil, ModelMessage.written, List.flatMap_assoc] at this
  obtain ⟨hnd, hdisj⟩ := List.nodup_flatMap.mp hnd
  rcases Classical.em (p = q) with rfl | hne
  · exact Passage.not_written_of_retired (reg.writes p hp) (hnd p hp) hx
  · intro hw
    have : Std.Symm (Function.onFun List.Disjoint fun p : Passage =>
        ModelMessage.written p.messages) := ⟨fun _ _ h _ hx hx' => h hx' hx⟩
    exact hdisj.forall hp hq hne (Passage.written_of_retired hx)
      ((reg.writes q hq).written_subset hw)

lemma Run.written_of_retired (run : Run m ps [] s) (hp : p ∈ ps) (hx : x ∈ p.retired) :
    x ∈ ModelMessage.written m.nodes := by
  obtain ⟨hne, n, hn, hxn⟩ := ModelMessage.mem_written.mp (Passage.written_of_retired hx)
  rw [← run.messages, List.append_nil]
  exact ModelMessage.mem_written.mpr ⟨hne, n, List.mem_flatMap.mpr ⟨p, hp, hn⟩, hxn⟩

/-! ## What the messages write -/

/-- The node writes the name over a graph input: it is a Reshape that was an Unsqueeze, or the name
is that of a further output of a Constant or of an identity. -/
def Passage.Overwrites (p : Passage) (x : String) : Prop :=
  p.Reshaped ∧ p.message.outputs.head? = some x ∨
    ImportState.isTransparent p.typed.operator = true ∧ x ∈ p.message.outputs.tail

namespace Step

lemma Front.consumed_of_linear (h : Front s p) (hop : p.fused.operator ≠ .linear) :
    p.consumed = false := by
  rcases h.fuses.operator with ⟨-, hc⟩ | hlinear
  · exact hc
  · exact absurd hlinear hop

/-- Only an Unsqueeze becomes a Reshape. -/
lemma Front.operator_of_reshaped (h : Front s p) (hp : p.Reshaped) :
    p.message.operator = "Unsqueeze" := by
  have hfused : p.fused.operator = .unsqueeze := h.operator_lifted ▸ hp.1
  have hspecialised : p.specialised.operator = .unsqueeze := by
    rcases h.fuses.operator with ⟨hf, -⟩ | hf
    · exact hf ▸ hfused
    · simp [hf] at hfused
  rw [h.operator_specialised (by rw [hspecialised]; rfl), hspecialised]
  rfl

lemma Typed.names_reshaped (h : Typed s p) :
    p.typed.outputs.map Value.name = p.reshaped.outputs.map Value.name := by
  obtain ⟨outputs, hretyped, hinfer⟩ := infer_ok h.infer
  rw [hinfer]
  exact map_eq_map_of_forall₂ hretyped fun _ _ hv => hv.name

/-- The outputs bear the names that the file has for them, if the node is not a Reshape that was an
Unsqueeze. -/
lemma Typed.names_of_kept (h : Typed s p) (hp : ¬ p.Reshaped) :
    p.typed.outputs.map Value.name = p.outputNames := by
  rw [h.names_reshaped]
  cases h.reshapes with
  | same node => simp [node, h.outputs_lifted, bareValue, Function.comp_def]
  | reshape operator _ _ _ _ _ node => exact absurd ⟨operator, by rw [h.operator_typed, node]⟩ hp

/-- A Reshape that was an Unsqueeze writes a graph boundary, and has the shape of this for its second
operand. -/
lemma Typed.of_reshaped (h : Typed s p) (hp : p.Reshaped) : p.consumed = false ∧
    ∃ x xs slot target, p.outputNames = x :: xs ∧ s.registry.slots.get? x = some slot ∧
      (∀ i, slot ≠ .interior i) ∧ (∃ sizes, (s.registry.value slot).type.dims? = some sizes ∧
        sizes.mapM Size.toWord = .ok target) ∧
      p.reshaped.inputs[1]? = some (p.lifted.shapeOperand target) ∧
      p.reshaped.outputs = s.registry.value slot :: xs.map bareValue := by
  have hl := h.outputs_lifted
  cases h.reshapes with
  | same node =>
    have hop := hp.2
    rw [h.operator_typed, node, hp.1] at hop
    cases hop
  | reshape _ _ _ outputs slot_eq outer node shape =>
    rw [outputs] at hl
    obtain ⟨x, xs, hx, rfl, rfl⟩ := List.map_eq_cons_iff.mp hl.symm
    refine ⟨h.consumed_of_linear ?_, x, xs, _, _, hx, slot_eq, outer, shape, ?_, ?_⟩
    · rw [← h.operator_lifted, hp.1]
      simp
    · rw [node, List.getElem?_cons_succ, List.getElem?_cons_zero]
    · rw [node]

/-- A Reshape that was an Unsqueeze writes a graph boundary under the name that this bears itself. -/
lemma Typed.names_of_reshaped (h : Typed s p) (hp : p.Reshaped) :
    p.consumed = false ∧ ∃ x xs slot, p.outputNames = x :: xs ∧
      s.registry.slots.get? x = some slot ∧ (∀ i, slot ≠ .interior i) ∧
        p.typed.outputs.map Value.name = (s.registry.value slot).name :: xs := by
  obtain ⟨hc, x, xs, slot, target, hx, hslot, houter, -, -, houtputs⟩ := h.of_reshaped hp
  refine ⟨hc, x, xs, slot, hx, hslot, houter, ?_⟩
  simp [h.names_reshaped, houtputs, bareValue, Function.comp_def]

/-- The outputs bear the names that the file has for them, but that a Reshape that was an Unsqueeze
writes a graph boundary under the name that this bears itself. -/
theorem Typed.names_typed (h : Typed s p) :
    p.typed.outputs.map Value.name = p.outputNames ∨
      p.Reshaped ∧ p.consumed = false ∧ ∃ x xs slot, p.outputNames = x :: xs ∧
        s.registry.slots.get? x = some slot ∧ (∀ i, slot ≠ .interior i) ∧
          p.typed.outputs.map Value.name = (s.registry.value slot).name :: xs := by
  by_cases hp : p.Reshaped
  · exact .inr ⟨hp, h.names_of_reshaped hp⟩
  · exact .inl (h.names_of_kept hp)

variable (h : Step s p s') (hs : s.registry.Sound)

include h hs

/-- A name that the node writes is not closed before it. After it the name is closed, or it is that
of a graph output, or that of a graph input that a further output of a Constant or of an identity
overwrites. -/
lemma writes_output (hv : p.typed.outputs[k]? = some v) (hne : v.name ≠ "") :
    ¬ s.registry.Closed v.name ∧ (s'.registry.Closed v.name ∨
      (∃ i, s.registry.slots.get? v.name = some (.output i)) ∨
        (∃ i, s.registry.slots.get? v.name = some (.input i)) ∧
          ImportState.isTransparent p.typed.operator = true ∧ k ≠ 0) := by
  obtain ⟨hopen, slot, hslot⟩ :=
    h.open_of_written hs (mem_namesOf_of_mem (List.mem_of_getElem? hv) hne)
  refine ⟨hopen, ?_⟩
  rcases closed_or_outer hslot with hc | houter
  · left
    rw [h.state]
    exact hc.grows ((h.grows_marked hs).trans (h.grows_registry hs))
  · rw [(h.grows_recorded hs).outer houter] at hslot
    cases slot with
    | interior i => exact absurd rfl (houter i)
    | output i => exact .inr (.inl ⟨i, hslot⟩)
    | input i => exact .inr (.inr ⟨⟨i, hslot⟩, h.of_input hs hv hne hslot⟩)

/-- What a message writes is retired; or it is not closed before the passage, and after it it is
closed, or it is the name of a graph output, or that of a graph input that is overwritten. -/
theorem writes (hx : x ∈ ModelMessage.written p.messages) (hret : x ∉ p.retired) :
    ¬ s.registry.Closed x ∧ (s'.registry.Closed x ∨
      (∃ i, s.registry.slots.get? x = some (.output i)) ∨
        (∃ i, s.registry.slots.get? x = some (.input i)) ∧ p.Overwrites x) := by
  have hne := (ModelMessage.mem_written.mp hx).1
  have hx := (Passage.mem_outputNames_or_retired hx).resolve_right hret
  rcases h.typed.names_typed with hnames | ⟨hreshaped, hc, y, ys, slot, hout, hslot, houter, hnames⟩
  · rw [← hnames] at hx
    obtain ⟨v, hv, rfl⟩ := List.mem_map.mp hx
    obtain ⟨k, hk⟩ := List.getElem?_of_mem hv
    obtain ⟨hopen, hcases⟩ := h.writes_output hs hk hne
    refine ⟨hopen, ?_⟩
    obtain hc | ho | ⟨hi, ht, hk0⟩ := hcases
    · exact .inl hc
    · exact .inr (.inl ho)
    refine .inr (.inr ⟨hi, .inr ⟨ht, ?_⟩⟩)
    rw [Passage.outputNames_of_kept (h.transparent ht).1] at hnames
    rw [← hnames, ← List.map_tail]
    refine List.mem_map_of_mem (List.mem_of_getElem? (i := k - 1) ?_)
    rw [List.getElem?_tail, Nat.sub_add_cancel (Nat.pos_of_ne_zero hk0), hk]
  · rw [hout] at hx
    obtain rfl | hx := List.mem_cons.mp hx
    · refine ⟨fun hclosed => ?_, ?_⟩
      · obtain ⟨i, hi⟩ := hclosed.not_outer hslot
        exact houter i hi
      · cases slot with
        | interior i => exact absurd rfl (houter i)
        | output i => exact .inr (.inl ⟨i, hslot⟩)
        | input i =>
          refine .inr (.inr ⟨⟨i, hslot⟩, .inl ⟨hreshaped, ?_⟩⟩)
          rw [Passage.outputNames_of_kept hc] at hout
          rw [hout]
          rfl
    · have hmem : x ∈ p.typed.outputs.map Value.name := by
        rw [hnames]
        exact List.mem_cons_of_mem _ hx
      obtain ⟨v, hv, rfl⟩ := List.mem_map.mp hmem
      obtain ⟨k, hk⟩ := List.getElem?_of_mem hv
      obtain ⟨hopen, hcases⟩ := h.writes_output hs hk hne
      refine ⟨hopen, ?_⟩
      obtain hc | ho | ⟨-, ht, -⟩ := hcases
      · exact .inl hc
      · exact .inr (.inl ho)
      · simp [hreshaped.2, ImportState.isTransparent] at ht

/-- What both messages of a passage write is retired, or it is the name of a graph output. -/
theorem writes_both (hc : p.consumed = true) (hx : x ∈ p.message.outputs)
    (hx' : x ∈ p.nextOutputs) (hne : x ≠ "") (hret : x ∉ p.retired) :
    ∃ i, s.registry.slots.get? x = some (.output i) := by
  rw [Passage.retired, if_pos hc, mem_named, List.mem_append, not_and_or, not_or,
    or_iff_left (not_not.mpr hne)] at hret
  rw [← List.take_append_drop 1 p.message.outputs, List.mem_append] at hx
  rw [← List.take_append_drop 1 p.nextOutputs, List.mem_append] at hx'
  have hout := Passage.outputNames_of_consumed hc
  rcases h.typed.names_typed with hnames | ⟨-, hc', -⟩
  swap
  · simp [hc] at hc'
  cases hnext : p.nextOutputs with
  | nil => simp [hnext] at hx'
  | cons y ys =>
    obtain rfl : x = y := by simpa [hnext] using hx'.resolve_right hret.2
    rw [hout, hnext, List.take_succ_cons, List.take_zero, List.singleton_append] at hnames
    obtain ⟨v, vs, hv, rfl, hvs⟩ := List.map_eq_cons_iff.mp hnames
    obtain ⟨w, hw, hname⟩ := List.mem_map.mp (hvs ▸ hx.resolve_left hret.1)
    have hrecord := h.registry_lifting ▸ h.record
    rw [hv] at hrecord
    obtain ⟨slot, hslot, houter⟩ := record_twice hs hrecord hw hne hname
    cases slot with
    | interior i => exact absurd rfl (houter i)
    | output i => exact ⟨i, hslot⟩
    | input i =>
      obtain ⟨-, hk⟩ := h.of_input hs (k := 0) (by rw [hv]; rfl) hne hslot
      exact absurd rfl hk

end Step

/-- A Reshape that was an Unsqueeze writes no graph input, unless some node writes the name of one, or
an Unsqueeze leaves its output unnamed beside one without a name. -/
lemma Run.not_input_of_reshaped {i : Nat}
    (hin : ∀ x ∈ ModelMessage.written m.nodes, x ∉ m.inputNames) (hapart : m.UnsqueezesApart)
    (run : Run m ps (p.message :: rest) s) (h : Step.Front s p) (hp : p.Reshaped)
    (hx : p.message.outputs.head? = some x) : s.registry.slots.get? x ≠ some (.input i) := by
  intro hslot
  have hmessage : p.message ∈ m.nodes := by simp [← run.messages]
  by_cases hne : x = ""
  · exact (hapart _ hmessage (h.operator_of_reshaped hp) (hne ▸ hx)).1
      (hne ▸ run.mem_inputNames hslot)
  · exact hin x (ModelMessage.mem_written.mpr ⟨hne, _, hmessage, List.mem_of_head? hx⟩)
      (run.mem_inputNames hslot)

lemma Node.Reshapes.length_inputs (h : n.Reshapes r n') : n'.inputs.length = n.inputs.length := by
  cases h with
  | same node => rw [node]
  | reshape _ inputs _ _ _ _ node => simp [node, inputs]

lemma ImportState.Lifting.length_inputs (h : s.Lifting n s' n') :
    n'.inputs.length = n.inputs.length := by
  cases h with
  | writes _ _ node => rw [node]
  | same _ _ node => rw [node]
  | operands _ _ operands node =>
    have := operands.length_eq
    rw [node, List.length_append, ← this, ← List.length_append, List.take_append_drop]

lemma Step.Body.length_inputs (h : Step.Body s p) :
    p.message.inputs.length ≤ p.typed.inputs.length := by
  obtain ⟨lead, hlead⟩ := h.leads
  have hled : p.led.inputs.length = p.fused.inputs.length := by rw [hlead.inputs, List.length_map]
  rw [h.inputs_typed, h.reshapes.length_inputs, h.lifts.length_inputs, hled,
    h.inputs_specialised.length_eq]
  cases h.fuses with
  | same node => exact Nat.le_of_eq (by rw [node])
  | gemm _ _ _ inputs => exact Nat.le_of_eq inputs.length_eq
  | product _ node => exact Nat.le_of_eq (by rw [node])
  | biased _ _ _ _ _ _ _ node => simp [node]

/-- What a message names is an operand of its node, but that the second of an Unsqueeze may be
exchanged for a shape. -/
lemma Step.Body.operand_of_message (h : Step.Body s p) {lead : String → String} (hlead : Leads s p lead)
    (hx : p.message.inputs[k]? = some x) (hk : ¬ (k = 1 ∧ p.Reshaped)) :
    ∃ v u, p.typed.inputs[k]? = some v ∧ s.registry.resolve x = .ok u ∧ v.name = lead u.name ∧
      (v.literal.isSome = u.literal.isSome ∨ ∃ place, s.constants.get? v.name = some place) := by
  have hlt : k < p.message.inputs.length := (List.getElem?_eq_some_iff.mp hx).1
  have hv := List.getElem?_eq_getElem (Nat.lt_of_lt_of_le hlt h.length_inputs)
  cases h.operand hlead hv with
  | @read x' u message resolve value =>
    obtain rfl := Option.some.inj (hx.symm.trans message)
    exact ⟨_, u, hv, resolve, value.name, .inl value.isSome_literal⟩
  | @lifted x' u a place n message resolve _ known _ _ _ value =>
    obtain rfl := Option.some.inj (hx.symm.trans message)
    exact ⟨_, u, hv, resolve, by rw [value]; rfl, .inr ⟨place, by rw [value]; exact known⟩⟩
  | bias _ place => omega
  | shape place operator operator' => exact absurd ⟨place, operator, operator'⟩ hk

lemma Run.closed_elided {e : Elision} (run : Run m ps rest s) (he : s.elisions.get? x = some e)
    (hne : x ≠ "") : s.registry.Closed x := by
  induction run with
  | start => simp at he
  | @step ps p rest s s' run next step ih =>
    have hold : s.elisions.get? x = some e → s'.registry.Closed x := fun he =>
      (ih he).grows (step.grows run.sound)
    rw [step.elisions_eq] at he
    cases step.elides with
    | past _ _ state => exact hold (by rwa [state] at he)
    | @out u y us ys operator _ outputs _ inner _ state =>
      rw [state] at he
      change (s.elisions.insert y.name _).get? x = some e at he
      rw [Table.get?_insert] at he
      split at he
      swap
      · exact hold he
      next hx =>
      have hop : p.typed.operator = .identity := step.operator_of_transparent (p := p)
        (by rw [show p.fused.operator = .identity from operator]; rfl) ▸ operator
      rcases step.typed.names_typed with hnames | ⟨hreshaped, -⟩
      swap
      · simp [hreshaped.2] at hop
      have hfused : p.fused.outputs = y :: ys := outputs
      rw [step.outputs_fused] at hfused
      obtain ⟨z, zs, hz, rfl, -⟩ := List.map_eq_cons_iff.mp hfused
      rw [hz] at hnames
      obtain ⟨v, vs, hv, hname, -⟩ := List.map_eq_cons_iff.mp hnames
      obtain rfl : v.name = x := hname.trans hx.symm
      obtain ⟨-, hc | ⟨i, hi⟩ | ⟨-, -, hk⟩⟩ :=
        step.writes_output run.sound (k := 0) (by rw [hv]; rfl) hne
      · exact hc
      · have : s.registry.isOutput v.name = false := hx ▸ inner
        simp [Registry.isOutput, hi] at this
      · exact absurd rfl hk

/-- What is read as a literal is an array of the file, or the value of a graph input or of what a
node has produced. -/
lemma Run.of_literal (run : Run m ps rest s) (hne : x ≠ "") (hv : s.registry.resolve x = .ok v)
    (hlit : v.literal.isSome = true) :
    x ∈ m.initializerNames ∨ s.registry.Closed x ∨ ∃ i, s.registry.slots.get? x = some (.input i) := by
  obtain ⟨-, rfl⟩ | ⟨i, hi, -⟩ | ⟨i, hi, -⟩ := resolve_ok hne hv
  · refine .inl (run.arrays.contains.mp ?_)
    rw [Table.contains_eq_isSome_get?]
    cases ha : s.registry.initializers.get? x with
    | none => simp [ha] at hlit
    | some a => rfl
  · exact .inr (.inr ⟨i, hi⟩)
  · exact .inr (.inl (.inr ⟨i, hi⟩))

/-- What a message reads is closed after it, unless it is the name of a graph input or of an array,
or it is retired, or it is the second operand of an Unsqueeze that becomes a Reshape. -/
theorem Run.reads (run : Run m ps (p.message :: rest) s) (step : Step s p s')
    (hraw : raw ∈ p.messages) (hx : raw.inputs[k]? = some x) (hne : x ≠ "") :
    s'.registry.Closed x ∨ (∃ i, s'.registry.slots.get? x = some (.input i)) ∨
      x ∈ m.initializerNames ∨ x ∈ p.retired ∨ k = 1 ∧ p.Reshaped := by
  have hs := run.sound
  have hg := step.grows hs
  have hliteral : ∀ {u : Value}, s.registry.resolve x = .ok u → u.literal.isSome = true →
      s'.registry.Closed x ∨ (∃ i, s'.registry.slots.get? x = some (.input i)) ∨
        x ∈ m.initializerNames := fun hu hlit => by
    rcases run.of_literal hne hu hlit with hmem | hc | ⟨i, hi⟩
    · exact .inr (.inr hmem)
    · exact .inl (hc.grows hg)
    · exact .inr (.inl ⟨i, (hg.outer (by simp)).mpr hi⟩)
  rcases Passage.mem_messages.mp hraw with rfl | ⟨hc, hnext⟩
  · by_cases hk : k = 1 ∧ p.Reshaped
    · exact .inr (.inr (.inr (.inr hk)))
    obtain ⟨lead, hlead⟩ := step.leads
    obtain ⟨v, u, hv, hu, hname, -⟩ := step.operand_of_message hlead hx hk
    rw [run.arrays.name_resolve hu] at hname
    cases he : s.elisions.get? x with
    | some e => exact .inl ((run.closed_elided he hne).grows hg)
    | none =>
      have hlx : lead x = x := by
        rcases hlead.cases with rfl | ⟨rfl, -⟩
        · simp [ImportState.sourceOf, he]
        · rfl
      obtain rfl : v.name = x := hname.trans hlx
      have hg' := step.grows_registry hs
      rw [step.state]
      rcases renameInputs_closes (step.grows_recorded hs).sound step.renameInputs
        (List.mem_of_getElem? hv) hne with hc | ⟨i, hi⟩ | hmem
      · exact .inl (hc.grows hg')
      · exact .inr (.inl ⟨i, (hg'.outer (by simp)).mpr hi⟩)
      · rw [(step.grows_recorded hs).initializers] at hmem
        exact .inr (.inr (.inl (run.arrays.contains.mp hmem)))
  · obtain ⟨-, -, sum, add, bias, hsum, convert, adds⟩ := step.taken hc
    obtain rfl := Option.some.inj (hnext.symm.trans hsum)
    obtain ⟨v, hv, hu⟩ := forall₂_getElem? (convert_ok convert).2.2.1.flip hx
    rcases adds.covers v (List.mem_of_getElem? hv) with hlit | ⟨o, os, ho, hname⟩
    · rcases hliteral hu hlit with h | h | h
      · exact .inl h
      · exact .inr (.inl h)
      · exact .inr (.inr (.inl h))
    · rw [run.arrays.name_resolve hu] at hname
      rw [step.outputs_specialised] at ho
      obtain ⟨z, zs, hz, rfl, -⟩ := List.map_eq_cons_iff.mp ho
      refine .inr (.inr (.inr (.inl ?_)))
      rw [Passage.retired, if_pos hc, mem_named, hz, hname]
      exact ⟨by simp [bareValue], hname ▸ hne⟩

/-- The attributes of every message can be read. -/
theorem Run.attributes (run : Run m ps [] s) (hraw : raw ∈ m.nodes) :
    ∃ attributes, raw.toAttributes = .ok attributes := by
  rw [← run.messages, List.append_nil] at hraw
  obtain ⟨p, hp, hraw⟩ := List.mem_flatMap.mp hraw
  obtain ⟨before, after, hps⟩ := List.append_of_mem hp
  obtain ⟨rest₁, s₁, s₂, run₁, next, step, -⟩ := run.split_grows hps
  obtain ⟨n, hn⟩ := step.converts hraw
  exact ⟨_, (convert_ok hn).2.2.2.2⟩

end TensorGraph
