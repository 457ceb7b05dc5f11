import TensorGraph.Proofs.Import.Late

/-!
# Names produced late

Where a node is refused because it produces a name that has been read in vain, the order of the file's
nodes is wrong, and that is what the import reports (`importGraph_of_late`), unless an Unsqueeze leaves
its output unnamed beside a graph input or output without a name.
-/

namespace TensorGraph

open Onnx ModelMessage Registry

variable {m : ModelMessage} {s : ImportState} {p : Passage} {ps : List Passage}
  {rest : List NodeMessage} {x y : String} {i : Nat}

section

variable (hnd : (ModelMessage.written m.nodes).Nodup)
  (hin : ∀ x ∈ ModelMessage.written m.nodes, x ∉ m.inputNames) (hapart : m.UnsqueezesApart)

include hin hapart

/-- The outputs of a node bear the names that the file has for them, if that is so of the graph outputs
that stand under these names. -/
lemma Run.names_outputs (run : Run m ps (p.message :: rest) s)
    (hname : ∀ {y i}, y ∈ ModelMessage.written p.messages →
      s.registry.slots.get? y = some (.output i) → (s.registry.value (.output i)).name = y)
    (h : Step.Typed s p) : p.typed.outputs.map Value.name = p.outputNames := by
  rcases h.names_typed with hnames | ⟨hreshaped, hc, y, ys, slot, hout, hslot, houter, hnames⟩
  · exact hnames
  -- a Reshape made of an Unsqueeze has the name of the boundary value that it writes
  have houtputs : p.message.outputs = y :: ys := by
    rwa [Passage.outputNames_of_kept hc] at hout
  have hhead : p.message.outputs.head? = some y := by rw [houtputs]; rfl
  cases slot with
  | interior i => exact absurd rfl (houter i)
  | input i => exact absurd hslot (run.not_input_of_reshaped hin hapart h.toFront hreshaped hhead)
  | output i =>
    have hy : y ≠ "" := by
      rintro rfl
      exact (hapart _ (by simp [← run.messages]) (h.operator_of_reshaped hreshaped) hhead).2
        (run.mem_outputNames hslot)
    rw [hnames, hout, hname (Passage.written_of_mem_outputNames (by simp [hout]) hy) hslot]

include hnd

/-- A graph output keeps its name until a node writes it. -/
lemma Run.name_output (run : Run m ps rest s) (hy : y ∈ ModelMessage.written rest)
    (hslot : s.registry.slots.get? y = some (.output i)) :
    (s.registry.value (.output i)).name = y := by
  -- the names of the node's own outputs rest on the induction: it may write the boundary as well
  induction run generalizing y i with
  | start h =>
    obtain ⟨d, -, rfl, hvalue⟩ := (ofModel_declares h).1.output hslot
    exact (declared_ok hvalue).1
  | @step ps p rest s s' run next step ih =>
    have hsplit := Passage.messages_append next
    have hleft : ∀ {z}, z ∈ ModelMessage.written p.messages ∨
        z ∈ ModelMessage.written (if p.consumed then rest.tail else rest) →
          z ∈ ModelMessage.written (p.message :: rest) := fun hz => by
      rw [← hsplit, written_append]
      exact List.mem_append.mpr hz
    have hnames := run.names_outputs hin hapart (fun hz => ih (hleft (.inl hz))) step.typed
    have hy' : y ∉ p.written := fun hw => by
      rw [Passage.written, namesOf, hnames] at hw
      obtain ⟨hw, hne⟩ := mem_named.mp hw
      rw [← run.nodes_step next, written_append, List.nodup_append, written_append] at hnd
      exact hnd.2.2 y (List.mem_append_right _ (Passage.written_of_mem_outputNames hw hne)) y hy rfl
    obtain ⟨hslots, hvalue⟩ := step.outside run.sound hy' (ModelMessage.mem_written.mp hy).1
    rw [hslots] at hslot
    rcases hvalue _ hslot with e | e
    · rw [e, ih (hleft (.inr hy)) hslot]
    · rw [e]
      exact ih (hleft (.inr hy)) hslot

end

lemma Run.readsAhead (run : Run m ps (p.message :: rest) s) (next : p.next = rest.head?)
    (hread : ReadBy ps x) (hwrite : x ∈ ModelMessage.written p.messages) :
    ∃ i k j, m.ReadsAhead i k j x := by
  obtain ⟨reader, hreader, hx⟩ := hread
  obtain ⟨hne, writer, hwriter, hx'⟩ := ModelMessage.mem_written.mp hwrite
  obtain ⟨i, hi⟩ := List.getElem?_of_mem hreader
  obtain ⟨k, hk⟩ := List.getElem?_of_mem hx
  obtain ⟨j, hj⟩ := List.getElem?_of_mem hwriter
  have hlt := (List.getElem?_eq_some_iff.mp hi).1
  refine ⟨i, k, (ps.flatMap Passage.messages).length + j, hne, by omega, ⟨reader, ?_, hk⟩,
    writer, ?_, hx'⟩
  · rw [← run.messages]
    exact getElem?_append_of_some hi
  · rw [← run.nodes_step next, List.append_assoc, List.getElem?_append_right (by omega),
      Nat.add_sub_cancel_left]
    exact getElem?_append_of_some hj

/-- A node that is refused because it produces the name late stands behind a node of the file that reads
the name. -/
theorem Step.Late.readsAhead (hnd : (ModelMessage.written m.nodes).Nodup)
    (hin : ∀ x ∈ ModelMessage.written m.nodes, x ∉ m.inputNames) (hgen : m.NoGenerated)
    (hapart : m.UnsqueezesApart) (run : Run m ps (p.message :: rest) s) (next : p.next = rest.head?)
    (h : Late s p x) : ∃ i k j, m.ReadsAhead i k j x := by
  obtain ⟨hne, hmissed, -, v, hv, rfl⟩ := h.missed run.sound
  have hwrite : v.name ∈ ModelMessage.written p.messages := by
    refine Passage.written_of_mem_outputNames ?_ hne
    rw [← run.names_outputs hin hapart (fun hy => run.name_output hnd hin hapart ?_) h.toTyped]
    · exact List.mem_map_of_mem hv
    · rw [← Passage.messages_append next, written_append]
      exact List.mem_append_left _ hy
  have hmodel : v.name ∈ ModelMessage.written m.nodes := by
    rw [← run.nodes_step next, written_append, written_append]
    simp [hwrite]
  rcases run.missed hmissed with hread | hg
  · exact run.readsAhead next hread hwrite
  · exact absurd hmodel (not_written_of_generated hgen hg)

/-- Whenever a node is refused because it produces a name that has been read in vain, the order of the
file's nodes is wrong, and the import reports that. It never reports the name. Attributes can be read,
no two nodes write one name, none writes that of a graph input, and no Unsqueeze leaves its output
unnamed beside a graph input or output without a name. -/
theorem importGraph_of_late (hattr : ∀ raw ∈ m.nodes, ∃ a, raw.toAttributes = .ok a)
    (hnd : (ModelMessage.written m.nodes).Nodup)
    (hin : ∀ x ∈ ModelMessage.written m.nodes, x ∉ m.inputNames) (hgen : m.NoGenerated)
    (hapart : m.UnsqueezesApart) :
    (∀ ps p rest s x, Run m ps (p.message :: rest) s → p.next = rest.head? → Step.Late s p x →
      ∃ y j i, m.checkOrder = .error (.structural (.outOfOrder y j i)) ∧
        ∀ checkFirst, m.importGraph checkFirst = .error (.structural (.outOfOrder y j i))) ∧
      ∀ checkFirst x writer,
        m.importGraph checkFirst ≠ .error (.naming (.producedLate x writer)) := by
  have hreport : ∀ ps p rest s x, Run m ps (p.message :: rest) s → p.next = rest.head? →
      Step.Late s p x → ∃ y j i, m.checkOrder = .error (.structural (.outOfOrder y j i)) ∧
        ∀ checkFirst, m.importGraph checkFirst = .error (.structural (.outOfOrder y j i)) := by
    intro ps p rest s x run next late
    obtain ⟨i, k, j, hahead⟩ := late.readsAhead hnd hin hgen hapart run next
    obtain ⟨y, j, i, hcheck⟩ := exists_checkOrder_eq_error hattr hahead
    exact ⟨y, j, i, hcheck, late.importGraph_eq run next hcheck⟩
  refine ⟨hreport, fun checkFirst x writer h => ?_⟩
  obtain ⟨hcheck, ps, p, rest, s, run, next, late⟩ := importGraph_eq_late h
  obtain ⟨y, j, i, herror, -⟩ := hreport ps p rest s x run next late
  simp [hcheck] at herror

/-- A Relu that stands before the Neg whose result it reads. -/
def lateNeg : ModelMessage where
  inputs := [{ name := "x", elementType := 1, dims := [.size 2] }]
  outputs := [{ name := "z", elementType := 1, dims := [.size 2] }]
  nodes := [
    { operator := "Relu", inputs := ["p"], outputs := ["z"] },
    { operator := "Neg", inputs := ["x"], outputs := ["p"] }]

lemma lateNeg_refused : ∃ ps p rest s, Run lateNeg ps (p.message :: rest) s ∧ p.next = rest.head? ∧
    Step.Late s p "p" := by
  let relu : NodeMessage := { operator := "Relu", inputs := ["p"], outputs := ["z"] }
  let neg : NodeMessage := { operator := "Neg", inputs := ["x"], outputs := ["p"] }
  -- in the empty model the order is right, so that the Neg is refused by name
  obtain ⟨⟨s, consumed⟩, hs, hconsumed, hneg⟩ :
      ∃ result : ImportState × Bool, (Registry.ofModel lateNeg >>= fun r =>
        ({ registry := r } : ImportState).step lateNeg relu (some neg)) = .ok result ∧
          result.2 = false ∧ (result.1.step {} neg none).map (fun _ => ()) =
            .error (.naming (.producedLate "p" "neg1")) :=
    Except.exists_ok (by decide +kernel)
  obtain ⟨r, hr, hstep⟩ := Except.bind_eq_ok.mp hs
  obtain ⟨p, hp, hnext, hp', step⟩ := step_eq_ok.mp hstep
  have run₀ : Run lateNeg [] (p.message :: [neg]) { registry := r } := hp ▸ Run.start hr
  have run := run₀.step hnext step
  rw [hp', show consumed = false from hconsumed, if_neg Bool.false_ne_true] at run
  have hneg : s.step {} neg none = .error (.naming (.producedLate "p" "neg1")) := by
    cases h : s.step {} neg none with
    | error e => simpa [h, Except.map] using hneg
    | ok _ => simp [h, Except.map] at hneg
  obtain ⟨-, q, hq, hnext', late⟩ := step_eq_late run.sound hneg
  exact ⟨[] ++ [p], q, [], s, hq ▸ run, hnext', late⟩

theorem importGraph_of_late_lateNeg :
    (∀ raw ∈ lateNeg.nodes, ∃ a, raw.toAttributes = .ok a) ∧
      (ModelMessage.written lateNeg.nodes).Nodup ∧
      (∀ x ∈ ModelMessage.written lateNeg.nodes, x ∉ lateNeg.inputNames) ∧
      lateNeg.NoGenerated ∧ lateNeg.UnsqueezesApart ∧
      (∃ y j i, lateNeg.checkOrder = .error (.structural (.outOfOrder y j i)) ∧
        ∀ checkFirst, lateNeg.importGraph checkFirst = .error (.structural (.outOfOrder y j i))) ∧
      ∀ checkFirst x writer,
        lateNeg.importGraph checkFirst ≠ .error (.naming (.producedLate x writer)) := by
  have hattr : ∀ raw ∈ lateNeg.nodes, ∃ a, raw.toAttributes = .ok a := by
    intro raw hraw
    simp only [lateNeg, List.mem_cons, List.not_mem_nil, or_false] at hraw
    rcases hraw with rfl | rfl <;> exact ⟨_, rfl⟩
  obtain ⟨hreport, hname⟩ := importGraph_of_late hattr (by decide) (by decide) (by decide) (by decide)
  obtain ⟨ps, p, rest, s, run, next, late⟩ := lateNeg_refused
  exact ⟨hattr, by decide, by decide, by decide, by decide, hreport ps p rest s "p" run next late,
    hname⟩

/-- A Constant and an Unsqueeze that leave their outputs unnamed, a graph output without a name, and a
Relu that reads the name that is given to the Constant's output. -/
def unnamedOutputs : ModelMessage where
  inputs := [{ name := "x", elementType := 1, dims := [.size 2] },
    { name := "a", elementType := 7, dims := [.size 1] }]
  outputs := [{ name := "", elementType := 1, dims := [.size 1, .size 2] }]
  nodes := [
    { operator := "Relu", inputs := ["constant1_out1"], outputs := ["h"] },
    { operator := "Constant", outputs := [""],
      attributes := [{ name := "value_int", kind := .int, int := 0 }] },
    { operator := "Unsqueeze", inputs := ["x", "a"], outputs := [""] }]

/-- The Unsqueeze is refused by name, and the order is right. -/
theorem unnamedOutputs_refused :
    (∀ raw ∈ unnamedOutputs.nodes, ∃ a, raw.toAttributes = .ok a) ∧
      (ModelMessage.written unnamedOutputs.nodes).Nodup ∧
      (∀ n ∈ unnamedOutputs.nodes, ∀ x ∈ n.outputs, x ∉ unnamedOutputs.inputNames) ∧
      unnamedOutputs.NoGenerated ∧ unnamedOutputs.checkOrder = .ok () ∧
      unnamedOutputs.importGraph false =
        .error (.naming (.producedLate "constant1_out1" "unsqueeze1")) := by
  refine ⟨fun raw hraw => ?_, by decide, by decide, by decide, by decide +kernel,
    by decide +kernel⟩
  simp only [unnamedOutputs, List.mem_cons, List.not_mem_nil, or_false] at hraw
  rcases hraw with rfl | rfl | rfl <;> exact ⟨_, rfl⟩

end TensorGraph
