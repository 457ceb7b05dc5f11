import TensorGraph.Proofs.Accounting
import TensorGraph.Proofs.Import.Messages

/-!
# Graph outputs

The outputs of an imported graph are the declared ones that a node of the file writes, in the order
of the declarations, and each is what a node of the graph writes, unless a sum that is taken over
writes a graph output beside its first (`importGraph_outputs`).
-/

namespace TensorGraph

open Onnx ModelMessage Registry

variable {m : ModelMessage} {r₀ : Registry} {s s' : ImportState} {p q : Passage}
  {ps before after : List Passage} {rest : List NodeMessage} {raw : NodeMessage} {v w : Value}
  {d : ValueMessage} {x : String} {i k : Nat}

/-- No sum right after a product writes a graph output beside its first output. -/
def Onnx.ModelMessage.SumsWhole (m : ModelMessage) : Prop :=
  ∀ e ∈ m.nodes.zip m.nodes.tail, e.1.operator = "MatMul" → e.2.operator = "Add" →
    ∀ x ∈ named e.2.outputs.tail, x ∉ m.outputNames

instance : DecidablePred ModelMessage.SumsWhole := fun _ => by
  unfold ModelMessage.SumsWhole
  infer_instance

/-- A node of the graph, of one of the passages `ps`, writes the graph output `d` of the file, and the
value `o` has the name and the type of what it writes. -/
def Graph.Produces (g : Graph) (ps : List Passage) (d : ValueMessage) (o : Value) : Prop :=
  ∃ p ∈ ps, p.final ∈ g.nodes ∧ ∃ (k : Nat) (v : Value), p.outputNames[k]? = some d.name ∧
    p.final.outputs[k]? = some v ∧ v.name = o.name ∧ v.type = o.type

lemma mem_zip_tail {α : Type} {as bs : List α} {a b : α} :
    (a, b) ∈ (as ++ a :: b :: bs).zip (as ++ a :: b :: bs).tail := by
  induction as with
  | nil => simp
  | cons c as ih =>
    cases as with
    | nil => simp
    | cons d as => exact List.mem_cons_of_mem _ ih

lemma Step.Front.resolves (h : Step.Front s p) (hraw : raw ∈ p.messages) (hx : x ∈ raw.inputs) :
    ∃ v, s.registry.resolve x = .ok v := by
  obtain ⟨n, hn⟩ := h.converts hraw
  obtain ⟨v, -, hv⟩ := forall₂_exists_of_mem (convert_ok hn).2.2.1 hx
  exact ⟨v, hv⟩

lemma Run.not_outputName_of_read (run : Run m ps (p.message :: rest) s) (h : Step.Front s p)
    (hraw : raw ∈ p.messages) (hx : x ∈ raw.inputs) (hne : x ≠ "") : x ∉ m.outputNames := by
  intro hmem
  -- the name of a graph output cannot be resolved, so the message would not have been converted
  obtain ⟨v, hv⟩ := h.resolves hraw hx
  obtain ⟨i, hi⟩ := isOutput_eq_true.mp (run.isOutput_of_mem hmem)
  obtain ⟨hs, -⟩ | ⟨j, hs, -⟩ | ⟨j, hs, -⟩ := resolve_ok hne hv <;> simp [hi] at hs

/-- Where no sum after a product writes two graph outputs, no graph output is retired. -/
lemma Run.not_outputName_of_retired (hsums : m.SumsWhole) (run : Run m ps [] s) (hp : p ∈ ps)
    (hx : x ∈ p.retired) : x ∉ m.outputNames := by
  obtain ⟨before, after, rfl⟩ := List.append_of_mem hp
  obtain ⟨rest, s₁, s₂, run₁, next, step, -⟩ := run.split rfl
  unfold Passage.retired at hx
  split at hx
  swap
  · simp at hx
  next hc =>
  obtain ⟨hx, hne⟩ := mem_named.mp hx
  obtain ⟨hproduct, sum, o, os, hnext, hsum, hout, hread, -⟩ := run₁.sum_of_consumed step hc
  have hmessages : p.messages = [p.message, sum] := by simp [Passage.messages, hc, hnext]
  -- retired are the name that the sum reads and what the sum writes beside its first output
  rcases List.mem_append.mp hx with hx | hx
  · obtain rfl : x = o := by simpa [hout] using hx
    exact run₁.not_outputName_of_read step.toFront (by simp [hmessages]) hread hne
  · have hnodes : m.nodes = before.flatMap Passage.messages ++
        p.message :: sum :: after.flatMap Passage.messages := by
      rw [← run.messages, List.append_nil, List.flatMap_append, List.flatMap_cons, hmessages]
      simp
    refine hsums (p.message, sum) (hnodes ▸ mem_zip_tail) hproduct hsum x
      (mem_named.mpr ⟨?_, hne⟩)
    simpa [Passage.nextOutputs, hnext] using hx

lemma Run.exists_written (hm : m.WellFormed) (hin : m.InputsNamed) (hsums : m.SumsWhole)
    (run : Run m ps [] s) (hx : x ∈ ModelMessage.written m.nodes) (hmem : x ∈ m.outputNames) :
    ∃ q ∈ ps, x ∈ q.written := by
  obtain ⟨r₀, hr⟩ := run.registry_eq_ok
  have reg := run.registered hm hin hr
  rw [← run.messages, List.append_nil] at hx
  obtain ⟨q, hq, hw | hret⟩ := reg.written_or_retired hx
  · exact ⟨q, hq, hw⟩
  · exact absurd hmem (run.not_outputName_of_retired hsums hq hret)

lemma Step.not_output_of_read (h : Step s p s') (hs : s.registry.Sound) (hv : v ∈ p.typed.inputs)
    (hne : v.name ≠ "") : s.registry.slots.get? v.name ≠ some (.output i) := by
  intro hi
  have hgrows := h.grows_recorded hs
  have hreads := (renameInputs_ok hgrows.sound h.renameInputs).2.2 v hv hne
  exact hreads.1 i ((hgrows.outer (by simp)).mpr hi)

lemma Run.kept_of_output (hm : m.WellFormed) (hin : m.InputsNamed) (hgen : m.NoGenerated)
    (run : Run m ps [] s) (hk : ps[k]? = some q) (hx : x ∈ q.written)
    (hi : s.registry.slots.get? x = some (.output i)) : k ∉ s.removed := by
  intro hremoved
  have hne := (Passage.mem_written.mp hx).1
  have tracks := run.tracks hm hin hgen
  obtain ⟨q', hq', -, hdropped⟩ := tracks.removed hremoved
  obtain rfl := Option.some.inj (hk.symm.trans hq')
  -- an elided identity writes an interior name, and what a later node reads is no graph output
  cases hdropped with
  | @elided y e elision place =>
    obtain ⟨-, q', hq', hw⟩ := tracks.elided elision
    obtain rfl := Option.some.inj ((place ▸ hq').symm.trans hk)
    obtain rfl : x = y := by simpa [hw] using hx
    obtain ⟨j, hj⟩ := (run.closed_elided elision hne).not_outer hi
    simp at hj
  | @lifted before after p w split mem input literal hw lifts =>
    obtain rfl : x = w.name := by simpa [hw] using hx
    obtain ⟨rest₁, s₁, s₂, run₁, -, step, hgrows⟩ := run.split_grows split
    have hi₁ := ((step.grows run₁.sound).outer (by simp)).mp ((hgrows.outer (by simp)).mp hi)
    exact step.not_output_of_read run₁.sound input hne hi₁

lemma Step.Closes.used_written (h : Step.Closes r₀ p) (hx : x ∈ p.written)
    (hs : r₀.slots.get? x = some (.output i)) : ∀ w ∈ p.registry.find? x, w.used = true := by
  obtain ⟨hne, v, hv, rfl⟩ := Passage.mem_written.mp hx
  obtain ⟨k, hk⟩ := List.getElem?_of_mem hv
  obtain ⟨-, u, hu, hfind⟩ := h.settles.renamed hk hne
  have hused : u.used = true := by
    cases h.records v hv hne with
    | fresh j new => simp [hs] at new
    | input j slot => simp [hs] at slot
    | output j _ slot' value =>
      have hmarked : p.marked.slots.get? v.name = some (.output j) := by
        rw [h.marks.slots, slot']
      rw [find?_of_slot hmarked] at hu
      rw [find?_of_slot slot'] at value
      have hvalue : p.marked.value (.output j) = p.recorded.value (.output j) := by
        simp only [Registry.value, h.marks.outputs]
      rw [← Option.some.inj hu, hvalue, Option.some.inj value]
  intro w hw
  rw [hfind] at hw
  obtain rfl := Option.some.inj hw
  exact hused

/-- A graph output counts as used once a node has written it. -/
lemma Run.used_output (hm : m.WellFormed) (hin : m.InputsNamed) (hr : ofModel m = .ok r₀)
    (run : Run m ps rest s) (hq : q ∈ ps) (hx : x ∈ q.written)
    (hs : r₀.slots.get? x = some (.output i)) : (s.registry.value (.output i)).used = true := by
  induction run with
  | start => simp at hq
  | @step ps p rest s s' run next step ih =>
    have reg := run.registered hm hin hr
    have closes := run.closes hm hin next step
    have hslot := reg.holds.outer hs
    have hfind : p.registry.find? x = some (s'.registry.value (.output i)) := by
      rw [step.state]
      exact find?_of_slot (closes.slots_of_some hslot)
    by_cases hp : x ∈ p.written
    · exact closes.used_written hp hslot _ hfind
    · rw [List.mem_append, List.mem_singleton] at hq
      have hold := ih (hq.resolve_right fun e => hp (e ▸ hx))
      rcases closes.find?_outside hp with e | ⟨-, e⟩
      · rw [hfind, find?_of_slot hslot] at e
        rw [Option.some.inj e]
        exact hold
      · rw [hfind, find?_of_slot hslot] at e
        rw [Option.some.inj e]

/-- A graph output that a node writes is in the graph, as what a node of the graph writes. One that
no node writes is not. -/
lemma Run.output (hm : m.WellFormed) (hin : m.InputsNamed) (hout : m.OutputsDistinct)
    (hgen : m.NoGenerated) (hsums : m.SumsWhole) (run : Run m ps [] s) (hd : m.outputs[i]? = some d) :
    decide (d.name ∈ ModelMessage.written m.nodes) = (s.registry.value (.output i)).used ∧
      (d.name ∈ ModelMessage.written m.nodes →
        (s.graph m.name).Produces ps d (s.registry.value (.output i))) := by
  obtain ⟨r₀, hr⟩ := run.registry_eq_ok
  have reg := run.registered hm hin hr
  have hs₀ := reg.declares.slot_output hout hd
  have hs := reg.holds.outer hs₀
  by_cases hw : d.name ∈ ModelMessage.written m.nodes
  · have hmem : d.name ∈ m.outputNames := List.mem_map_of_mem (List.mem_of_getElem? hd)
    obtain ⟨q, hq, hx⟩ := run.exists_written hm hin hsums hw hmem
    refine ⟨by simp [hw, run.used_output hm hin hr hq hx hs₀], fun _ => ?_⟩
    obtain ⟨k, hk⟩ := List.getElem?_of_mem hq
    obtain ⟨hne, v, hv, hname⟩ := Passage.mem_written.mp hx
    obtain ⟨j, hj⟩ := List.getElem?_of_mem hv
    have hkept := run.kept_of_output hm hin hgen hk hx hs
    refine ⟨q, hq, (mem_graph_nodes run.nodes).mpr ⟨k, q, hk, hkept, rfl⟩, j,
      { v with name := ImportState.outputName q.typed (1 + j) }, ?_, ?_, ?_⟩
    · rw [← (reg.writes q hq).map_name, List.getElem?_map, hj, Option.map_some, hname]
    · obtain ⟨before, after, hps⟩ := List.append_of_mem hq
      rw [(run.edged hm hin hgen hr hps).outputs, getElem?_renamedOutputs, hj, Option.map_some,
        if_neg (hname ▸ hne)]
    · obtain ⟨-, used, hfind⟩ := reg.holds.written hq hj (hname ▸ hne)
      rw [hname, find?_of_slot hs] at hfind
      rw [Option.some.inj hfind, Nat.add_comm]
      exact ⟨rfl, rfl⟩
  · refine ⟨?_, fun h => absurd h hw⟩
    have hpending := reg.holds.pending hs₀ fun q hq hx => hw (reg.written q hq hx)
    rw [find?_of_slot hs, find?_of_slot hs₀] at hpending
    obtain ⟨_, -, -, hvalue⟩ := reg.declares.output hs₀
    rw [Option.some.inj hpending, used_declared hvalue]
    simpa using hw

/-- The outputs of the graph of a well-formed model are the graph outputs of the file that a node
writes, in their order, and nodes of the graph write them. The graph inputs have names, and no sum
right after a product writes a graph output beside its first output. -/
theorem importGraph_outputs {checkFirst : Bool} {g : Graph} (hm : m.WellFormed)
    (hin : m.InputsNamed) (hout : m.OutputsDistinct) (hgen : m.NoGenerated) (hsums : m.SumsWhole)
    (h : m.importGraph checkFirst = .ok g) :
    ∃ ps s, Run m ps [] s ∧ g = s.graph m.name ∧ List.Forall₂ (g.Produces ps)
      (m.outputs.filter fun d => d.name ∈ ModelMessage.written m.nodes) g.outputs := by
  simp only [importGraph, Except.bind_eq_ok, Except.pure_eq_ok] at h
  obtain ⟨s, hs, rfl⟩ := h
  obtain ⟨ps, run⟩ := importState_eq_ok.mp (importState_of_check hs)
  obtain ⟨r₀, hr⟩ := run.registry_eq_ok
  have reg := run.registered hm hin hr
  have hlength : m.outputs.length = s.registry.outputs.length := by
    rw [reg.holds.outputs, reg.declares.outputs]
  refine ⟨ps, s, run, rfl, forall₂_filter (List.forall₂_iff_get.mpr ⟨hlength, fun i hi hi' => ?_⟩)⟩
  have houtput := run.output hm hin hout hgen hsums (List.getElem?_eq_getElem hi)
  simpa only [List.get_eq_getElem, Registry.value, List.getD_eq_getElem?_getD,
    List.getElem?_eq_getElem hi', Option.getD_some, decide_eq_true_eq] using houtput

/-- A product and a sum that become a linear layer, an identity that writes a graph output, and a graph
output that no node writes. -/
def forwarded : ModelMessage where
  inputs := [{ name := "x", elementType := 7, dims := [.size 2, .size 3] }]
  outputs := [{ name := "u", elementType := 7, dims := [.size 1] },
    { name := "z", elementType := 7, dims := [.size 2, .size 2] },
    { name := "y", elementType := 7, dims := [.size 2, .size 3] }]
  initializers := [
    { name := "w", dataType := 7, dims := [3, 2], int64s := [1, 2, 3, 4, 5, 6] },
    { name := "b", dataType := 7, dims := [2], int64s := [7, 8] }]
  nodes := [
    { operator := "Identity", inputs := ["x"], outputs := ["y"] },
    { operator := "MatMul", inputs := ["x", "w"], outputs := ["p"] },
    { operator := "Add", inputs := ["p", "b"], outputs := ["z"] }]

theorem importGraph_outputs_forwarded :
    forwarded.WellFormed ∧ forwarded.InputsNamed ∧ forwarded.OutputsDistinct ∧
      forwarded.NoGenerated ∧ forwarded.SumsWhole ∧ ∃ g, forwarded.importGraph false = .ok g ∧
        g.outputs.map Value.name = ["linear1_out1", "identity1_out1"] ∧
        ∃ ps s, Run forwarded ps [] s ∧ g = s.graph forwarded.name ∧ List.Forall₂ (g.Produces ps)
          (forwarded.outputs.filter fun d => d.name ∈ ModelMessage.written forwarded.nodes)
          g.outputs := by
  have himport : ∃ g, forwarded.importGraph false = .ok g ∧
      g.outputs.map Value.name = ["linear1_out1", "identity1_out1"] :=
    Except.exists_ok (by decide +kernel)
  obtain ⟨g, hg, hnames⟩ := himport
  exact ⟨by decide, by decide, by decide, by decide, by decide, g, hg, hnames,
    importGraph_outputs (by decide) (by decide) (by decide) (by decide) (by decide) hg⟩

/-- A sum after a product that writes two graph outputs. -/
def splitSum : ModelMessage where
  inputs := [{ name := "x", elementType := 7, dims := [.size 2, .size 3] }]
  outputs := [{ name := "y", elementType := 7, dims := [.size 2, .size 2] },
    { name := "z", elementType := 7, dims := [.size 2, .size 2] }]
  initializers := [
    { name := "w", dataType := 7, dims := [3, 2], int64s := [1, 2, 3, 4, 5, 6] },
    { name := "b", dataType := 7, dims := [2], int64s := [7, 8] }]
  nodes := [
    { operator := "MatMul", inputs := ["x", "w"], outputs := ["p"] },
    { operator := "Add", inputs := ["p", "b"], outputs := ["y", "z"] }]

/-- Both graph outputs are written, and one is in the graph. -/
theorem splitSum_loses_output :
    splitSum.WellFormed ∧ splitSum.InputsNamed ∧ splitSum.OutputsDistinct ∧
      splitSum.ConstantsClosed ∧ splitSum.NoGenerated ∧
        (∀ d ∈ splitSum.outputs, d.name ∈ ModelMessage.written splitSum.nodes) ∧
          splitSum.outputs.length = 2 ∧
            ∃ g, splitSum.importGraph false = .ok g ∧ g.outputs.length = 1 :=
  ⟨by decide, by decide, by decide, by decide, by decide, by decide, rfl,
    Except.exists_ok (by decide +kernel)⟩

end TensorGraph
