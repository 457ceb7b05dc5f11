import TensorGraph.Proofs.Import.Messages

/-!
# Single assignment

A model in which two nodes write one name is imported only if the name is that of a graph output, or
is retired by the passage of one of the two, or is that of a graph input that both write over
(`importGraph_of_writtenTwice`).
-/

namespace TensorGraph

open Onnx ModelMessage Registry

variable {m : ModelMessage} {s : ImportState} {p q : Passage} {ps : List Passage}
  {rest : List NodeMessage} {raw raw' : NodeMessage} {x : String} {a b i j : Nat}

/-- Why an import with the passages `ps` does not see that the messages at positions `i` and `j`
write the same name. -/
inductive TwiceUnseen (m : ModelMessage) (ps : List Passage) (i j : Nat) (x : String) : Prop where
  | output (mem : x ∈ m.outputNames)
  | retired {k a : Nat} {p : Passage} (place : k = i ∨ k = j) (handles : Handles ps k a p)
      (retired : x ∈ p.retired)
  | input {a b : Nat} {p q : Passage} (mem : x ∈ m.inputNames) (first : Handles ps i a p)
      (second : Handles ps j b q) (overwrites : p.Overwrites x) (overwrites' : q.Overwrites x)

lemma TwiceUnseen.symm (h : TwiceUnseen m ps i j x) : TwiceUnseen m ps j i x := by
  cases h with
  | output mem => exact .output mem
  | retired place handles retired => exact .retired place.symm handles retired
  | input mem first second overwrites overwrites' =>
    exact .input mem second first overwrites' overwrites

/-- Two passages write one name. -/
lemma twiceUnseen_of_lt (run : Run m ps rest s) (hab : a < b) (hi : Handles ps i a p)
    (hj : Handles ps j b q) (hx : x ∈ ModelMessage.written p.messages)
    (hx' : x ∈ ModelMessage.written q.messages) : TwiceUnseen m ps i j x := by
  by_cases hret : x ∈ p.retired
  · exact .retired (.inl rfl) hi hret
  by_cases hret' : x ∈ q.retired
  · exact .retired (.inr rfl) hj hret'
  obtain ⟨_, s₁, s₂, _, s₃, s₄, run₁, step₁, hg, run₃, step₃⟩ :=
    run.split_pair hi.passage hj.passage hab
  obtain ⟨-, hcases⟩ := step₁.writes run₁.sound hx hret
  obtain ⟨hopen, hcases'⟩ := step₃.writes run₃.sound hx' hret'
  rcases hcases with hc | ⟨k, hk⟩ | ⟨⟨k, hk⟩, hover⟩
  · exact absurd (hc.grows hg) hopen
  · exact .output (run₁.mem_outputNames hk)
  -- the name is still that of a graph input when the second passage writes it
  have hk' : s₃.registry.slots.get? x = some (.input k) :=
    (((step₁.grows run₁.sound).trans hg).outer (by simp)).mpr hk
  rcases hcases' with hc | ⟨l, hl⟩ | ⟨-, hover'⟩
  · obtain ⟨l, hl⟩ := hc.not_outer (((step₃.grows run₃.sound).outer (by simp)).mpr hk')
    simp at hl
  · simp [hk'] at hl
  · exact .input (run₁.mem_inputNames hk) hi hj hover hover'

/-- One passage takes in two messages that write one name. -/
lemma twiceUnseen_of_eq (run : Run m ps rest s) (hij : i < j) (hi : Handles ps i a p)
    (hj : Handles ps j a p) (hraw : (ps.flatMap Passage.messages)[i]? = some raw)
    (hraw' : (ps.flatMap Passage.messages)[j]? = some raw') (hne : x ≠ "") (hx : x ∈ raw.outputs)
    (hx' : x ∈ raw'.outputs) : TwiceUnseen m ps i j x := by
  by_cases hret : x ∈ p.retired
  · exact .retired (.inl rfl) hi hret
  obtain ⟨hc, rfl, hnext⟩ := hi.consumed hj hij hraw hraw'
  obtain ⟨before, after, hps, -⟩ := split_of_getElem? hi.passage
  obtain ⟨_, s₁, s₂, run₁, -, step₁, -⟩ := run.split_grows hps
  have hx' : x ∈ p.nextOutputs := by rwa [Passage.nextOutputs, hnext]
  obtain ⟨k, hk⟩ := step₁.writes_both run₁.sound hc hx hx' hne hret
  exact .output (run₁.mem_outputNames hk)

lemma Run.twiceUnseen (run : Run m ps [] s) (hij : i < j) (hne : x ≠ "")
    (hraw : m.nodes[i]? = some raw) (hx : x ∈ raw.outputs) (hraw' : m.nodes[j]? = some raw')
    (hx' : x ∈ raw'.outputs) : TwiceUnseen m ps i j x := by
  rw [← run.messages, List.append_nil] at hraw hraw'
  obtain ⟨a, p, hi⟩ := exists_handles (List.getElem?_eq_some_iff.mp hraw).1
  obtain ⟨b, q, hj⟩ := exists_handles (List.getElem?_eq_some_iff.mp hraw').1
  rcases Nat.eq_or_lt_of_le (hi.mono hj (Nat.le_of_lt hij)) with rfl | hab
  · obtain rfl : p = q := Option.some.inj (hi.passage.symm.trans hj.passage)
    exact twiceUnseen_of_eq run hij hi hj hraw hraw' hne hx hx'
  · exact twiceUnseen_of_lt run hab hi hj
      (ModelMessage.mem_written.mpr ⟨hne, raw, hi.mem hraw, hx⟩)
      (ModelMessage.mem_written.mpr ⟨hne, raw', hj.mem hraw', hx'⟩)

/-- The import of a model in which two nodes write one name fails, but where it does not see that
they do. -/
theorem importGraph_of_writtenTwice (checkFirst : Bool) (hij : i ≠ j) (hne : x ≠ "")
    (hi : ∃ raw, m.nodes[i]? = some raw ∧ x ∈ raw.outputs)
    (hj : ∃ raw, m.nodes[j]? = some raw ∧ x ∈ raw.outputs) :
    (∃ e, m.importGraph checkFirst = .error e) ∨ ∃ ps s, Run m ps [] s ∧
      m.importGraph checkFirst = .ok (s.graph m.name) ∧ TwiceUnseen m ps i j x := by
  cases hg : m.importGraph checkFirst with
  | error e => exact .inl ⟨e, rfl⟩
  | ok g =>
    right
    simp only [importGraph, Except.bind_eq_ok, Except.pure_eq_ok] at hg
    obtain ⟨s, hs, rfl⟩ := hg
    obtain ⟨ps, run⟩ := importState_eq_ok.mp (importState_of_check hs)
    obtain ⟨raw, hraw, hx⟩ := hi
    obtain ⟨raw', hraw', hx'⟩ := hj
    refine ⟨ps, s, run, rfl, ?_⟩
    rcases Nat.lt_or_gt_of_ne hij with hlt | hlt
    · exact run.twiceUnseen hlt hne hraw hx hraw' hx'
    · exact (run.twiceUnseen hlt hne hraw' hx' hraw hx).symm

/-- A Relu and a Neg that write the same graph output. -/
def sharedOutput : ModelMessage where
  inputs := [{ name := "x", elementType := 1, dims := [.size 2] }]
  outputs := [{ name := "y", elementType := 1, dims := [.size 2] }]
  nodes := [
    { operator := "Relu", inputs := ["x"], outputs := ["y"] },
    { operator := "Neg", inputs := ["x"], outputs := ["y"] }]

theorem importGraph_of_writtenTwice_sharedOutput :
    (∃ e, sharedOutput.importGraph false = .error e) ∨ ∃ ps s, Run sharedOutput ps [] s ∧
      sharedOutput.importGraph false = .ok (s.graph sharedOutput.name) ∧
        TwiceUnseen sharedOutput ps 0 1 "y" :=
  importGraph_of_writtenTwice false (by decide) (by decide) ⟨_, rfl, by decide⟩
    ⟨_, rfl, by decide⟩

/-- Both nodes are in the graph. -/
theorem sharedOutput_imported :
    sharedOutput.nodes.map NodeMessage.outputs = [["y"], ["y"]] ∧
      ∃ g, sharedOutput.importGraph false = .ok g ∧ g.nodes.length = 2 :=
  ⟨by decide, Except.exists_ok (by decide +kernel)⟩

end TensorGraph
