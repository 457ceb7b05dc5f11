import TensorGraph.Proofs.Renaming.Run

/-!
# The names of the file

The names that a file has for its values do not show in the graph that is imported: a well-formed
model whose graph inputs have names gives the same graph, or an error of the same class and code,
under any other names (`importGraph_rename`).
-/

namespace TensorGraph

open Onnx Registry

variable {f g : String → String} {m : ModelMessage} {s s' : ImportState} {ps : List Passage}
  {rest : List NodeMessage} {i : Nat}

lemma filter_used_congr {vs ws : List Value}
    (h : List.Forall₂ (fun v w => w.used = v.used ∧ (v.used → w = v)) vs ws) :
    ws.filter Value.used = vs.filter Value.used := by
  induction h with
  | nil => rfl
  | cons hvw _ ih =>
    simp only [List.filter_cons, hvw.1, ih]
    split
    · next hused => rw [hvw.2 hused]
    · rfl

/-- A graph output is the same in both runs if a node writes it, and unused in both if not. -/
lemma ImportState.Renamed.output (hm : m.WellFormed) (hin : m.InputsNamed) (hout : m.OutputsDistinct)
    (run : Run m ps rest s) (h : s.Renamed g (WrittenBy ps) s') (hi : i < s.registry.outputs.length) :
    let v := s.registry.value (.output i)
    let w := s'.registry.value (.output i)
    w.used = v.used ∧ (v.used → w = v) := by
  intro v w
  obtain ⟨r₀, hr⟩ := run.registry_eq_ok
  have reg := run.registered hm hin hr
  have hi' : i < m.outputs.length := by rwa [reg.holds.outputs, reg.declares.outputs] at hi
  have hs₀ := reg.declares.slot_output hout (List.getElem?_eq_getElem hi')
  have hs := reg.holds.outer hs₀
  have hfollows : v.Follows g _ w := h.registry.value hs (by simp)
  by_cases hw : WrittenBy ps m.outputs[i].name
  · have : w = v := hfollows.final hw
    exact ⟨by rw [this], fun _ => this⟩
  · have hunused : v.used = false := by
      have hpending := reg.holds.pending hs₀ fun q hq hx => hw ⟨q, hq, hx⟩
      rw [find?_of_slot hs, find?_of_slot hs₀] at hpending
      obtain ⟨d, -, -, hvalue⟩ := reg.declares.output hs₀
      rw [show v = r₀.value (.output i) from Option.some.inj hpending]
      exact used_declared hvalue
    have hw' : w = v.rename g := hfollows.pending hw
    exact ⟨by rw [hw']; rfl, fun hused => by simp [hunused] at hused⟩

/-- The states give the same graph. -/
lemma ImportState.Renamed.graph (hm : m.WellFormed) (hin : m.InputsNamed) (hout : m.OutputsDistinct)
    (run : Run m ps rest s) (h : s.Renamed g (WrittenBy ps) s') (name : String) :
    s.graph name = s'.graph name := by
  have houtputs : s'.registry.outputs.filter Value.used = s.registry.outputs.filter Value.used := by
    refine filter_used_congr (List.forall₂_iff_get.mpr ⟨h.registry.outputs.symm, fun i hi hi' => ?_⟩)
    have := h.output hm hin hout run hi
    simpa only [List.get_eq_getElem, Registry.value, List.getD_eq_getElem?_getD,
      List.getElem?_eq_getElem hi, List.getElem?_eq_getElem hi', Option.getD_some] using this
  simp only [ImportState.graph, h.nodes, h.removed, h.registry.inputs, houtputs]

/-- Under other names for its values, a well-formed model whose graph inputs have names and whose graph
outputs differ in name gives the same graph, or an error of the same class and code. -/
theorem importGraph_rename {checkFirst : Bool} (hm : m.WellFormed) (hin : m.InputsNamed)
    (hout : m.OutputsDistinct) (hf : m.Renames f) (hgen : m.NoGenerated)
    (hgen' : (m.rename f).NoGenerated) :
    Agree (· = ·) (m.importGraph checkFirst) ((m.rename f).importGraph checkFirst) := by
  obtain ⟨g, hg, hrename⟩ := hf.exists_renaming hgen hgen'
  rw [← hrename]
  refine (importState_rename hg hm hin hgen checkFirst).bind fun s s' _ _ h => .pure ?_
  obtain ⟨ps, run, h⟩ := h
  exact h.graph hm hin hout run m.name

/-- Gives the value `h` the name that the first graph input gets. -/
def asFirstInput (x : String) : String := if x = "h" then "input1" else x

/-- A Relu and a Neg, with the value `h` between them. -/
def chain : ModelMessage where
  inputs := [{ name := "x", elementType := 1, dims := [.size 2] }]
  outputs := [{ name := "y", elementType := 1, dims := [.size 2] }]
  nodes := [
    { operator := "Relu", inputs := ["x"], outputs := ["h"] },
    { operator := "Neg", inputs := ["h"], outputs := ["y"] }]

theorem importGraph_rename_chain :
    ∃ G, chain.importGraph false = .ok G ∧ (chain.rename asFirstInput).importGraph false = .ok G := by
  obtain ⟨G, hG, -⟩ : ∃ G, chain.importGraph false = .ok G ∧ True :=
    Except.exists_ok (by decide +kernel)
  have hf : chain.Renames asFirstInput := ⟨by decide, by decide⟩
  have h : Agree (· = ·) (chain.importGraph false) ((chain.rename asFirstInput).importGraph false) :=
    importGraph_rename (by decide) (by decide) (by decide) hf (by decide) (by decide)
  obtain ⟨G', hG', rfl⟩ := h.eq_ok hG
  exact ⟨G, hG, hG'⟩

/-- An Unsqueeze whose output has no name, in a model with a graph input that has none either. The
Reshape that it becomes writes that input, under the name that the input has in the graph. -/
def unnamedInput : ModelMessage where
  inputs := [
    { name := "", elementType := 1, dims := [.size 1, .size 2] },
    { name := "d", elementType := 1, dims := [.size 2] },
    { name := "a", elementType := 7, dims := [.size 1] }]
  outputs := [{ name := "y", elementType := 1, dims := [.size 2] }]
  nodes := [
    { operator := "Unsqueeze", inputs := ["d", "a"], outputs := [""] },
    { operator := "Relu", inputs := ["d"], outputs := ["h"] },
    { operator := "Neg", inputs := ["h"], outputs := ["y"] }]

/-- The name of the first graph input is written twice once a value of the file has it. -/
theorem unnamedInput_rename_differs :
    unnamedInput.WellFormed ∧ unnamedInput.OutputsDistinct ∧ unnamedInput.Renames asFirstInput ∧
      unnamedInput.NoGenerated ∧ (unnamedInput.rename asFirstInput).NoGenerated ∧
        ¬ Agree (· = ·) (unnamedInput.importGraph false)
          ((unnamedInput.rename asFirstInput).importGraph false) := by
  refine ⟨by decide, by decide, ⟨by decide, by decide⟩, by decide, by decide, fun h => ?_⟩
  obtain ⟨G, hG, -⟩ : ∃ G, unnamedInput.importGraph false = .ok G ∧ True :=
    Except.exists_ok (by decide +kernel)
  obtain ⟨G', hG', -⟩ := h.eq_ok hG
  have hfails : ((unnamedInput.rename asFirstInput).importGraph false).isOk = false := by
    decide +kernel
  rw [hG'] at hfails
  simp [Except.isOk, Except.toBool] at hfails

end TensorGraph
