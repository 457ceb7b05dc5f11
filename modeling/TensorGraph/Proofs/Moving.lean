import TensorGraph.Proofs.Moving.Start

/-!
# Arrays and Constants

An array of a file and a Constant that holds the same array give the graph outputs the same types
(`outputType?_moveArray`), where no node consults the array at a place into which no literal is lifted.
-/

namespace TensorGraph

open Onnx ModelMessage Registry ImportState

variable {m : ModelMessage} {t : TensorMessage} {s s' : ImportState} {checkFirst checkFirst' : Bool}
  {i : Nat} {d : ValueMessage}

/-- The type of the graph output that is declared at a place, if the graph has it. -/
def ImportState.outputType? (s : ImportState) (i : Nat) : Option ValueType :=
  let v := s.registry.value (.output i)
  if v.used then some v.type else none

/-- Both models are imported alike, up to what differs between an array and a Constant. -/
lemma importState_moveArray (hm : m.WellFormed) (htm : t ∈ m.initializers) (hne : t.name ≠ "")
    (hin : t.name ∉ m.inputNames) (hmov : m.Movable t) (hkeeps : m.KeepsLayers t.name)
    (h : m.importState checkFirst = .ok s) (h' : (m.moveArray t).importState checkFirst' = .ok s') :
    ∃ r a gone, ofModel m = .ok r ∧ a.name = t.name ∧ s.Moved a r.outputPlace? gone [] s' := by
  replace h := importState_of_check h
  replace h' := importState_of_check h'
  simp only [importState, Bool.false_eq_true, if_false, Except.bind_eq_ok] at h h'
  obtain ⟨r, hr, h⟩ := h
  obtain ⟨r', hr', h'⟩ := h'
  obtain ⟨a, ht, -⟩ := initializers_of_mem hm hr htm hne
  have hsteps : (({ registry := r' } : ImportState).step (m.moveArray t) t.toConstant m.nodes.head? >>=
      fun b => b.1.steps (m.moveArray t) b.2 m.nodes) = .ok s' := h'
  rw [Except.bind_eq_ok] at hsteps
  obtain ⟨⟨s₁, _⟩, hstep, hsteps⟩ := hsteps
  obtain ⟨p, hmsg, -, rfl, step⟩ := step_eq_ok.mp hstep
  obtain ⟨hconsumed, hmoved, hplaced⟩ := step.moved_toConstant hm htm hne hin ht hr hr' hmsg
  have hstart : ({ registry := r } : ImportState).Placed (written m.nodes) := ⟨by simp, by simp⟩
  simp only [hconsumed] at hsteps
  obtain ⟨gone, hend⟩ := steps_moved hm hmov hkeeps htm hne ht (Run.start hr)
    (fun _ _ _ _ => rfl) hmoved hstart hplaced h hsteps
  exact ⟨r, a, gone, hr, (toValue_ok ht).1, hend⟩

/-- The types of the graph outputs do not depend on whether an array stands in the file or in a
Constant. -/
theorem outputType?_moveArray (hm : m.WellFormed) (htm : t ∈ m.initializers) (hne : t.name ≠ "")
    (hin : t.name ∉ m.inputNames) (hmov : m.Movable t) (hkeeps : m.KeepsLayers t.name)
    (h : m.importState checkFirst = .ok s) (h' : (m.moveArray t).importState checkFirst' = .ok s')
    (hd : m.outputs[i]? = some d) (hout : d.name ≠ t.name) : s'.outputType? i = s.outputType? i := by
  obtain ⟨r, a, _, hr, ha, hmoved⟩ := importState_moveArray hm htm hne hin hmov hkeeps h h'
  have hslot : s.registry.slots.get? a.name ≠ some (.output i) := by
    intro hs
    have hs₀ := outputPlace?_eq_some.mp ((hmoved.registry.outer _ _).mp hs)
    obtain ⟨d', hd', hname, -⟩ := (ofModel_declares hr).1.output hs₀
    obtain rfl : d = d' := Option.some.inj (hd.symm.trans hd')
    exact hout (hname.trans ha)
  obtain ⟨hsame, hused⟩ := hmoved.registry.outputs i hslot
  simp only [outputType?, hsame.type, hused]

/-! ## Products of a matrix that is moved -/

/-- An array of zeros. -/
def zeroArray (name : String) (dims : List Int) : TensorMessage where
  name
  dataType := 1
  dims
  raw := some (List.replicate (4 * dims.prod.toNat) 0)

/-- Data `x`, which the nodes multiply with a matrix `w`, and may add a bias `b` to. -/
def weighing (element : Int) (dims bias : List Int) (nodes : List NodeMessage) : ModelMessage where
  inputs := [{ name := "x", elementType := element, dims := dims.map .size }]
  outputs := [{ name := "y", elementType := 1 }]
  initializers := [zeroArray "w" [2, 3], zeroArray "b" bias]
  nodes := nodes

def productNode (operator output : String) : NodeMessage :=
  { operator, inputs := ["x", "w"], outputs := [output] }

def sumNode (operand output : String) : NodeMessage :=
  { operator := "Add", inputs := [operand, "b"], outputs := [output] }

/-- A product and a sum, which become a layer. -/
def layered : ModelMessage := weighing 1 [5, 2, 2] [3] [productNode "MatMul" "p", sumNode "p" "y"]

variable {r : Registry} {p : Passage} {ps : List Passage} {raw raw₁ raw₂ : NodeMessage}
  {rest : List NodeMessage}

/-- An import comes to the first of two nodes from the start. -/
lemma Run.start_of_pair (run : Run m ps (raw :: rest) s) (hnodes : m.nodes = [raw₁, raw₂]) :
    (raw = raw₁ ∧ rest = [raw₂] ∧ ∃ r, ofModel m = .ok r ∧ s = { registry := r }) ∨
      raw = raw₂ := by
  obtain ⟨hleft, hstart⟩ | hfewer := run.start_or_fewer
  · rw [hnodes] at hleft
    obtain ⟨rfl, rfl⟩ := List.cons_eq_cons.mp hleft
    exact .inl ⟨rfl, rfl, hstart⟩
  · simp only [hnodes, List.length_cons, List.length_nil] at hfewer
    obtain rfl : rest = [] := List.eq_nil_of_length_eq_zero (by omega)
    have hlast := congrArg List.getLast? run.messages
    rw [hnodes, List.getLast?_concat] at hlast
    exact .inr (Option.some.inj hlast)

/-- The product as it is read, and the layer that is made of it. -/
lemma layered_typed (hr : ofModel layered = .ok r) {s' : ImportState}
    (step : Step { registry := r } p s') (hp : p.message = productNode "MatMul" "p")
    (next : p.next = some (sumNode "p" "y")) :
    p.specialised.operator = .matMul ∧
      p.specialised.inputs.map Value.type =
        [.tensor .float32 3 (some [5, 2, 2]), .tensor .float32 2 (some [2, 3])] ∧
      p.typed.outputs.map Value.type = [.tensor .float32 3 (some [5, 2, 3])] := by
  have h : (do
      let r ← ofModel layered
      let s : ImportState := { registry := r }
      let n ← (← r.convert (productNode "MatMul" "p")).specialise
      let f ← n.fuse r (some (sumNode "p" "y"))
      let e ← (s.nameNode f.1).1.elide (s.nameNode f.1).2
      let l ← e.1.lift e.2
      let v ← (← l.2.unsqueezeAsReshape l.1.registry).infer
      return (n.operator, n.inputs.map Value.type, v.outputs.map Value.type)) =
      Except.ok (ε := Error) (.matMul,
        [.tensor .float32 3 (some [5, 2, 2]), .tensor .float32 2 (some [2, 3])],
        [.tensor .float32 3 (some [5, 2, 3])]) := by
    decide +kernel
  obtain ⟨⟨⟨hconvert, hspecialise, hfuse, helide, hlift⟩, hreshape, hinfer, -⟩, -⟩ := step
  rw [hp] at hconvert
  rw [next] at hfuse
  simp only [hr, hconvert, hspecialise, hfuse, helide, hlift, hreshape, hinfer, Except.ok_bind,
    Except.pure_eq_ok, Prod.mk.injEq] at h
  exact h

/-- The sum as it is read. -/
lemma layered_sum (hr : ofModel layered = .ok r) {add : Node}
    (hadd : r.convert (sumNode "p" "y") = .ok add) :
    add.inputs.map (fun v => (v.name, v.type)) =
      [("p", .tensor .float32 0 none), ("b", .tensor .float32 1 (some [3]))] := by
  have h : (do
      let add ← (← ofModel layered).convert (sumNode "p" "y")
      return add.inputs.map fun v => (v.name, v.type)) = Except.ok (ε := Error)
        [("p", .tensor .float32 0 none), ("b", .tensor .float32 1 (some [3]))] := by
    decide +kernel
  simpa only [hr, hadd, Except.ok_bind, Except.pure_eq_ok] using h

/-- The bias changes nothing of the type of the product. -/
lemma gives_layered : Typing.Gives
    [{ name := "p", type := .tensor .float32 3 (some [5, 2, 3]) },
      { name := "b", type := .tensor .float32 1 (some [3]) }]
    (.tensor .float32 3 (some [5, 2, 3])) where
  element := by decide +kernel
  rank := by decide +kernel
  dims := by decide +kernel

/-- The layer that is made has the type of the product and the sum. -/
lemma keepsLayers_layered : layered.KeepsLayers "w" := by
  intro ps p rest s s' run next step
  obtain ⟨hp, rfl, r, hr, rfl⟩ | hp := run.start_of_pair rfl
  · obtain ⟨hop, hinputs, htyped⟩ := layered_typed hr step hp next
    refine ⟨fun _ _ => ⟨fun hgemm => by simp [hop] at hgemm, fun _ u w hin => ?_⟩,
      fun _ _ => ⟨"p", by rw [hp]; rfl, by decide, by simp, fun sum hsum add hadd y hy => ?_⟩⟩
    · obtain ⟨hu, hw⟩ : u.type = .tensor .float32 3 (some [5, 2, 2]) ∧
          w.type = .tensor .float32 2 (some [2, 3]) := by simpa [hin] using hinputs
      rw [hu, hw]
      exact {
        element := rfl
        axes := ⟨3, rfl, by decide⟩
        sizes := by
          rintro ds ⟨rfl⟩
          decide }
    · obtain rfl : sumNode "p" "y" = sum := by simpa [next] using hsum
      obtain ⟨v, vs, hadd, hv, hvs⟩ := List.map_eq_cons_iff.mp (layered_sum hr hadd)
      obtain ⟨w, hvs, hw⟩ := List.map_eq_singleton_iff.mp hvs
      obtain ⟨z, hout, hz⟩ := List.map_eq_singleton_iff.mp htyped
      obtain rfl : z = y := by simpa [hout] using hy
      simp only [Prod.mk.injEq] at hv hw
      rw [hz]
      refine gives_layered.congr ?_
      rw [hadd, hvs]
      simp [hv, hw]
  · obtain ⟨hfused, hkept⟩ := step.of_add (hp ▸ rfl)
    have hop : p.converted.operator = .add :=
      Except.ok.inj ((convert_ok step.convert).1.symm.trans (hp ▸ rfl))
    refine ⟨fun hlinear => ?_, fun htaken => ?_⟩
    · simp [hfused, hop] at hlinear
    · simp [hkept] at htaken

theorem outputType?_moveArray_layered : layered.KeepsLayers "w" ∧
    ∃ s s', layered.importState false = .ok s ∧
      (layered.moveArray (zeroArray "w" [2, 3])).importState false = .ok s' ∧
      s.outputType? 0 = some (.tensor .float32 3 (some [5, 2, 3])) ∧
      s'.outputType? 0 = some (.tensor .float32 3 (some [5, 2, 3])) := by
  refine ⟨keepsLayers_layered, ?_⟩
  obtain ⟨s, hs, htype⟩ : ∃ s, layered.importState false = .ok s ∧
      s.outputType? 0 = some (.tensor .float32 3 (some [5, 2, 3])) :=
    Except.exists_ok (by decide +kernel)
  obtain ⟨s', hs', -⟩ : ∃ s',
      (layered.moveArray (zeroArray "w" [2, 3])).importState false = .ok s' ∧ True :=
    Except.exists_ok (by decide +kernel)
  refine ⟨s, s', hs, hs', htype, ?_⟩
  rw [← htype]
  exact outputType?_moveArray (by decide) (by decide) (by decide) (by decide) (by decide)
    keepsLayers_layered hs hs' rfl (by decide)

/-! ## Arrays that do not mean what a Constant does -/

/-- The array `t` of a well-formed model can be moved into a Constant, and both models are imported.
A graph output has the type `before` in the one, and `after` in the other. -/
structure Onnx.ModelMessage.Retypes (m : ModelMessage) (t : TensorMessage) (i : Nat)
    (before after : Option ValueType) : Prop where
  wellFormed : m.WellFormed
  mem : t ∈ m.initializers
  inner : t.name ∉ m.inputNames
  before : ∃ s, m.importState false = .ok s ∧ s.outputType? i = before
  after : ∃ s, (m.moveArray t).importState false = .ok s ∧ s.outputType? i = after

/-- The numbers three and two. -/
def threeByTwo : TensorMessage := { name := "n", dataType := 7, dims := [2], int64s := [3, 2] }

/-- The number six. -/
def six : TensorMessage := { name := "six", dataType := 7, dims := [1], int64s := [6] }

/-- A model that knows two numbers. -/
def sized (nodes : List NodeMessage) : ModelMessage where
  inputs := [{ name := "x", elementType := 1, dims := [.size 2, .size 3] }]
  outputs := [{ name := "y", elementType := 1 }]
  initializers := [threeByTwo]
  nodes := nodes

/-- A new tensor, whose sizes are its first operand. -/
def filled : ModelMessage :=
  sized [{ operator := "ConstantOfShape", inputs := ["n"], outputs := ["y"] }]

/-- A Constant that has a value and an operand besides. -/
def relit : ModelMessage :=
  sized [{ operator := "Constant", inputs := ["n"], outputs := ["c"],
           attributes := [{ name := "value", kind := .tensor, tensor := six }] },
    { operator := "Reshape", inputs := ["x", "c"], outputs := ["y"] }]

/-- An array that is a graph output. -/
def echoed : ModelMessage where
  outputs := [{ name := "n", elementType := 7 }]
  initializers := [threeByTwo]

/-- A Gemm whose matrix is stored transposed according to a number. -/
def turnedBy (turned : Int) : NodeMessage where
  operator := "Gemm"
  inputs := ["x", "w"]
  outputs := ["y"]
  attributes := [{ name := "transB", kind := .int, int := turned }]

/-- A sum, and a reader of the product besides. -/
def readTwice : ModelMessage :=
  { weighing 1 [2, 2] [3] [productNode "MatMul" "p", sumNode "p" "y",
      { operator := "Relu", inputs := ["p"], outputs := ["z"] }] with
    outputs := [{ name := "y", elementType := 1 }, { name := "z", elementType := 1 }] }

/-- Moving an array into a Constant changes a type where the first operand of a node is consulted, where
the array is a graph output, where a layer is typed otherwise than a product, and where a sum changes the
type of the product or is not the only reader of it. -/
theorem moveArray_retypes :
    filled.Retypes threeByTwo 0 (some (.tensor .float32 2 (some [3, 2])))
      (some (.tensor .float32 2 none)) ∧
    relit.Retypes threeByTwo 0 (some (.tensor .float32 2 (some [3, 2])))
      (some (.tensor .float32 1 (some [6]))) ∧
    echoed.Retypes threeByTwo 0 none (some (.tensor .int64 1 (some [2]))) ∧
    (weighing 1 [2] [3] [productNode "MatMul" "y"]).Retypes (zeroArray "w" [2, 3]) 0
      (some (.tensor .float32 1 (some [3]))) (some (.tensor .float32 1 none)) ∧
    (weighing 7 [2, 2] [3] [productNode "MatMul" "y"]).Retypes (zeroArray "w" [2, 3]) 0
      (some (.tensor .int64 2 (some [2, 3]))) (some (.tensor .float64 2 (some [2, 3]))) ∧
    (weighing 1 [0, 2, 2] [3] [productNode "MatMul" "y"]).Retypes (zeroArray "w" [2, 3]) 0
      (some (.tensor .float32 3 (some [0, 2, 3]))) (some (.tensor .float32 3 (some [1, 2, 3]))) ∧
    (weighing 1 [5, 2, 2] [3] [productNode "Gemm" "y"]).Retypes (zeroArray "w" [2, 3]) 0
      (some (.tensor .float32 3 (some [5, 2, 3]))) (some (.tensor .float32 2 (some [5, 3]))) ∧
    (weighing 1 [2, 2] [3] [turnedBy 2]).Retypes (zeroArray "w" [2, 3]) 0
      (some (.tensor .float32 2 (some [2, 3]))) (some (.tensor .float32 2 (some [2, 2]))) ∧
    (weighing 1 [2, 2] [5, 2, 3] [productNode "MatMul" "p", sumNode "p" "y"]).Retypes
      (zeroArray "b" [5, 2, 3]) 0 (some (.tensor .float32 2 (some [2, 3])))
      (some (.tensor .float32 3 (some [5, 2, 3]))) ∧
    (weighing 1 [2, 2] [3] [productNode "MatMul" "", sumNode "" "y"]).Retypes (zeroArray "b" [3]) 0
      (some (.tensor .float32 2 (some [2, 3]))) (some (.tensor .float32 1 (some [3]))) ∧
    readTwice.Retypes (zeroArray "b" [3]) 1 (some (.tensor .float32 0 none))
      (some (.tensor .float32 2 (some [2, 3]))) := by
  refine ⟨?_, ?_, ?_, ?_, ?_, ?_, ?_, ?_, ?_, ?_, ?_⟩
  all_goals
    exact ⟨by decide, by decide, by decide, Except.exists_ok (by decide +kernel),
      Except.exists_ok (by decide +kernel)⟩

end TensorGraph
