import TensorGraph.Proofs.Accounting
import TensorGraph.Proofs.Safety.Typing

/-!
# Safe steps

What can make an import fail without a code (`Flawed`): an array or a declared type that cannot be
read, a node that has a defect when the import comes to it, or a graph boundary whose sizes fit no
words. The stages refuse any other model with a coded error, and so does every step of its import
(`Run.coded_step`).
-/

namespace TensorGraph

open Onnx ModelMessage Registry

variable {m : ModelMessage} {r : Registry} {s s' : ImportState} {p : Passage} {ps : List Passage}
  {rest : List NodeMessage} {raw : NodeMessage} {next : Option NodeMessage} {n n' n₁ n₂ : Node}
  {v : Value} {vs : List Value} {x : String} {consumed : Bool}

/-- The model has a flaw that nothing checks before the import comes to it. -/
inductive Onnx.ModelMessage.Flawed (m : ModelMessage) : Prop where
  /-- The file holds an array that cannot be read. -/
  | array {t : TensorMessage} (ht : t ∈ m.initializers) (hread : ∀ a, t.toLiteral ≠ .ok a)
  /-- A graph input or output is declared with a type that is not even known by its name. -/
  | declaration {d : ValueMessage} (hd : d ∈ m.inputs ∨ d ∈ m.outputs)
    (htype : DataType.element? d.elementType = none)
    (hname : DataType.shownName? d.elementType = none)
  /-- An attribute holds an array that cannot be read. -/
  | attributeArray {raw : NodeMessage} {a : AttributeMessage} (hraw : raw ∈ m.nodes)
    (ha : a ∈ raw.attributes) (hread : ∀ v, a.value? ≠ .ok v)
  /-- A node that is read, in turn or a turn early, is malformed. -/
  | read {ps : List Passage} {raw raw' : NodeMessage} {rest : List NodeMessage} {s : ImportState}
    {n : Node} (run : Run m ps (raw :: rest) s) (hraw : raw' = raw ∨ rest.head? = some raw')
    (hread : s.registry.convert raw' = .ok n) (hn : n.Malformed)
  /-- A node that is to be typed has a defect. -/
  | typed {ps : List Passage} {p : Passage} {rest : List NodeMessage} {s : ImportState} {n : Node}
    (run : Run m ps (p.message :: rest) s) (next : p.next = rest.head?) (front : Step.Front s p)
    (hreshaped : p.lifted.unsqueezeAsReshape s.registry = .ok n) (hn : n.Defective)
  /-- An Unsqueeze becomes a Reshape to a boundary whose sizes fit no words. -/
  | boundary {ps : List Passage} {p : Passage} {rest : List NodeMessage} {s : ImportState}
    {y boundary : Value} {dims : List Size} {d : Size} (run : Run m ps (p.message :: rest) s)
    (next : p.next = rest.head?) (front : Step.Front s p)
    (hrun : p.lifted.unsqueezesAtRun = true) (hy : p.lifted.output 0 = .ok y)
    (hboundary : s.registry.boundary? y.name = .ok (some boundary))
    (hdims : boundary.type.dims? = some dims) (hd : d ∈ dims)
    (hword : ∀ k, d = .whole k → Size.isSigned k = false)

section Reading

variable (hm : ¬ m.Flawed)

include hm

lemma coded_toValue {t : TensorMessage} (ht : t ∈ m.initializers) :
    FailsOnly Error.Coded t.toValue := by
  obtain ⟨a, ha⟩ : ∃ a, t.toLiteral = .ok a := by
    by_contra hnone
    exact hm (.array ht fun a ha => hnone ⟨a, ha⟩)
  simp [TensorMessage.toValue, ha]

lemma coded_declaration {d : ValueMessage} (hd : d ∈ m.inputs ∨ d ∈ m.outputs) :
    FailsOnly Error.Coded d.toValue := by
  have htype : ¬ (DataType.element? d.elementType = none ∧
      DataType.shownName? d.elementType = none) := fun h => hm (.declaration hd h.1 h.2)
  simp [ValueMessage.toValue, coded_dataType htype]

lemma coded_ofModel : FailsOnly Error.Coded (ofModel m) := by
  have hinit : FailsOnly Error.Coded (initializersOf m) :=
    failsOnly_foldlM fun t a ha => by simp [coded_toValue hm ha]
  have hinput : ∀ (r : Registry), ∀ d ∈ m.inputs, FailsOnly Error.Coded (r.addInput d) :=
    fun r d hd => by simp [addInput, coded_declaration hm (.inl hd)]
  have houtput : ∀ (r : Registry), ∀ d ∈ m.outputs, FailsOnly Error.Coded (r.addOutput d) :=
    fun r d hd => by simp [addOutput, coded_declaration hm (.inr hd)]
  simp only [ofModel, failsOnly_bind]
  exact ⟨hinit, fun t _ => ⟨failsOnly_foldlM hinput, fun r _ => failsOnly_foldlM houtput⟩⟩

lemma coded_toAttributes (hraw : raw ∈ m.nodes) : FailsOnly Error.Coded raw.toAttributes := by
  refine failsOnly_foldlM fun t a ha => ?_
  obtain ⟨v, hv⟩ : ∃ v, a.value? = .ok v := by
    by_contra hnone
    exact hm (.attributeArray hraw ha fun v hv => hnone ⟨v, hv⟩)
  simp only [hv, Except.ok_bind]
  split <;> simp

lemma coded_checkOrder : FailsOnly Error.Coded m.checkOrder := by
  have hbare : ∀ raw ∈ m.nodes, FailsOnly Error.Coded raw.toBareNode := fun raw hraw => by
    simp [NodeMessage.toBareNode, coded_toAttributes hm hraw]
  simp only [ModelMessage.checkOrder, failsOnly_bind, failsOnly_mapM hbare, true_and]
  intro nodes _ e he
  obtain ⟨entry, -, he⟩ := Except.forM_eq_error he
  obtain ⟨v, -, he⟩ := Except.forM_eq_error he
  split at he
  · cases he
  · split at he
    · obtain rfl := Except.error.inj he
      simp
    · cases he

lemma coded_diagnose {α : Type} {y : Except Error α} (h : FailsOnly Error.Coded y) :
    FailsOnly Error.Coded (m.diagnose y) := by
  unfold diagnose
  split
  · simp [coded_checkOrder hm]
  · exact h

end Reading

namespace Registry

@[simp] lemma coded_resolve : FailsOnly Error.Coded (r.resolve x) := by
  unfold resolve
  repeat' split
  all_goals simp

@[simp] lemma coded_boundary? : FailsOnly Error.Coded (r.boundary? x) := by
  unfold boundary?
  split <;> simp

@[simp] lemma coded_newName : FailsOnly Error.Coded (r.newName x) := by
  unfold newName
  repeat' split
  all_goals simp

@[simp] lemma coded_rename {new : String} : FailsOnly Error.Coded (r.rename x new) := by
  unfold rename
  split <;> simp

@[simp] lemma coded_insertOrRename {new : String} :
    FailsOnly Error.Coded (r.insertOrRename v new) := by
  unfold insertOrRename
  dsimp only
  split <;> simp

lemma coded_recordOne {producer : String} : FailsOnly Error.Coded (r.recordOne producer v) := by
  unfold recordOne
  repeat' split
  all_goals simp

lemma coded_record {producer : String} : FailsOnly Error.Coded (r.record producer vs).2 := by
  induction vs generalizing r with
  | nil => simp [record]
  | cons v vs ih =>
    unfold record
    split
    · exact ih
    · next e he => exact failsOnly_error.mpr (coded_recordOne e he)

end Registry

lemma coded_renameInputs : FailsOnly Error.Coded (ImportState.renameInputs r vs) := by
  induction vs generalizing r with
  | nil => simp [ImportState.renameInputs]
  | cons v vs ih => simp [ImportState.renameInputs, ih]

lemma coded_renameOutputs {number : Nat} :
    FailsOnly Error.Coded (ImportState.renameOutputs n r number vs) := by
  induction vs generalizing r number with
  | nil => simp [ImportState.renameOutputs]
  | cons v vs ih => simp [ImportState.renameOutputs, ih]

lemma coded_renameValues (hm : ¬ m.Flawed) (hout : n.outputs ≠ []) :
    FailsOnly Error.Coded (ImportState.renameValues m r n) := by
  have hliteral : ∀ r, FailsOnly Error.Coded (ImportState.renameLiteral n r) := by
    intro r
    unfold ImportState.renameLiteral
    split
    · next hnil => exact absurd hnil hout
    · simp
  have hinputs : FailsOnly Error.Coded (m.diagnose (ImportState.renameInputs r n.inputs)) :=
    coded_diagnose hm coded_renameInputs
  have houtputs : ∀ r, FailsOnly Error.Coded
      (m.diagnose (ImportState.renameOutputs n r 1 n.outputs)) :=
    fun r => coded_diagnose hm coded_renameOutputs
  simp only [ImportState.renameValues, failsOnly_bind, hinputs, true_and]
  intro _ _
  split <;> simp [hliteral, houtputs]

namespace Node

variable (hn : ¬ n.Malformed)

include hn

lemma coded_weightAxes? (hrule : (Typing.rule? n.operator).isSome) :
    FailsOnly Error.Coded n.weightAxes? := by
  unfold weightAxes?
  split
  · next e dim dims hweight =>
    obtain ⟨w, hw, htype⟩ := Option.map_eq_some_iff.mp hweight
    obtain ⟨r, -, hr⟩ := (proper_of_mem hn hrule (List.mem_of_getElem? hw)).exists_axes
    obtain rfl : dim = .ofNat r := by
      have hrank := hr.rank
      rwa [htype] at hrank
    have hless : Size.less 2 (.ofNat r) = .ok (decide (2 < r)) := Size.less_ofNat 2 r
    have hsub : Size.sub (.ofNat r) 2 = .ok (.whole (r - 2)) := rfl
    simp [hless, hsub]
  · simp

/-- A well-formed node takes the kind for its number of spatial axes. -/
lemma coded_specialise : FailsOnly Error.Coded n.specialise := by
  unfold specialise
  by_cases hkinds : n.operator.spatialKinds = []
  · simp [hkinds]
  have hspatial : (Typing.rule? n.operator).isSome ∧
      ("kernel_shape", Attribute.Kind.plainList) ∈ n.operator.signature := by
    unfold Operator.spatialKinds at hkinds
    split at hkinds
    case h_5 => exact absurd rfl hkinds
    all_goals next hop => exact ⟨by rw [hop]; rfl, by rw [hop]; simp [Operator.signature]⟩
  have hweight := coded_weightAxes? hn hspatial.1
  have hwindow : FailsOnly Error.Coded n.windowAxes? := by
    unfold windowAxes?
    split
    · exact hweight
    · next kernel hkernel =>
      obtain ⟨hplain, items, hitems⟩ := attribute_isOf hn _ hspatial.2 hkernel
      obtain ⟨set, hset⟩ := Attribute.IsOf.exists_isTrue hplain
      have hlength : kernel.length = .ok items.length := by
        rw [Attribute.length, hitems]
        rfl
      simp [hset, hlength, hweight]
  simp only [hkinds, if_false, failsOnly_bind, hwindow, true_and]
  intro axes _
  split <;> simp

lemma coded_fuseGemm (hop : n.operator = .gemm) : FailsOnly Error.Coded n.fuseGemm := by
  have hnumber : ∀ key, (key, Attribute.Kind.plain) ∈ n.operator.signature → ∀ i,
      FailsOnly Error.Coded (n.isNumber key i) := by
    intro key hkey i
    unfold isNumber
    split
    · simp
    · next a ha =>
      obtain ⟨b, hb⟩ := (attribute_isOf hn _ hkey ha).exists_equals i
      simp [hb]
  have hstores : FailsOnly Error.Coded n.storesTransposed := by
    unfold storesTransposed
    split
    · simp
    · next a ha =>
      have hplain : a.IsOf .plain := attribute_isOf hn _ (by simp [hop, Operator.signature]) ha
      obtain ⟨b, hb⟩ := hplain.exists_equals 1
      simp [hb]
  have halpha := hnumber "alpha" (by simp [hop, Operator.signature]) 1
  have hbeta := hnumber "beta" (by simp [hop, Operator.signature]) 1
  have htransA := hnumber "transA" (by simp [hop, Operator.signature]) 0
  simp [fuseGemm, isPlainProduct, halpha, hbeta, htransA, hstores]

end Node

/-- A product takes over a sum that is well-formed. -/
lemma coded_fuseMatMul (hn : ¬ n.Malformed)
    (hnext : ∀ raw, next = some raw → FailsOnly Error.Coded (r.convert raw) ∧
      ∀ add, r.convert raw = .ok add → ¬ add.Malformed) :
    FailsOnly Error.Coded (n.fuseMatMul r next) := by
  obtain ⟨y, ys, hy⟩ := Node.exists_outputs hn
  unfold Node.fuseMatMul
  split
  · simp
  cases next with
  | none => simp
  | some raw =>
    obtain ⟨hconvert, hadds⟩ := hnext raw rfl
    dsimp only
    split
    · simp
    simp only [failsOnly_bind, hconvert, true_and]
    intro add hadd
    obtain ⟨z, zs, hz⟩ := Node.exists_outputs (hadds add hadd)
    have hbias : FailsOnly Error.Coded (add.isBiasOf { n with operator := .linear }) := by
      unfold Node.isBiasOf
      split
      · simp [Node.output, hy]
      · simp
    refine ⟨hbias, fun isBias hisBias => ?_⟩
    cases isBias with
    | false => simp
    | true =>
      obtain ⟨a, b, -, -, -, hinputs, -, -⟩ := isBiasOf_ok hisBias
      simp [Node.absorbBias, hinputs, hy, Node.output, hz]

lemma coded_fuse (hn : n.operator = .gemm ∨ n.operator = .matMul → ¬ n.Malformed)
    (hnext : ∀ raw, next = some raw → FailsOnly Error.Coded (r.convert raw) ∧
      ∀ add, r.convert raw = .ok add → ¬ add.Malformed) :
    FailsOnly Error.Coded (n.fuse r next) := by
  unfold Node.fuse
  split
  · next hop => simp [Node.coded_fuseGemm (hn (.inl hop)) hop]
  · next hop => exact coded_fuseMatMul (hn (.inr hop)) hnext
  · simp

/-- A node of no fixed number of spatial axes that is not made a linear layer is as it was read. -/
lemma eq_of_fuse (hspecialise : n.specialise = .ok n₁)
    (hfuse : n₁.fuse r next = .ok (n₂, consumed)) (hop : n₂.operator.spatialAxes? = none)
    (hlinear : n₂.operator ≠ .linear) : n₂ = n := by
  have heq : n₂ = n₁ := by
    cases fuse_ok hfuse with
    | same node => exact node
    | gemm _ operator => exact absurd operator hlinear
    | product _ node | biased _ _ _ _ _ _ _ node => exact absurd (by rw [node]) hlinear
  obtain ⟨hsame, hnode⟩ := specialise_ok hspecialise
  rw [heq] at hop ⊢
  rw [hnode, hsame.eq_of_no_axes hop]

namespace ImportState

lemma coded_elide (h : n.operator = .identity → n.inputs ≠ [] ∧ n.outputs ≠ []) :
    FailsOnly Error.Coded (s.elide n) := by
  by_cases hop : n.operator = .identity
  · obtain ⟨hin, hout⟩ := h hop
    obtain ⟨x, xs, hx⟩ := List.exists_cons_of_ne_nil hin
    obtain ⟨y, ys, hy⟩ := List.exists_cons_of_ne_nil hout
    simp [elide, isElided, Node.input, Node.output, hx, hy]
  · simp [elide, isElided, hop]

/-- Every name that stands for a literal leads to a node that has one. -/
def FindsLiterals (s : ImportState) : Prop := ∀ x i, s.constants.get? x = some i →
  ∃ n a, s.nodes[i]? = some n ∧ literalOf n = .ok a

lemma coded_liftOperands (hs : s.FindsLiterals) : FailsOnly Error.Coded (s.liftOperands vs) := by
  induction vs generalizing s with
  | nil => simp [liftOperands]
  | cons v vs ih =>
    have hoperand : FailsOnly Error.Coded (s.liftOperand v) := by
      unfold liftOperand
      split
      · simp
      · next i hi =>
        obtain ⟨n, a, hn, ha⟩ := hs v.name i hi
        simp [hn, ha]
    simp only [liftOperands, failsOnly_bind, hoperand, true_and]
    rintro ⟨s₁, w⟩ h
    have hdrops := (liftOperand_ok h).1.eq
    have hs₁ : s₁.FindsLiterals := by
      rw [hdrops]
      exact hs
    simp [ih hs₁]

lemma coded_lift (hs : s.FindsLiterals) (hout : isTransparent n.operator = true → n.outputs ≠ [])
    (hin : n.operator = .identity → n.inputs ≠ []) : FailsOnly Error.Coded (s.lift n) := by
  have hwrites : FailsOnly Error.Coded (writesLiteral n) := by
    unfold writesLiteral
    split
    · simp
    · next hop =>
      obtain ⟨x, xs, hx⟩ := List.exists_cons_of_ne_nil (hin hop)
      simp [Node.input, hx]
    · simp
  simp only [lift, failsOnly_bind, hwrites, true_and]
  intro writes hwrote
  cases writes with
  | true =>
    have hw := (writesLiteral_ok hwrote).mp rfl
    obtain ⟨y, ys, hy⟩ := List.exists_cons_of_ne_nil (hout hw.transparent)
    simp [Node.output, hy]
  | false => simp [coded_liftOperands hs]

end ImportState

lemma coded_unsqueezeAsReshape (hout : n.operator = .unsqueeze → n.outputs ≠ [])
    (hwords : ∀ y boundary dims, n.unsqueezesAtRun = true → n.output 0 = .ok y →
      r.boundary? y.name = .ok (some boundary) → boundary.type.dims? = some dims →
      ∀ d ∈ dims, ∃ k, d = .whole k ∧ Size.isSigned k = true) :
    FailsOnly Error.Coded (n.unsqueezeAsReshape r) := by
  unfold Node.unsqueezeAsReshape
  cases hrun : n.unsqueezesAtRun with
  | false => simp
  | true =>
    obtain ⟨hop, x, axes, xs, hin, -⟩ := unsqueezesAtRun_eq_true hrun
    obtain ⟨y, ys, hy⟩ := List.exists_cons_of_ne_nil (hout hop)
    have houtput : n.output 0 = .ok y := by simp [Node.output, hy]
    have hinput : n.input 0 = .ok x := by simp [Node.input, hin]
    simp only [Bool.not_true, Bool.false_eq_true, if_false, houtput, Except.ok_bind, failsOnly_bind,
      coded_boundary?, true_and]
    intro found hfound
    cases found with
    | none => simp
    | some boundary =>
      simp only [Node.reshapeTo?, houtput, hinput, Except.ok_bind]
      split
      · next dims _ htype =>
        have hdims : boundary.type.dims? = some dims := by rw [htype]; rfl
        have hword : ∀ d ∈ dims, ∃ k, d.toWord = .ok k := by
          intro d hd
          obtain ⟨k, rfl, hk⟩ := hwords y boundary dims hrun houtput hfound hdims d hd
          refine ⟨k, ?_⟩
          simp only [Size.toWord, Size.toInt, Except.ok_bind, hk, if_true]
          rfl
        obtain ⟨target, htarget⟩ := Except.exists_mapM_eq_ok hword
        simp [htarget]
      · simp

/-! ## Runs -/

/-- The literal that a node of the graph writes can be read again. -/
lemma Step.exists_literal (h : Step s p s') (hs : s.registry.Sound) (hw : p.led.WritesLiteral) :
    ∃ a, ImportState.literalOf p.final = .ok a := by
  have hfinal := h.writesLiteral_final hs hw
  unfold ImportState.literalOf
  rcases hfinal with hop | ⟨-, u, us, hinputs, hliteral⟩
  · -- a Constant has been typed by its literal
    have hreshaped : p.reshaped.operator = .constant := h.operator_typed.symm.trans hop
    have hconstant : ∃ a, p.reshaped.constant = .ok a := by
      have hinfer := h.infer
      simp only [Node.infer, Node.typedOutputs, hreshaped, Typing.rule?, Typing.constant,
        Except.bind_eq_ok] at hinfer
      obtain ⟨_, ⟨_, ⟨a, ha, -⟩, -⟩, -⟩ := hinfer
      exact ⟨a, ha⟩
    obtain ⟨outputs, -, htyped⟩ := infer_ok h.infer
    have hsame : p.final.constant = p.reshaped.constant := by
      rw [Passage.final, htyped]
      rfl
    rw [hsame]
    split
    · split
      · exact ⟨_, rfl⟩
      · exact hconstant
    · exact hconstant
  · rw [hinputs]
    exact ⟨u, by simp [hliteral]⟩

lemma Run.findsLiterals (run : Run m ps rest s) : s.FindsLiterals := by
  induction run with
  | start => exact fun x i hi => by simp at hi
  | @step ps p rest s s' run next step ih =>
    intro x i hi
    have hold : ∀ x i, s.constants.get? x = some i →
        ∃ n a, s'.nodes[i]? = some n ∧ ImportState.literalOf n = .ok a := by
      intro x i hi
      obtain ⟨n, a, hn, ha⟩ := ih x i hi
      rw [step.nodes]
      exact ⟨n, a, getElem?_append_of_some hn, ha⟩
    by_cases hw : p.led.WritesLiteral
    · cases step.literals with
      | reads _ _ _ bare => exact absurd hw bare
      | @writes y _ _ _ _ constants =>
        rw [constants, Table.get?_insert] at hi
        split at hi
        · obtain rfl := Option.some.inj hi
          obtain ⟨a, ha⟩ := step.exists_literal run.sound hw
          rw [step.nodes]
          exact ⟨p.final, a, List.getElem?_concat_length .., ha⟩
        · exact hold x i hi
    · rw [step.constants_of_not_writes hw] at hi
      exact hold x i hi

lemma Run.mem_nodes (run : Run m ps (raw :: rest) s) {raw' : NodeMessage}
    (h : raw' = raw ∨ rest.head? = some raw') : raw' ∈ m.nodes := by
  rw [← run.messages]
  rcases h with rfl | h
  · simp
  · simp [List.mem_of_head? h]

lemma ImportState.Elides.findsLiterals (h : s.Elides n s' n') (hs : s.FindsLiterals) :
    s'.FindsLiterals := by
  cases h with
  | out _ _ _ _ _ _ state =>
    rw [state]
    exact hs
  | past _ _ state => exact state ▸ hs

lemma ImportState.Elides.inputs_ne_nil (h : s.Elides n s' n') (hin : n.inputs ≠ []) :
    n'.inputs ≠ [] := by
  cases h with
  | out _ _ _ _ _ node => rwa [node]
  | past _ node => simpa [node] using hin

lemma coded_inferAndRecord (hn : ¬ n.Defective) :
    FailsOnly Error.Coded (ImportState.inferAndRecord r n) := by
  simp only [ImportState.inferAndRecord, failsOnly_bind, Node.coded_infer hn, true_and]
  intro typed _
  have hrecord : FailsOnly Error.Coded (r.record typed.name typed.outputs).2 := coded_record
  split
  · simp
  · next e he =>
    rw [he] at hrecord
    simpa using hrecord

lemma outputs_ne_nil_of_inferAndRecord {r' : Registry} (hn : ¬ n.Defective)
    (h : ImportState.inferAndRecord r n = .ok (r', n')) : n'.outputs ≠ [] := by
  obtain ⟨y, ys, hy⟩ := Node.exists_outputs (mt .malformed hn)
  obtain ⟨outputs, hretyped, rfl⟩ := infer_ok (inferAndRecord_eq_ok.mp h).1
  rintro hnil
  rw [hy] at hretyped
  have hlength := hretyped.length_eq
  simp_all

/-- Of nodes of these kinds, the stages before typing read operands and outputs unasked. -/
lemma exists_operands_of_fuse (hn : ¬ n.Malformed) (hspecialise : n.specialise = .ok n₁)
    (hfuse : n₁.fuse r next = .ok (n₂, consumed))
    (hop : n₂.operator ∈ [.constant, .identity, .unsqueeze]) :
    n₂.outputs ≠ [] ∧ (n₂.operator = .identity → n₂.inputs ≠ []) := by
  have hsame : n₂ = n := by
    simp only [List.mem_cons, List.not_mem_nil, or_false] at hop
    apply eq_of_fuse hspecialise hfuse
    · rcases hop with hop | hop | hop <;> rw [hop] <;> rfl
    · rcases hop with hop | hop | hop <;> simp [hop]
  rw [hsame]
  constructor
  · obtain ⟨y, ys, hy⟩ := Node.exists_outputs hn
    simp [hy]
  · intro hop
    obtain ⟨x, hx, -⟩ := Node.exists_input (i := 0) hn (by simp [hop, Operator.required])
    exact List.ne_nil_of_mem hx

lemma coded_lift_of_elide (hs : s.FindsLiterals)
    (hkept : n.operator ∈ [.constant, .identity, .unsqueeze] →
      n.outputs ≠ [] ∧ (n.operator = .identity → n.inputs ≠ []))
    (helide : s.elide n = .ok (s', n')) : FailsOnly Error.Coded (s'.lift n') := by
  have hled := elide_ok helide
  have hoperator : n'.operator = n.operator := by rw [hled.node]
  have houtputs : n'.outputs = n.outputs := by rw [hled.node]
  apply ImportState.coded_lift (hled.findsLiterals hs)
  · intro ht
    rw [hoperator] at ht
    rw [houtputs]
    refine (hkept ?_).1
    unfold ImportState.isTransparent at ht
    split at ht <;> simp_all
  · intro hop
    rw [hoperator] at hop
    exact hled.inputs_ne_nil ((hkept (by simp [hop])).2 hop)

namespace Run

variable (run : Run m ps (raw :: rest) s) (hm : ¬ m.Flawed)

include run hm

lemma coded_convert {raw' : NodeMessage} (hraw : raw' = raw ∨ rest.head? = some raw') :
    FailsOnly Error.Coded (s.registry.convert raw') := by
  have hoperator : FailsOnly Error.Coded raw'.knownOperator := by
    unfold NodeMessage.knownOperator
    split <;> simp
  simp [convert, hoperator, coded_toAttributes hm (run.mem_nodes hraw)]

lemma wellFormed {raw' : NodeMessage} (hraw : raw' = raw ∨ rest.head? = some raw')
    (hread : s.registry.convert raw' = .ok n) : ¬ n.Malformed :=
  fun hn => hm (.read run hraw hread hn)

lemma coded_fuse (hread : s.registry.convert raw = .ok n) (hspecialise : n.specialise = .ok n₁) :
    FailsOnly Error.Coded (n₁.fuse s.registry rest.head?) := by
  apply TensorGraph.coded_fuse
  · intro hop
    obtain ⟨hsame, hnode⟩ := specialise_ok hspecialise
    have hnone : n₁.operator.spatialAxes? = none := by
      rcases hop with hop | hop <;> rw [hop] <;> rfl
    rw [hnode, hsame.eq_of_no_axes hnone]
    exact run.wellFormed hm (.inl rfl) hread
  · intro raw' hraw
    exact ⟨run.coded_convert hm (.inr hraw), fun add hadd => run.wellFormed hm (.inr hraw) hadd⟩

lemma coded_reshape (front : Step.Front s p) (hp : p.message = raw) (next : p.next = rest.head?) :
    FailsOnly Error.Coded (p.lifted.unsqueezeAsReshape s.registry) := by
  subst hp
  apply coded_unsqueezeAsReshape
  · intro hop
    have hn := run.wellFormed hm (.inl rfl) front.convert
    have hfused : p.fused.operator = .unsqueeze := front.operator_lifted.symm.trans hop
    have hout := (exists_operands_of_fuse hn front.specialise front.fuse (by simp [hfused])).1
    rwa [front.outputs_lifted, ← front.outputs_fused]
  · intro y boundary dims hrun hout hboundary hdims d hd
    by_contra hnone
    refine hm (.boundary run next front hrun hout hboundary hdims hd ?_)
    intro k hk
    by_contra hword
    exact hnone ⟨k, hk, by simpa using hword⟩

/-- A step of an import of a model that is not flawed fails with a coded error. -/
theorem coded_step : FailsOnly Error.Coded (s.step m raw rest.head?) := by
  unfold ImportState.step
  rw [failsOnly_bind]
  refine ⟨run.coded_convert hm (.inl rfl), ?_⟩
  intro n hconvert
  have hn : ¬ n.Malformed := run.wellFormed hm (.inl rfl) hconvert
  rw [failsOnly_bind]
  refine ⟨Node.coded_specialise hn, ?_⟩
  intro n₁ hspecialise
  rw [failsOnly_bind]
  refine ⟨run.coded_fuse hm hconvert hspecialise, ?_⟩
  rintro ⟨n₂, consumed⟩ hfuse
  have hkept := exists_operands_of_fuse hn hspecialise hfuse
  rw [failsOnly_bind]
  constructor
  · apply ImportState.coded_elide
    intro hop
    have hidentity : n₂.operator = .identity := hop
    obtain ⟨hout, hin⟩ := hkept (by simp [hidentity])
    exact ⟨hin hop, hout⟩
  rintro ⟨elision, led⟩ helide
  rw [failsOnly_bind]
  have hs : (s.nameNode n₂).1.FindsLiterals := run.findsLiterals
  refine ⟨coded_lift_of_elide (n := (s.nameNode n₂).2) hs hkept helide, ?_⟩
  rintro ⟨lifting, lifted⟩ hlift
  let p : Passage := ⟨raw, rest.head?, n, n₁, n₂, consumed, elision, led, lifting, lifted, lifted,
    lifted, s.registry, s.registry, [], s.registry, []⟩
  have front : Step.Front s p := ⟨hconvert, hspecialise, hfuse, helide, hlift⟩
  have hregistry : lifting.registry = s.registry := front.registry_lifting
  rw [failsOnly_bind]
  dsimp only
  rw [hregistry]
  refine ⟨coded_diagnose hm (run.coded_reshape hm front rfl rfl), ?_⟩
  intro reshaped hreshape
  have hsound : ¬ reshaped.Defective :=
    fun hdefect => hm (.typed (p := p) run rfl front (diagnose_eq_ok.mp hreshape) hdefect)
  rw [failsOnly_bind]
  refine ⟨coded_diagnose hm (coded_inferAndRecord hsound), ?_⟩
  rintro ⟨recorded, typed⟩ hrecord
  have hout := outputs_ne_nil_of_inferAndRecord hsound (diagnose_eq_ok.mp hrecord)
  simp [coded_renameValues hm hout]

end Run

end TensorGraph
