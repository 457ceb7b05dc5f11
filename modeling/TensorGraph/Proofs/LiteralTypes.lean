import TensorGraph.Proofs.Import.Edges
import TensorGraph.Proofs.Import.Messages

/-!
# The types of literals

What a graph knows beforehand it types as such: a graph input or an operand with a literal has the
type of that literal (`importGraph_typedAsLiteral`). Values without a literal are typed by the
rules of their nodes, and never get one afterwards, unless an Unsqueeze that leaves its output unnamed
takes a graph input without a name for it (`unnamedArray_typedAsLiteral`).
-/

namespace TensorGraph

open Onnx ModelMessage Registry

variable {m : ModelMessage} {r r' : Registry} {s s' : ImportState} {p : Passage} {ps : List Passage}
  {rest : List NodeMessage} {raw : NodeMessage} {n n' : Node} {v w : Value} {vs ws : List Value}
  {a : Literal} {t : ValueType} {x new producer : String} {slot : Slot}

lemma Literal.type_eq_ok : a.type = .ok t ↔ ∃ e, a.layout.element = .ok e ∧
    t = if a.shape = [] then .scalar e
      else .tensor e (.ofNat a.shape.length) (some (a.shape.map Size.ofNat)) := by
  simp only [Literal.type, Except.bind_eq_ok, Except.pure_eq_ok]
  refine exists_congr fun e => and_congr_right fun _ => ?_
  cases a.shape <;> simp [eq_comm]

/-- The literal of the value, if there is one, has the type of the value. -/
def Value.TypedAsLiteral (v : Value) : Prop := ∀ a ∈ v.literal, a.type = .ok v.type

instance : DecidablePred Value.TypedAsLiteral := fun _ => by
  unfold Value.TypedAsLiteral
  infer_instance

namespace Value

lemma typedAsLiteral_of_bare (h : v.literal = none) : v.TypedAsLiteral := by
  simp [TypedAsLiteral, h]

/-- Whether the type of a value is that of its literal does not depend on its name, nor on its
use. -/
lemma TypedAsLiteral.congr (h : v.TypedAsLiteral) (hliteral : w.literal = v.literal)
    (htype : w.type = v.type) : w.TypedAsLiteral := by
  unfold TypedAsLiteral
  rwa [hliteral, htype]

lemma typedAsLiteral_copyFrom (h : w.TypedAsLiteral) : (v.copyFrom w).TypedAsLiteral :=
  h.congr rfl rfl

lemma typedAsLiteral_ofLiteral {name : String} (h : ofLiteral name a = .ok v) :
    v.TypedAsLiteral := by
  simp only [ofLiteral, Except.bind_eq_ok, Except.pure_eq_ok] at h
  obtain ⟨t, ht, rfl⟩ := h
  intro b hb
  obtain rfl : a = b := by simpa using hb
  exact ht

lemma typedAsLiteral_toValue {t : TensorMessage} (h : t.toValue = .ok v) : v.TypedAsLiteral := by
  simp only [TensorMessage.toValue, Except.bind_eq_ok] at h
  obtain ⟨b, -, hb⟩ := h
  exact typedAsLiteral_ofLiteral hb

/-- What is taken for a matrix has a literal of two axes. -/
lemma TypedAsLiteral.matrix (h : v.TypedAsLiteral) (hmatrix : v.isLiteralMatrix = true) :
    ∃ a, v.literal = some a ∧ a.shape.length = 2 := by
  simp only [isLiteralMatrix, Bool.and_eq_true, Option.isSome_iff_exists] at hmatrix
  obtain ⟨⟨⟨a, ha⟩, htensor⟩, hrank⟩ := hmatrix
  obtain ⟨e, -, htype⟩ := Literal.type_eq_ok.mp (h a ha)
  by_cases hshape : a.shape = []
  · rw [htype, if_pos hshape] at htensor
    simp [ValueType.isTensor] at htensor
  · rw [htype, if_neg hshape] at hrank
    have hrank : (a.shape.length : Int) = 2 := of_decide_eq_true hrank
    exact ⟨a, ha, by omega⟩

/-- A matrix with its axes exchanged is typed as a matrix. -/
lemma typedAsLiteral_transpose (h : v.TypedAsLiteral) (hmatrix : v.isLiteralMatrix = true) :
    v.transpose.TypedAsLiteral := by
  obtain ⟨a, ha, hlen⟩ := h.matrix hmatrix
  obtain ⟨e, he, htype⟩ := Literal.type_eq_ok.mp (h a ha)
  have hshape : a.shape ≠ [] := List.ne_nil_of_length_eq_add_one hlen
  rw [if_neg hshape] at htype
  intro b hb
  obtain rfl : b = a.transpose := by simpa [transpose, ha, hshape] using hb.symm
  refine Literal.type_eq_ok.mpr ⟨e, he, ?_⟩
  simp [transpose, ha, hshape, htype, Literal.transpose, hlen, ValueType.element]
  rfl

end Value

/-- Arrays and graph inputs are typed as their literals; nothing else has a literal. -/
structure Registry.TypedAsLiterals (r : Registry) : Prop where
  initializers : ∀ {x v}, r.initializers.get? x = some v → v.TypedAsLiteral
  inputs : ∀ v ∈ r.inputs, v.TypedAsLiteral
  outputs : ∀ v ∈ r.outputs, v.literal = none
  interior : ∀ v ∈ r.interior, v.literal = none

namespace Registry.TypedAsLiterals

lemma value_input (h : r.TypedAsLiterals) (i : Nat) : (r.value (.input i)).TypedAsLiteral := by
  simp only [value, List.getD_eq_getElem?_getD]
  cases hv : r.inputs[i]? with
  | none => exact Value.typedAsLiteral_of_bare rfl
  | some v => exact h.inputs v (List.mem_of_getElem? hv)

lemma value_bare (h : r.TypedAsLiterals) (hslot : ∀ i, slot ≠ .input i) :
    (r.value slot).literal = none := by
  have hbare : ∀ (vs : List Value) (i : Nat), (∀ v ∈ vs, v.literal = none) →
      (vs.getD i default).literal = none := by
    intro vs i hvs
    rw [List.getD_eq_getElem?_getD]
    cases hv : vs[i]? with
    | none => rfl
    | some v => exact hvs v (List.mem_of_getElem? hv)
  cases slot with
  | input i => exact absurd rfl (hslot i)
  | output i => exact hbare _ i h.outputs
  | interior i => exact hbare _ i h.interior

lemma resolve (h : r.TypedAsLiterals) (hv : r.resolve x = .ok v) : v.TypedAsLiteral := by
  by_cases hx : x = ""
  · rw [hx, resolve_empty] at hv
    rw [← Except.ok.inj hv]
    exact Value.typedAsLiteral_of_bare rfl
  obtain ⟨-, rfl⟩ | ⟨i, -, rfl⟩ | ⟨i, -, rfl⟩ := resolve_ok hx hv
  · cases ha : r.initializers.get? x with
    | none => exact Value.typedAsLiteral_of_bare rfl
    | some u => exact h.initializers ha
  · exact (h.value_input i).congr rfl rfl
  · have hbare : (r.value (.interior i)).literal = none := h.value_bare (by simp)
    exact Value.typedAsLiteral_of_bare hbare

lemma mem_modify {f : Value → Value} {i : Nat} (hw : w ∈ vs.modify i f) :
    ∃ v ∈ vs, w = v ∨ w = f v := by
  obtain ⟨j, hj⟩ := List.getElem?_of_mem hw
  rw [List.getElem?_modify] at hj
  obtain ⟨v, hv, rfl⟩ := Option.map_eq_some_iff.mp hj
  refine ⟨v, List.mem_of_getElem? hv, ?_⟩
  split
  · exact .inr rfl
  · exact .inl rfl

lemma modify (h : r.TypedAsLiterals) {f : Value → Value}
    (htyped : ∀ v, v.TypedAsLiteral → (f v).TypedAsLiteral)
    (hbare : ∀ v, v.literal = none → (f v).literal = none) : (r.modify f slot).TypedAsLiterals := by
  refine ⟨fun hv => h.initializers (initializers_modify f ▸ hv), fun w hw => ?_, fun w hw => ?_,
    fun w hw => ?_⟩
  · cases slot with
    | input i =>
      obtain ⟨v, hv, rfl | rfl⟩ := mem_modify hw
      · exact h.inputs w hv
      · exact htyped v (h.inputs v hv)
    | _ => exact h.inputs w hw
  · cases slot with
    | output i =>
      obtain ⟨v, hv, rfl | rfl⟩ := mem_modify hw
      · exact h.outputs w hv
      · exact hbare v (h.outputs v hv)
    | _ => exact h.outputs w hw
  · cases slot with
    | interior i =>
      obtain ⟨v, hv, rfl | rfl⟩ := mem_modify hw
      · exact h.interior w hv
      · exact hbare v (h.interior v hv)
    | _ => exact h.interior w hw

lemma rename_slot (h : r.TypedAsLiterals) :
    (r.modify (fun v => { v with name := new }) slot).TypedAsLiterals :=
  h.modify (fun _ hv => hv.congr rfl rfl) fun _ hv => hv

lemma addInterior (h : r.TypedAsLiterals) (hv : v.literal = none) :
    (r.addInterior x v).TypedAsLiterals where
  initializers := h.initializers
  inputs := h.inputs
  outputs := h.outputs
  interior w hw := by
    rw [Registry.addInterior, List.mem_append, List.mem_singleton] at hw
    rcases hw with hw | rfl
    · exact h.interior w hw
    · exact hv

lemma marked (h : r.TypedAsLiterals) (hm : Marked r r') : r'.TypedAsLiterals where
  initializers hv := h.initializers (hm.initializers ▸ hv)
  inputs w hw := by
    obtain ⟨v, hv, rfl | rfl⟩ := forall₂_exists_of_mem hm.inputs.flip hw
    · exact h.inputs w hv
    · exact (h.inputs v hv).congr rfl rfl
  outputs := hm.outputs ▸ h.outputs
  interior := hm.interior ▸ h.interior

lemma recordOne (h : r.TypedAsLiterals) (hv : v.literal = none)
    (hr : r.recordOne producer v = .ok r') : r'.TypedAsLiterals := by
  by_cases hne : v.name = ""
  · obtain rfl : r = r' := by simpa [Registry.recordOne, hne] using hr
    exact h
  have hcopy : ∀ w : Value, (w.copyFrom v).literal = none := fun _ => hv
  obtain ⟨-, -, rfl⟩ | ⟨i, -, rfl⟩ | ⟨i, -, rfl⟩ := recordOne_ok hne hr
  · exact h.addInterior hv
  · exact h.modify (fun w _ => Value.typedAsLiteral_of_bare (hcopy w)) fun w _ => hcopy w
  · exact h.modify (fun w _ => Value.typedAsLiteral_of_bare (hcopy w)) fun w _ => hcopy w

lemma record (h : r.TypedAsLiterals) (hvs : ∀ v ∈ vs, v.literal = none)
    (hr : r.record producer vs = (r', .ok ())) : r'.TypedAsLiterals :=
  record_invariant (fun hv h₁ h => h.recordOne (hvs _ hv) h₁) hr h

lemma renameOutputs {number : Nat} (h : r.TypedAsLiterals)
    (hr : ImportState.renameOutputs n r number vs = .ok (r', ws)) : r'.TypedAsLiterals := by
  refine renameOutputs_invariant (fun _ _ h₁ h => ?_) hr h
  obtain ⟨slot, -, -, rfl⟩ := rename_ok h₁
  exact h.rename_slot

lemma insertOrRename (h : r.TypedAsLiterals) (hv : v.literal = none)
    (hr : r.insertOrRename v new = .ok r') : r'.TypedAsLiterals := by
  obtain ⟨-, rfl⟩ | ⟨slot, -, -, -, rfl⟩ := insertOrRename_cases hr
  · exact h.addInterior hv
  · exact h.rename_slot

end Registry.TypedAsLiterals

lemma Registry.TypedAsLiterals.addInput {d : ValueMessage} (h : r.TypedAsLiterals)
    (hr : r.addInput d = .ok r') : r'.TypedAsLiterals := by
  simp only [Registry.addInput, Except.bind_eq_ok, Except.pure_eq_ok] at hr
  obtain ⟨v, hv, rfl⟩ := hr
  refine ⟨h.initializers, fun w hw => ?_, h.outputs, h.interior⟩
  rw [List.mem_append, List.mem_singleton] at hw
  rcases hw with hw | rfl
  · exact h.inputs w hw
  · cases ha : r.initializers.get? d.name with
    | none => exact Value.typedAsLiteral_of_bare (declared_ok hv).2
    | some a => exact (h.initializers ha).congr rfl rfl

lemma Registry.TypedAsLiterals.addOutput {d : ValueMessage} (h : r.TypedAsLiterals)
    (hr : r.addOutput d = .ok r') : r'.TypedAsLiterals := by
  simp only [Registry.addOutput, Except.bind_eq_ok, Except.pure_eq_ok] at hr
  obtain ⟨v, hv, rfl⟩ := hr
  refine ⟨h.initializers, h.inputs, fun w hw => ?_, h.interior⟩
  rw [List.mem_append, List.mem_singleton] at hw
  rcases hw with hw | rfl
  · exact h.outputs w hw
  · exact (declared_ok hv).2

/-- Before the first node the registry of a model is typed as its literals. -/
lemma typedAsLiterals_ofModel (h : ofModel m = .ok r) : r.TypedAsLiterals := by
  have harrays := (ofModel_declares h).2
  simp only [ofModel, Except.bind_eq_ok] at h
  obtain ⟨t, ht, r₁, hinputs, houtputs⟩ := h
  have start : ({ initializers := t } : Registry).TypedAsLiterals := by
    refine ⟨fun {x v} hv => ?_, by simp, by simp, by simp⟩
    obtain ⟨b, -, -, hb⟩ := (initializersOf_holds ht).array hv
    exact Value.typedAsLiteral_toValue hb
  have hmiddle := Except.foldlM_invariant Registry.TypedAsLiterals
    (fun _ _ _ hr h => h.addInput hr) hinputs start
  exact Except.foldlM_invariant Registry.TypedAsLiterals
    (fun _ _ _ hr h => h.addOutput hr) houtputs hmiddle

/-- The operands of the node are typed as their literals. -/
def Node.TypedAsLiterals (n : Node) : Prop := ∀ v ∈ n.inputs, v.TypedAsLiteral

lemma typedAsLiterals_convert (h : r.TypedAsLiterals) (hn : r.convert raw = .ok n) :
    n.TypedAsLiterals := by
  intro v hv
  obtain ⟨x, -, hx⟩ := forall₂_exists_of_mem (convert_ok hn).2.2.1.flip hv
  exact h.resolve hx

lemma typedAsLiterals_fuseGemm (h : n.TypedAsLiterals) (hn : n.fuseGemm = .ok n') :
    n'.TypedAsLiterals := by
  unfold Node.fuseGemm at hn
  split at hn
  · exact Except.pure_eq_ok.mp hn ▸ h
  simp only [Except.bind_eq_ok] at hn
  obtain ⟨plain, -, hn⟩ := hn
  split at hn
  · exact Except.pure_eq_ok.mp hn ▸ h
  split at hn
  · exact Except.pure_eq_ok.mp hn ▸ h
  next hmatrix =>
  simp only [Except.bind_eq_ok, Except.pure_eq_ok] at hn
  obtain ⟨transposed, -, rfl⟩ := hn
  cases transposed with
  | false => exact h
  | true =>
    intro w hw
    obtain ⟨k, hk⟩ := List.getElem?_of_mem hw
    simp only [if_true, List.getElem?_modify] at hk
    obtain ⟨v, hv, rfl⟩ := Option.map_eq_some_iff.mp hk
    have hmem := List.mem_of_getElem? hv
    split
    · next hplace =>
      rw [← hplace] at hv
      have hliteral : v.isLiteralMatrix = true := by
        simpa [Node.hasLiteralMatrix, hv] using hmatrix
      exact Value.typedAsLiteral_transpose (h v hmem) hliteral
    · exact h v hmem

/-- A linear layer takes over operands of the nodes that it is made of, the weight transposed
perhaps. -/
lemma typedAsLiterals_fuse {next : Option NodeMessage} {consumed : Bool} (hr : r.TypedAsLiterals)
    (h : n.TypedAsLiterals) (hn : n.fuse r next = .ok (n', consumed)) : n'.TypedAsLiterals := by
  have hfuses := fuse_ok hn
  cases hfuses with
  | same node => exact node ▸ h
  | gemm operator =>
    simp only [Node.fuse, operator, Except.bind_eq_ok, Except.pure_eq_ok, Prod.mk.injEq] at hn
    obtain ⟨n₁, hn, rfl, -⟩ := hn
    exact typedAsLiterals_fuseGemm h hn
  | product _ node =>
    rw [node]
    exact h
  | biased _ _ _ convert adds _ _ node =>
    rw [node]
    intro v hv
    rw [List.mem_append, List.mem_singleton] at hv
    rcases hv with hv | rfl
    · exact h v hv
    · exact typedAsLiterals_convert hr convert _ adds.bias_mem

lemma typedAsLiteral_constant (h : n.constant = .ok v) : v.TypedAsLiteral := by
  unfold Node.constant at h
  split at h
  · simp only [Except.bind_eq_ok] at h
    obtain ⟨a, -, h⟩ := h
    exact Value.typedAsLiteral_ofLiteral h
  · simp at h

lemma typedAsLiteral_literalOf (hn : n.TypedAsLiterals) (h : ImportState.literalOf n = .ok v) :
    v.TypedAsLiteral := by
  unfold ImportState.literalOf at h
  split at h
  · next u us hin =>
    split at h
    · exact Except.ok.inj h ▸ hn u (by simp [hin])
    · exact typedAsLiteral_constant h
  · exact typedAsLiteral_constant h

lemma typedAsLiteral_shapeOperand (target : List Int) :
    (n.shapeOperand target).TypedAsLiteral := by
  intro a ha
  obtain rfl := Option.some.inj ha
  exact Literal.type_eq_ok.mpr ⟨.int64, rfl, by simp [Literal.vector, Node.shapeOperand]; rfl⟩

/-! ## Steps and runs -/

/-- What the importer holds is typed as its literals: the registry, and the operands of the nodes so
far. -/
structure ImportState.TypedAsLiterals (s : ImportState) : Prop where
  registry : s.registry.TypedAsLiterals
  nodes : ∀ n ∈ s.nodes, n.TypedAsLiterals

namespace Step

lemma Front.typedAsLiterals_led (h : Front s p) (hs : s.TypedAsLiterals) :
    p.led.TypedAsLiterals := by
  have hconverted := typedAsLiterals_convert hs.registry h.convert
  have hspecialised : p.specialised.TypedAsLiterals := by
    rw [(specialise_ok h.specialise).2]
    exact hconverted
  have hfused := typedAsLiterals_fuse hs.registry hspecialised h.fuse
  obtain ⟨lead, hlead⟩ := h.leads
  intro v hv
  rw [hlead.inputs] at hv
  obtain ⟨u, hu, rfl⟩ := List.mem_map.mp hv
  exact (hfused u hu).congr rfl rfl

lemma Front.typedAsLiterals_lifted (h : Front s p) (hs : s.TypedAsLiterals) :
    p.lifted.TypedAsLiterals := by
  have hled := h.typedAsLiterals_led hs
  cases h.lifts with
  | writes _ _ node => exact node ▸ hled
  | same _ _ node => exact node ▸ hled
  | operands _ _ operands node =>
    rw [node]
    intro w hw
    rcases List.mem_append.mp hw with hw | hw
    · exact hled w (List.mem_of_mem_take hw)
    · obtain ⟨v, hv, hlift⟩ := forall₂_exists_of_mem operands.flip hw
      cases hlift with
      | bare _ value => exact value ▸ hled v (List.mem_of_mem_drop hv)
      | literal _ node literal value =>
        rw [h.nodes_elision] at node
        rw [value]
        exact Value.typedAsLiteral_copyFrom
          (typedAsLiteral_literalOf (hs.nodes _ (List.mem_of_getElem? node)) literal)

lemma Body.typedAsLiterals_typed (h : Body s p) (hs : s.TypedAsLiterals) :
    p.typed.TypedAsLiterals := by
  have hlifted := h.typedAsLiterals_lifted hs
  unfold Node.TypedAsLiterals
  rw [h.inputs_typed]
  cases h.reshapes with
  | same node => exact node ▸ hlifted
  | reshape _ inputs _ _ _ _ node =>
    rw [node]
    intro v hv
    simp only [List.mem_cons] at hv
    rcases hv with rfl | rfl | hv
    · exact hlifted _ (by simp [inputs])
    · exact typedAsLiteral_shapeOperand _
    · exact hlifted _ (by simp [inputs, hv])

/-- What a node writes has no literal, unless it is an Unsqueeze onto a graph input. -/
lemma Body.bare_typed (h : Body s p) (hs : s.TypedAsLiterals)
    (hin : p.Reshaped → ∀ x ∈ p.message.outputs.head?, ∀ i,
      s.registry.slots.get? x ≠ some (.input i))
    (hv : v ∈ p.typed.outputs) : v.literal = none := by
  have hlifted := h.outputs_lifted
  have hreshaped : ∀ w ∈ p.reshaped.outputs, w.literal = none := by
    have hbare : ∀ xs : List String, ∀ w ∈ xs.map bareValue, w.literal = none := by
      intro xs w hw
      obtain ⟨x, -, rfl⟩ := List.mem_map.mp hw
      rfl
    cases h.reshapes with
    | same node =>
      rw [node, hlifted]
      exact hbare _
    | reshape operator _ _ outputs slot_eq outer node =>
      have hp : p.Reshaped := ⟨operator, by rw [h.operator_typed, node]⟩
      rw [outputs] at hlifted
      obtain ⟨x, xs, hx, rfl, rfl⟩ := List.map_eq_cons_iff.mp hlifted.symm
      rw [Passage.outputNames_of_kept (h.typed.of_reshaped hp).1] at hx
      rw [node]
      intro w hw
      rcases List.mem_cons.mp hw with rfl | hw
      · refine hs.registry.value_bare fun i hi => hin hp x (by rw [hx]; rfl) i ?_
        rw [← hi]
        exact slot_eq
      · exact hbare xs w hw
  obtain ⟨outputs, hretyped, hinfer⟩ := infer_ok h.infer
  rw [hinfer] at hv
  obtain ⟨w, hw, t, rfl⟩ := forall₂_exists_of_mem hretyped.flip hv
  exact hreshaped w hw

/-- A passage that makes no graph input the output of a Reshape keeps what is known typed as its
literals. -/
theorem typedAsLiterals (h : Step s p s') (hsound : s.registry.Sound) (hs : s.TypedAsLiterals)
    (hin : p.Reshaped → ∀ x ∈ p.message.outputs.head?, ∀ i,
      s.registry.slots.get? x ≠ some (.input i)) :
    s'.TypedAsLiterals := by
  have hbare : ∀ v ∈ p.typed.outputs, v.literal = none := fun _ => h.bare_typed hs hin
  have hrecorded : p.recorded.TypedAsLiterals :=
    hs.registry.record hbare (h.registry_lifting ▸ h.record)
  obtain ⟨hmarks, hinputs, -⟩ :=
    renameInputs_ok (h.grows_recorded hsound).sound h.renameInputs
  have hmarked := hrecorded.marked hmarks
  have hregistry : p.registry.TypedAsLiterals := by
    have hrename := h.renameOutputs
    split at hrename
    · obtain ⟨w, ws, hout, h₁, -⟩ := renameLiteral_eq_ok.mp hrename
      exact hmarked.insertOrRename (hbare w (by simp [hout])) h₁
    · exact hmarked.renameOutputs hrename
  refine ⟨by rw [h.state]; exact hregistry, fun n hn => ?_⟩
  rw [h.nodes, List.mem_append, List.mem_singleton] at hn
  rcases hn with hn | rfl
  · exact hs.nodes n hn
  · intro w hw
    change w ∈ p.inputs at hw
    rw [hinputs] at hw
    obtain ⟨v, hv, rfl⟩ := List.mem_map.mp hw
    exact (h.typedAsLiterals_typed hs v hv).congr literal_renamedOperand type_renamedOperand

end Step

/-- Where no node writes a graph input, what the importer holds is typed as its literals. -/
theorem Run.typedAsLiterals (hin : ∀ x ∈ ModelMessage.written m.nodes, x ∉ m.inputNames)
    (hapart : m.UnsqueezesApart) (run : Run m ps rest s) : s.TypedAsLiterals := by
  induction run with
  | start h => exact ⟨typedAsLiterals_ofModel h, by simp⟩
  | @step ps p rest s s' run next step ih =>
    exact step.typedAsLiterals run.sound ih fun hp x hx i =>
      run.not_input_of_reshaped hin hapart step.toFront hp hx

/-- Where no node writes a graph input, and no Unsqueeze leaves its output unnamed beside a graph input
or output without a name, the graph inputs and the operands of a graph that have a literal have the
type of that literal. -/
theorem importGraph_typedAsLiteral {checkFirst : Bool} {g : Graph}
    (hin : ∀ x ∈ ModelMessage.written m.nodes, x ∉ m.inputNames) (hapart : m.UnsqueezesApart)
    (h : m.importGraph checkFirst = .ok g) :
    (∀ v ∈ g.inputs, v.TypedAsLiteral) ∧ ∀ n ∈ g.nodes, ∀ v ∈ n.inputs, v.TypedAsLiteral := by
  simp only [importGraph, Except.bind_eq_ok, Except.pure_eq_ok] at h
  obtain ⟨s, hs, rfl⟩ := h
  obtain ⟨ps, run⟩ := importState_eq_ok.mp (importState_of_check hs)
  have typed := run.typedAsLiterals hin hapart
  refine ⟨fun v hv => typed.registry.inputs v (List.mem_of_mem_filter hv), fun n hn => ?_⟩
  obtain ⟨⟨n, i⟩, hkept, rfl⟩ := List.mem_map.mp hn
  have hi := List.mem_zipIdx_iff_getElem?.mp (List.mem_of_mem_filter hkept)
  exact typed.nodes n (List.mem_of_getElem? hi)

/-- A general product whose weight is stored transposed, a product with a bias, a graph input that
holds an array, and a Reshape to a shape that a Constant writes. -/
def weighted : ModelMessage where
  inputs := [{ name := "x", elementType := 7, dims := [.size 2, .size 3] },
    { name := "b", elementType := 1, dims := [.unknown] }]
  outputs := [{ name := "y", elementType := 7, dims := [.size 4] }]
  initializers := [
    { name := "w", dataType := 7, dims := [2, 3], int64s := [1, 2, 3, 4, 5, 6] },
    { name := "v", dataType := 7, dims := [2, 2], int64s := [1, 0, 0, 1] },
    { name := "b", dataType := 7, dims := [2], int64s := [7, 8] }]
  nodes := [
    { operator := "Gemm", inputs := ["x", "w"], outputs := ["p"],
      attributes := [{ name := "transB", kind := .int, int := 1 }] },
    { operator := "MatMul", inputs := ["p", "v"], outputs := ["q"] },
    { operator := "Add", inputs := ["q", "b"], outputs := ["z"] },
    { operator := "Constant", outputs := ["c"],
      attributes := [{ name := "value_ints", kind := .ints, ints := [4] }] },
    { operator := "Reshape", inputs := ["z", "c"], outputs := ["y"] }]

theorem importGraph_typedAsLiteral_weighted :
    (∀ x ∈ ModelMessage.written weighted.nodes, x ∉ weighted.inputNames) ∧
      weighted.UnsqueezesApart ∧
      ∃ g, weighted.importGraph false = .ok g ∧
        ((∀ v ∈ g.inputs, v.TypedAsLiteral) ∧ ∀ n ∈ g.nodes, ∀ v ∈ n.inputs, v.TypedAsLiteral) ∧
        (g.nodes.flatMap fun n => n.inputs.filter (·.literal.isSome)).length = 4 := by
  have hin : ∀ x ∈ ModelMessage.written weighted.nodes, x ∉ weighted.inputNames := by decide
  have hapart : weighted.UnsqueezesApart := by decide
  have hcounted : ∃ g, weighted.importGraph false = .ok g ∧
      (g.nodes.flatMap fun n => n.inputs.filter (·.literal.isSome)).length = 4 :=
    Except.exists_ok (by decide +kernel)
  obtain ⟨g, hg, hcount⟩ := hcounted
  exact ⟨hin, hapart, g, hg, importGraph_typedAsLiteral hin hapart hg, hcount⟩

/-- A graph input without a name that holds an array of integers, and an Unsqueeze of floats that
leaves its output unnamed. -/
def unnamedArray : ModelMessage where
  inputs := [{ name := "", elementType := 7, dims := [.size 1, .size 2] },
    { name := "x", elementType := 1, dims := [.size 2] },
    { name := "a", elementType := 7, dims := [.size 1] }]
  outputs := [{ name := "y", elementType := 1, dims := [.size 1, .size 2] }]
  initializers := [{ name := "", dataType := 7, dims := [1, 2], int64s := [5, 6] }]
  nodes := [
    { operator := "Unsqueeze", inputs := ["x", "a"], outputs := [""] },
    { operator := "Relu", inputs := ["input1"], outputs := ["y"] }]

/-- The Relu reads the array of integers as floats. -/
theorem unnamedArray_typedAsLiteral :
    (∀ x ∈ ModelMessage.written unnamedArray.nodes, x ∉ unnamedArray.inputNames) ∧
      ∃ g, unnamedArray.importGraph true = .ok g ∧
        ∃ n ∈ g.nodes, ∃ v ∈ n.inputs, ¬ v.TypedAsLiteral ∧
          v.type = .tensor .float32 2 (some [.ofNat 1, .ofNat 2]) ∧
            v.literal.map Literal.type = some (.ok (.tensor .int64 2 (some [.ofNat 1, .ofNat 2]))) :=
  ⟨by decide, Except.exists_ok (by decide +kernel)⟩

end TensorGraph
