import TensorGraph.Proofs.Moving.Layers
import TensorGraph.Proofs.Moving.Steps

/-!
# Steps that are not alike

Two imports of the same messages, of which the one knows an array and the other a Constant that has
written it. Where the array is the matrix of a product, a layer and a product are added
(`Step.moved_layer`), and where a layer takes over a sum in the one run only, the other takes two steps
(`Step.moved_sum`).
-/

namespace TensorGraph

open Onnx ModelMessage Registry ImportState

variable {m m' : ModelMessage} {a : Value} {outer : String → Option Nat}
  {gone gone' : String → Option ValueType} {pending pending' : List String}
  {s s' s₁ s₁' s₂' : ImportState}
  {t : TensorMessage} {p p' q : Passage} {ps : List Passage} {before rest : List NodeMessage}
  {n : Node} {o : Operator} {v w : Value} {vs : List Value} {x : String} {r r' : Registry}

/-- The operators that are not lifted into, nor left out: products, layers and sums. -/
def Operator.isPlain : Operator → Bool
  | .matMul | .gemm | .linear | .add => true
  | _ => false

lemma Operator.kept_of_isPlain (h : o.isPlain = true) : isTransparent o = false ∧
    liftsConstants o = false ∧ o.recounted = true ∧ o ≠ .unsqueeze ∧ o ≠ .reshape := by
  cases o <;> simp_all [isPlain, isTransparent, liftsConstants, recounted]

/-- After a step that adds a node, what is known of names is as before. -/
structure ImportState.SameLifts (s s₁ : ImportState) : Prop where
  source : ∀ x, s₁.sourceOf x = s.sourceOf x
  known : ∀ x, s₁.known? x = s.known? x
  counts : ∀ o : Operator, o.recounted = false → s₁.counts.get? o = s.counts.get? o

lemma ImportState.SameLifts.trans {s₂ : ImportState} (h : s.SameLifts s₁) (h' : s₁.SameLifts s₂) :
    s.SameLifts s₂ where
  source x := (h'.source x).trans (h.source x)
  known x := (h'.known x).trans (h.known x)
  counts o ho := (h'.counts o ho).trans (h.counts o ho)

/-- What two states know of names after steps that add products, layers and sums. -/
lemma ImportState.Moved.sameLifts (h : s.Moved a outer gone pending s') (hs : s.SameLifts s₁)
    (hs' : s'.SameLifts s₁') (hr : s₁.registry.Moved a outer gone' pending' s₁'.registry) :
    s₁.Moved a outer gone' pending' s₁' where
  known x hx := by
    rw [hs.source, hs'.source, hs.known, hs'.known]
    exact h.known x hx
  empty x hx := by
    rw [hs.source, hs'.source]
    exact h.empty x hx
  source := (hs.source _).trans h.source
  source' := (hs'.source _).trans h.source'
  unknown := (hs.known _).trans h.unknown
  literal := by
    rw [hs'.known]
    exact h.literal
  registry := hr
  counts o ho := by rw [hs.counts o ho, hs'.counts o ho, h.counts o ho]

namespace Step

/-- Nothing is done to a product, a layer or a sum before it is typed, but that its operands are led past
identities. -/
lemma Body.reshaped_of_plain (body : Body s p) (hop : p.fused.operator.isPlain = true) :
    p.reshaped = { p.fused with name := p.reshaped.name, inputs := p.fused.inputs.map s.lead } ∧
      p.lifting.elisions = s.elisions ∧ p.lifting.constants = s.constants := by
  obtain ⟨htransparent, hlifts, -, hunsqueeze, -⟩ := Operator.kept_of_isPlain hop
  obtain ⟨hlifted, helisions, hconstants⟩ :=
    passed_of_not_transparent (n := (s.nameNode p.fused).2) htransparent body.elides body.lifts
  refine ⟨?_, helisions, hconstants⟩
  have hreshaped : p.reshaped = p.lifted := by
    cases body.reshapes with
    | same node => exact node
    | reshape operator => exact absurd (body.operator_lifted.symm.trans operator) hunsqueeze
  have hpassed : (s.nameNode p.fused).1.passed (s.nameNode p.fused).2 = p.fused.inputs.map s.lead := by
    unfold ImportState.passed
    rw [show liftsConstants (s.nameNode p.fused).2.operator = false from hlifts]
    rfl
  rw [hpassed] at hlifted
  rw [hreshaped, hlifted]
  rfl

/-- A product, a layer or a sum changes nothing of what is known of names. -/
lemma sameLifts (hp : s.Placed pending) (step : Step s p s₁) (hop : p.fused.operator.isPlain = true) :
    s.SameLifts s₁ := by
  obtain ⟨-, helisions, hconstants⟩ := step.reshaped_of_plain hop
  refine ⟨fun x => ?_, fun x => ?_, fun o ho => ?_⟩
  · rw [step.state, sourceOf_push helisions]
  · rw [step.state, known?_push hp step.nodes_lifting hconstants]
  · rw [step.counts, Table.get?_insert_of_ne]
    rintro rfl
    simp [(Operator.kept_of_isPlain hop).2.2.1] at ho

lemma placed_of_plain (hp : s.Placed pending) (step : Step s p s₁)
    (hop : p.fused.operator.isPlain = true) (hsub : pending' ⊆ pending) : s₁.Placed pending' := by
  obtain ⟨-, helisions, hconstants⟩ := step.reshaped_of_plain hop
  constructor
  · intro x e he
    rw [step.state] at he
    exact (hp.elided (helisions ▸ he)).imp (mt (@hsub _)) (mt (@hsub _))
  · intro x i hi
    rw [step.state] at hi
    obtain ⟨hx, hlt⟩ := hp.constant (hconstants ▸ hi)
    refine ⟨mt (@hsub _) hx, ?_⟩
    rw [step.nodes, List.length_append]
    omega

lemma Body.operator_of_plain (body : Body s p) (hop : p.fused.operator.isPlain = true) :
    p.typed.operator = p.fused.operator := by
  rw [body.operator_typed, (body.reshaped_of_plain hop).1]

lemma Body.typed_of_plain {rule : Node → Except Error ValueType} (body : Body s p)
    (hop : p.fused.operator.isPlain = true) (hrule : Typing.rule? p.fused.operator = some rule) :
    ∃ t, rule p.reshaped = .ok t ∧
      p.typed.outputs = p.fused.outputs.modifyHead ({ · with type := t }) := by
  obtain ⟨hreshaped, -⟩ := body.reshaped_of_plain hop
  have hoperator : p.reshaped.operator = p.fused.operator := by rw [hreshaped]
  have houtputs : p.reshaped.outputs = p.fused.outputs := by rw [hreshaped]
  obtain ⟨t, ht, htyped⟩ := Node.infer_of_rule (hoperator ▸ hrule) body.infer
  exact ⟨t, ht, by rw [htyped, houtputs]⟩

lemma Body.inputs_of_plain (body : Body s p) (hop : p.fused.operator.isPlain = true) :
    List.Forall₂ (fun v w : Value => w.type = v.type) p.fused.inputs p.reshaped.inputs := by
  rw [(body.reshaped_of_plain hop).1, List.forall₂_map_right_iff]
  exact List.forall₂_same.mpr fun v _ => rfl

/-- Where the array is the matrix of a product, the layer of the one run is typed as the product of the
other. -/
lemma Body.typed_weights (ha : a.TypedAsLiteral) (body : Body s p) (body' : Body s' p')
    (hspecialised : p.specialised.Moved a outer p'.specialised)
    (hproduct : p.specialised.operator = .gemm ∨ p.specialised.operator = .matMul)
    (hweighed : p.specialised.WeighedBy a) (hmatrix : p.specialised.hasLiteralMatrix 1 = true)
    (hlinear : p.fused.operator = .linear) (hnode : p'.fused = p'.specialised)
    (hfits : p.specialised.FitsLayer) : ∃ t, Typing.linear p.reshaped = .ok t ∧
      p.typed.outputs = p.fused.outputs.modifyHead ({ · with type := t }) ∧
      p'.typed.outputs = p'.fused.outputs.modifyHead ({ · with type := t }) := by
  have hop : p.fused.operator.isPlain = true := by rw [hlinear]; rfl
  obtain ⟨rule, hrule, hop'⟩ : ∃ rule, Typing.rule? p'.fused.operator = some rule ∧
      p'.fused.operator.isPlain = true := by
    rw [hnode, hspecialised.operator]
    rcases hproduct with hproduct | hproduct <;> rw [hproduct] <;> exact ⟨_, rfl, rfl⟩
  obtain ⟨t, ht, houtputs⟩ := body.typed_of_plain hop (by rw [hlinear]; rfl)
  obtain ⟨t', ht', houtputs'⟩ := body'.typed_of_plain hop' hrule
  obtain ⟨hreshaped, -⟩ := body'.reshaped_of_plain hop'
  have hoperator : p'.reshaped.operator = p'.specialised.operator := by rw [hreshaped, hnode]
  have hattributes : p'.reshaped.attributes = p'.specialised.attributes := by rw [hreshaped, hnode]
  obtain rfl : t' = t := hspecialised.layer_type ha hproduct hweighed hmatrix body.fuse hlinear hfits
    (body.inputs_of_plain hop) ht (hnode ▸ body'.inputs_of_plain hop') hoperator hattributes
    (by rw [hoperator, ← hnode, hrule]) ht'
  exact ⟨t', ht, houtputs, houtputs'⟩

/-- Where the array is the bias of a layer, the layers of both runs are typed alike. -/
lemma Body.typed_bias (body : Body s p) (body' : Body s' p')
    (hspecialised : p.specialised.Moved a outer p'.specialised) (htaken : p.consumed = true)
    (hnode : p'.fused = { p'.specialised with operator := .linear }) :
    ∃ t, Typing.linear p.reshaped = .ok t ∧
      p.typed.outputs = p.fused.outputs.modifyHead ({ · with type := t }) ∧
      p'.typed.outputs = p'.fused.outputs.modifyHead ({ · with type := t }) := by
  cases body.fuses with
  | same _ kept | gemm _ _ _ _ _ kept | product _ _ kept => simp [htaken] at kept
  | @biased _ _ bias _ _ _ _ operands _ _ _ _ _ node =>
  have hop : p.fused.operator.isPlain = true := by rw [node]; rfl
  have hop' : p'.fused.operator.isPlain = true := by rw [hnode]; rfl
  obtain ⟨t, ht, houtputs⟩ := body.typed_of_plain hop (by rw [node]; rfl)
  obtain ⟨t', ht', houtputs'⟩ := body'.typed_of_plain hop' (by rw [hnode]; rfl)
  obtain ⟨u, w, hin⟩ := List.length_eq_two.mp operands
  obtain ⟨u', w', hin', hu, hw⟩ := forall₂_pair (hin ▸ hspecialised.inputs)
  have hinputs : p.reshaped.inputs = s.lead u :: s.lead w :: [s.lead bias] := by
    rw [(body.reshaped_of_plain hop).1, node, hin]
    rfl
  have hinputs' : p'.reshaped.inputs = s'.lead u' :: s'.lead w' :: [] := by
    rw [(body'.reshaped_of_plain hop').1, hnode, hin']
    rfl
  have hlayer : Typing.linear p'.reshaped = Typing.linear p.reshaped :=
    linear_of_cons_cons hinputs hinputs' hu.type hw.type
  obtain rfl := Except.ok.inj (ht'.symm.trans (hlayer.trans ht))
  exact ⟨t', ht, houtputs, houtputs'⟩

/-- Nodes of products, layers or sums with the same outputs are registered alike, if these are not
written again. -/
lemma registry_of_plain (h : s.registry.Moved a outer gone pending s'.registry)
    (hsub : pending' ⊆ pending) (step : Step s p s₁) (step' : Step s' p' s₁')
    (hop : p.fused.operator.isPlain = true) (hop' : p'.fused.operator.isPlain = true)
    (houtputs : p'.typed.outputs = p.typed.outputs)
    (hpending : ∀ v ∈ p.typed.outputs, v.name ≠ "" → v.name ∉ pending') :
    s₁.registry.Moved a outer gone pending' s₁'.registry := by
  have ht : isTransparent p.typed.operator = false := by
    rw [step.operator_of_plain hop]
    exact (Operator.kept_of_isPlain hop).1
  have ht' : isTransparent p'.typed.operator = false := by
    rw [step'.operator_of_plain hop']
    exact (Operator.kept_of_isPlain hop').1
  rw [← step.registry_lifting, ← step'.registry_lifting] at h
  rw [step.state, step'.state]
  refine h.closes hsub (ht'.trans ht.symm) ?_ (fun _ => .inr hpending)
    (fun htrue => by simp [ht] at htrue) step.record step'.record step.renameInputs
    step'.renameInputs step.renameOutputs step'.renameOutputs
  rw [houtputs]
  exact List.forall₂_same.mpr fun v _ => ⟨.refl v, rfl⟩

lemma not_pending_of_plain (hm : m.WellFormed) (hnodes : m.nodes = before ++ p.message :: rest)
    (next : p.next = rest.head?) (body : Body s p) (hop : p.fused.operator.isPlain = true) :
    ∀ v ∈ p.typed.outputs, v.name ≠ "" →
      v.name ∉ "" :: written (if p.consumed then rest.tail else rest) := by
  refine fun v => Step.not_pending hm hnodes next body ?_
  rw [body.operator_of_plain hop]
  exact (Operator.kept_of_isPlain hop).2.2.2.2

/-- Where the array is the matrix of a product and no sum is taken over, both runs add a node with the
same outputs. -/
theorem moved_layer (hm : m.WellFormed) (hnodes : m.nodes = before ++ p.message :: rest)
    (next : p.next = rest.head?) (h : s.Moved a outer gone ("" :: written (p.message :: rest)) s')
    (hp : s.Placed (written (p.message :: rest))) (hp' : s'.Placed (written (p.message :: rest)))
    (step : Step s p s₁) (step' : Step s' p' s₁') (hop : p.fused.operator.isPlain = true)
    (hop' : p'.fused.operator.isPlain = true) (houtputs : p'.typed.outputs = p.typed.outputs) :
    s₁.Moved a outer gone ("" :: written (if p.consumed then rest.tail else rest)) s₁' :=
  h.sameLifts (step.sameLifts hp hop) (step'.sameLifts hp' hop')
    (registry_of_plain h.registry (List.cons_subset_cons _ (written_rest_subset next)) step step' hop
      hop' houtputs (not_pending_of_plain hm hnodes next step.toBody hop))

/-- A sum is not fused, nor counted by spatial axes. -/
lemma Front.of_add (front : Front s q) (hop : q.message.knownOperator = .ok .add) :
    q.fused = q.converted ∧ q.consumed = false := by
  have hconverted : q.converted.operator = .add :=
    Except.ok.inj ((convert_ok front.convert).1.symm.trans hop)
  obtain ⟨hspecialises, hspecialised⟩ := specialise_ok front.specialise
  rw [hspecialises.eq_of_not_spatial (by rw [hconverted]; rfl)] at hspecialised
  have hoperator : q.specialised.operator = .add := by rw [hspecialised, hconverted]
  rcases front.fuses.eq_or_layer with ⟨hnode, hkept⟩ | ⟨hproduct, -⟩
  · exact ⟨hnode.trans hspecialised, hkept⟩
  · rcases hproduct with hproduct | hproduct <;> simp [hoperator] at hproduct

section Sum

variable {sum : NodeMessage} {add add' : Node} {type : ValueType} {y o z : String} {os : List String}

/-- After its values are recorded, a node changes nothing that matters, if they are not written again. -/
lemma alike_of_plain (step : Step s p s₁) (hs : s.registry.Sound)
    (hop : p.fused.operator.isPlain = true)
    (hpending : ∀ v ∈ p.typed.outputs, v.name ≠ "" → v.name ∉ pending) :
    Alike pending p.recorded s₁.registry := by
  have hrename := step.renameOutputs
  rw [step.operator_of_plain hop, (Operator.kept_of_isPlain hop).1, if_neg Bool.false_ne_true] at hrename
  rw [step.state]
  exact .of_named (step.grows_recorded hs).sound hpending step.renameInputs hrename

/-- What the message writes stands for nothing before it in the one run, if it is read there. -/
lemma bare_of_written (hm : m.WellFormed) (run : Run m ps (p.message :: rest) s)
    (h : s.registry.Moved a outer gone pending s'.registry) (step' : Step s' p' s₁')
    (hmsg : x ∈ p.message.outputs) (hx : x ∈ p'.written) (hread : s.registry.resolve x = .ok v) :
    s.registry.slots.get? x = none ∧ v.literal = none := by
  have hne := (mem_namesOf.mp hx).1
  have hwritten : x ∈ written m.nodes :=
    mem_written.mpr ⟨hne, p.message, by rw [← run.messages]; simp, hmsg⟩
  obtain ⟨hs, rfl⟩ | ⟨i, hs, -⟩ | ⟨i, hs, -⟩ := resolve_ok hne hread
  · refine ⟨hs, ?_⟩
    have hcontains := mt run.arrays.contains.mp (hm.written_initializers x hwritten)
    rw [Table.contains_eq_isSome_get?, Bool.not_eq_true, Option.isSome_eq_false_iff,
      Option.isNone_iff_eq_none] at hcontains
    rw [hcontains]
    rfl
  · exact absurd (run.mem_inputNames hs) (hm.written_inputs x hwritten)
  · obtain ⟨_, hs', like⟩ := h.of_some hs
    cases like
    exact absurd (.inr ⟨_, hs'⟩) (step'.open_of_written h.sound' hx).1

/-- A name that a step does not write is read after it as before. -/
lemma resolve_of_outside (step' : Step s' p' s₁') (hs' : s'.registry.Sound) (hx : x ∉ p'.written)
    (hne : x ≠ "") (hw : s₁'.registry.resolve x = .ok w) :
    ∃ v, s'.registry.resolve x = .ok v ∧ v.Same w ∧ w.name = v.name := by
  obtain ⟨hslots, hvalues⟩ := step'.outside hs' hx hne
  have hsame : ∀ {slot}, s'.registry.slots.get? x = some slot →
      (s'.registry.value slot).Same (s₁'.registry.value slot) := by
    intro slot hslot
    rcases hvalues slot hslot with e | e <;> rw [e] <;> exact ⟨rfl, rfl⟩
  unfold Registry.resolve
  rw [if_neg hne, ← hslots]
  obtain ⟨hs, rfl⟩ | ⟨i, hs, rfl⟩ | ⟨i, hs, rfl⟩ := resolve_ok hne hw
  · rw [hs, (step'.grows hs').initializers]
    exact ⟨_, rfl, .refl _, rfl⟩
  · have hvalue := hsame (hslots ▸ hs)
    rw [hs]
    exact ⟨_, rfl, ⟨hvalue.type, hvalue.literal⟩, rfl⟩
  · have hvalue := hsame (hslots ▸ hs)
    rw [hs]
    exact ⟨_, rfl, ⟨hvalue.type, hvalue.literal⟩, rfl⟩

/-- An operand of the sum in the other run has the type of its counterpart in the one, or that of the
product. -/
lemma operand_of_sum (h : r.Moved a outer gone pending r') (ha : a.name ≠ "")
    (hsource : s'.sourceOf a.name = a.name) (hne : o ≠ "") (hsourceOf : s'.sourceOf o = o)
    (hproduct : ∃ i, s'.registry.slots.get? o = some (.interior i) ∧
      (s'.registry.value (.interior i)).type = type)
    (hsame : x ≠ o → ∃ u, r'.resolve x = .ok u ∧ u.Same w ∧ w.name = u.name) (hgone : gone x = none)
    (hv : r.resolve x = .ok v) (hcovers : v.literal.isSome ∨ v.name = o)
    (hw : s'.registry.resolve x = .ok w) :
    (if v.name = o then { v with type } else v).type = (s'.lead w).type ∧
      (s'.lead w).present = true := by
  have hvx := h.name_resolve.1 x v hv
  by_cases hx : x = o
  · subst hx
    obtain ⟨i, hi, htype⟩ := hproduct
    obtain ⟨hs, -⟩ | ⟨j, hs, -⟩ | ⟨j, hs, rfl⟩ := resolve_ok hne hw
    · simp [hi] at hs
    · simp [hi] at hs
    obtain rfl : i = j := by simpa [hi] using hs
    refine ⟨?_, ?_⟩
    · rw [if_pos hvx]
      exact htype.symm
    · simp [ImportState.lead, Value.present, hsourceOf, hne]
  · obtain ⟨u, hu, huw, hwu⟩ := hsame hx
    have hwx : w.name = x := hwu.trans (h.name_resolve.2 x u hu)
    have hread := h.resolve ha hgone
    rw [hv, hu] at hread
    have hread : Value.Reads a outer v u := hread.2
    have hvo : v.name ≠ o := hvx ▸ hx
    refine ⟨?_, ?_⟩
    · rw [if_neg hvo]
      exact (huw.type.trans hread.type).symm
    · by_cases hva : v.name = a.name
      · have hxa : x = a.name := hvx.symm.trans hva
        simp [ImportState.lead, Value.present, hwx, hxa, hsource, ha]
      · have hliteral : w.literal.isSome = true := by
          rw [huw.literal, hread.literal hva]
          exact hcovers.resolve_right hvo
        simp [ImportState.lead, Value.present, hliteral]

/-- The sum of the other run has the type of the layer of the one, if its operands give it. -/
lemma type_of_sum (step'' : Step s' q s₁')
    (hop : q.message.knownOperator = .ok .add)
    (hoperands : List.Forall₂ (fun v w => v.type = (s'.lead w).type ∧ (s'.lead w).present = true) vs
      q.fused.inputs) (hgives : Typing.Gives vs type)
    (htype : .ofRank type.element type.rank type.dims? = type) :
    ∃ z, q.message.outputs = [z] ∧ q.typed.outputs = [{ bareValue z with type }] := by
  obtain ⟨hknown, -, -, houtputs, -⟩ := convert_ok step''.convert
  obtain ⟨hfused, -⟩ := step''.of_add hop
  have hoperator : q.fused.operator = .add := by
    rw [hfused]
    exact Except.ok.inj (hknown.symm.trans hop)
  have hplain : q.fused.operator.isPlain = true := by rw [hoperator]; rfl
  obtain ⟨hreshaped, -⟩ := step''.reshaped_of_plain hplain
  have hled : q.reshaped.inputs = q.fused.inputs.map s'.lead := by rw [hreshaped]
  have hpresent : ∀ v ∈ q.reshaped.inputs, v.present = true := by
    rw [hled]
    intro v hv
    obtain ⟨w, hw, rfl⟩ := List.mem_map.mp hv
    obtain ⟨v, -, -, hpresent⟩ := forall₂_exists_of_mem hoperands.flip hw
    exact hpresent
  have hgives' : Typing.Gives q.reshaped.inputs type := by
    refine hgives.congr ?_
    rw [hled, List.forall₂_map_right_iff]
    exact hoperands.imp fun _ _ hv => hv.1
  have hrule : Typing.rule? q.fused.operator = some Typing.entrywise := by rw [hoperator]; rfl
  obtain ⟨t', ht', htyped⟩ := step''.typed_of_plain hplain hrule
  have hadds : q.reshaped.operator = .add := by rw [hreshaped, hoperator]
  obtain rfl : t' = type := (entrywise_of_gives hadds hpresent hgives' ht').trans htype
  obtain ⟨z, hz⟩ : ∃ z, q.message.outputs = [z] := by
    have hout : q.reshaped.outputs = q.message.outputs.map bareValue := by
      rw [hreshaped, hfused, houtputs]
    unfold Typing.entrywise at ht'
    split at ht'
    · cases ht'
    next hone =>
    rw [hout, List.length_map, not_or, not_not] at hone
    exact List.length_eq_one_iff.mp hone.2
  refine ⟨z, hz, ?_⟩
  rw [htyped, hfused, houtputs, hz]
  rfl

/-- What a message writes is not written by the messages after it. -/
lemma not_written_after (hm : m.WellFormed) (run : Run m ps (p.message :: rest) s)
    (hx : x ∈ p.message.outputs) (hne : x ≠ "") : x ∉ written rest := by
  have hsplit : m.nodes = (ps.flatMap Passage.messages ++ [p.message]) ++ rest := by
    rw [List.append_assoc, ← run.messages]
    rfl
  refine hm.disjoint hsplit (mem_written.mpr ⟨hne, p.message, ?_, hx⟩)
  exact List.mem_append_right _ (List.mem_singleton_self _)

lemma head_not_mem_tail (hm : m.WellFormed) (run : Run m ps (p.message :: rest) s)
    (ho : p.message.outputs = o :: os) (hne : o ≠ "") : o ∉ os := by
  have hsplit : m.nodes = ps.flatMap Passage.messages ++ [p.message] ++ rest := by
    rw [List.append_assoc, ← run.messages]
    rfl
  have hnodup := hm.nodup hsplit
  simp only [written_cons, written_nil, List.append_nil, ho, named, List.filter_cons, hne, ne_eq,
    not_false_eq_true, decide_true, if_true, List.nodup_cons, List.mem_filter, and_true] at hnodup
  exact hnodup.1

lemma written_tail_subset : written rest.tail ⊆ written rest := fun x hx => by
  obtain ⟨hne, n, hn, hx⟩ := mem_written.mp hx
  exact mem_written.mpr ⟨hne, n, List.mem_of_mem_tail hn, hx⟩

lemma cons_written_tail_subset (raw : NodeMessage) :
    "" :: written rest.tail ⊆ "" :: written (raw :: rest) := by
  refine List.cons_subset_cons _ fun x hx => ?_
  rw [written_cons]
  exact List.mem_append_right _ (written_tail_subset hx)

lemma map_name_of_outputs (houtputs : vs = { bareValue o with type } :: os.map bareValue) :
    vs.map Value.name = o :: os := by
  rw [houtputs, List.map_cons, List.map_map]
  exact congrArg _ (List.map_id os)

/-- A sum that is taken over reads what the product writes first, and literals besides. -/
lemma reads_of_adds (h : s.registry.Moved a outer gone pending s'.registry) (front : Front s p)
    (hadd : s.registry.convert sum = .ok add) (hadds : p.specialised.AddsBias add w)
    (ho : p.message.outputs = o :: os) :
    (∃ v, s.registry.resolve o = .ok v) ∧ ∀ v ∈ add.inputs, v.literal.isSome ∨ v.name = o := by
  have houtputs : p.specialised.outputs = bareValue o :: os.map bareValue := by
    rw [front.outputs_specialised, ho]
    rfl
  have hhead : ∀ {u us}, p.specialised.outputs = u :: us → u.name = o := by
    intro u us hu
    rw [houtputs, List.cons.injEq] at hu
    rw [← hu.1]
    rfl
  constructor
  · obtain ⟨u, us, hu, hmem⟩ := hadds.output_mem
    obtain ⟨v, hv, hvo⟩ : ∃ v ∈ add.inputs, v.name = o := by simpa [hhead hu] using hmem
    obtain ⟨x, -, hx⟩ := forall₂_exists_of_mem (convert_ok hadd).2.2.1.flip hv
    obtain rfl : x = o := (h.name_resolve.1 x v hx).symm.trans hvo
    exact ⟨v, hx⟩
  · intro v hv
    refine (hadds.covers v hv).imp id ?_
    rintro ⟨u, us, hu, hname⟩
    rw [hname, hhead hu]

section Taken

variable (hm : m.WellFormed) (run : Run m ps (p.message :: rest) s)
  (h : s.Moved a outer gone ("" :: written (p.message :: rest)) s') (step' : Step s' p' s₁')
  (ho : p.message.outputs = o :: os) (hne : o ≠ "")
  (houtputs' : p'.typed.outputs = { bareValue o with type } :: os.map bareValue)

include hm run h step' ho hne houtputs'

/-- What the product writes first, which the sum reads, is new to the one run, and is written once. -/
lemma fresh_of_sum (htm : t ∈ m.initializers) (hname : a.name = t.name)
    (hread : s.registry.resolve o = .ok v) :
    o ≠ a.name ∧ gone o = none ∧ s.registry.slots.get? o = none ∧ o ∉ "" :: written rest.tail := by
  have hmem : o ∈ p.message.outputs := by simp [ho]
  have hlater : o ∈ written (p.message :: rest) := by
    rw [written_cons]
    exact List.mem_append_left _ (mem_named.mpr ⟨hmem, hne⟩)
  refine ⟨fun e => ?_, h.registry.fresh o (List.mem_cons_of_mem _ hlater), ?_, ?_⟩
  · refine hm.written_initializers o ?_ (e.trans hname ▸ List.mem_map_of_mem htm)
    rw [← run.messages, written_append]
    exact List.mem_append_right _ hlater
  · have hwritten : o ∈ p'.written :=
      mem_namesOf.mpr ⟨hne, _, houtputs' ▸ List.mem_cons_self, rfl⟩
    exact (bare_of_written hm run h.registry step' hmem hwritten hread).1
  · rw [List.mem_cons, not_or]
    exact ⟨hne, mt (@written_tail_subset _ _) (not_written_after hm run hmem hne)⟩

omit hne in
/-- The product of the other run changes nothing that matters after its values are recorded. -/
lemma alike_of_product (hop' : p'.fused.operator.isPlain = true) :
    Alike ("" :: written rest.tail) p'.recorded s₁'.registry := by
  refine alike_of_plain step' h.registry.sound' hop' fun v hv hne => ?_
  have hmem : v.name ∈ p.message.outputs := by
    rw [ho, ← map_name_of_outputs houtputs']
    exact List.mem_map_of_mem hv
  rw [List.mem_cons, not_or]
  exact ⟨hne, mt (@written_tail_subset _ _) (not_written_after hm run hmem hne)⟩

/-- What the product of the other run writes first has its type there. -/
lemma type_of_product (htm : t ∈ m.initializers) (hname : a.name = t.name)
    (hop' : p'.fused.operator.isPlain = true) (hread : s.registry.resolve o = .ok v) :
    ∃ i, s₁'.registry.slots.get? o = some (.interior i) ∧
      (s₁'.registry.value (.interior i)).type = type := by
  obtain ⟨hoa, hgone, hs, hwp⟩ := fresh_of_sum hm run h step' ho hne houtputs' htm hname hread
  have hrecord := step'.record
  rw [step'.registry_lifting, houtputs'] at hrecord
  refine (h.registry.mono (cons_written_tail_subset _)).type_of_lost (w := { bareValue o with type })
    hne hoa hgone hs hwp hrecord (alike_of_product hm run h step' ho houtputs' hop') ?_
  intro u hu e
  obtain ⟨x, hx, rfl⟩ := List.mem_map.mp hu
  obtain rfl : o = x := e
  exact head_not_mem_tail hm run ho hne hx

/-- The operands of the sum in the other run have the types of those that the one takes over. -/
lemma operands_of_sum (ha : a.name ≠ "") (hplaced : s₁'.Placed (written (p.message :: rest)))
    (hsource : s₁'.sourceOf a.name = a.name) (hproduct : ∃ i,
      s₁'.registry.slots.get? o = some (.interior i) ∧
        (s₁'.registry.value (.interior i)).type = type)
    (hadd : s.registry.convert sum = .ok add)
    (hcovers : ∀ v ∈ add.inputs, v.literal.isSome ∨ v.name = o)
    (hadd' : s₁'.registry.convert sum = .ok add') (hreads : ∀ x ∈ sum.inputs, gone x = none) :
    List.Forall₂ (fun v w => v.type = (s₁'.lead w).type ∧ (s₁'.lead w).present = true)
      (add.inputs.map fun v => if v.name = o then { v with type } else v) add'.inputs := by
  have hsourceOf : s₁'.sourceOf o = o := by
    refine (sourceOf_eq_iff hplaced ?_).mpr rfl
    rw [written_cons, ho]
    exact List.mem_append_left _ (mem_named.mpr ⟨List.mem_cons_self, hne⟩)
  -- what the product writes beside `o` is no literal, so the sum does not read it
  have houtside : ∀ {x v}, s.registry.resolve x = .ok v → (v.literal.isSome ∨ v.name = o) →
      x ≠ o → x ≠ "" ∧ x ∉ p'.written := by
    intro x v hv hcovers hx
    have hliteral : v.literal.isSome = true :=
      hcovers.resolve_right (h.registry.name_resolve.1 x v hv ▸ hx)
    constructor
    · rintro rfl
      rw [resolve_empty] at hv
      simp [← Except.ok.inj hv] at hliteral
    · intro hx'
      obtain ⟨-, u, hu, rfl⟩ := mem_namesOf.mp hx'
      have hmem : u.name ∈ p.message.outputs := by
        rw [ho, ← map_name_of_outputs houtputs']
        exact List.mem_map_of_mem hu
      simp [(bare_of_written hm run h.registry step' hmem hx' hv).2] at hliteral
  rw [List.forall₂_map_left_iff]
  have hread := (List.forall₂_and_left _ _).mpr ⟨hreads, (convert_ok hadd).2.2.1⟩
  have hread' := (List.forall₂_and_left _ _).mpr ⟨hcovers, hread.flip⟩
  refine forall₂_trans (fun v x w hv hw => ?_) hread' (convert_ok hadd').2.2.1
  refine operand_of_sum h.registry ha hsource hne hsourceOf hproduct (fun hx => ?_) hv.2.1 hv.2.2 hv.1 hw
  obtain ⟨hxe, hxw⟩ := houtside hv.2.2 hv.1 hx
  exact resolve_of_outside step' h.registry.sound' hxw hxe hw

/-- The layer of the one run and the product and the sum of the other register the same values, but for
what the product writes first. -/
lemma registry_of_sum (htm : t ∈ m.initializers) (hname : a.name = t.name)
    (hop' : p'.fused.operator.isPlain = true) (hread : s.registry.resolve o = .ok v)
    (step : Step s p s₁) (hop : p.fused.operator.isPlain = true) (htaken : p.consumed = true)
    (step'' : Step s₁' q s₂') (hop'' : q.fused.operator.isPlain = true) (next : p.next = rest.head?)
    (hq : p.next = some q.message) (hz : q.message.outputs = [z])
    (houtputs : p.typed.outputs = { bareValue z with type } :: os.map bareValue)
    (houtputs'' : q.typed.outputs = [{ bareValue z with type }]) :
    s₁.registry.Moved a outer (Function.update gone o (some type)) ("" :: written rest.tail)
      s₂'.registry := by
  obtain ⟨hoa, hgone, hs, hwp⟩ := fresh_of_sum hm run h step' ho hne houtputs' htm hname hread
  have hpending := not_pending_of_plain hm run.messages.symm next step.toBody hop
  rw [htaken, if_pos rfl] at hpending
  have hpending'' : ∀ v ∈ q.typed.outputs, v.name ≠ "" → v.name ∉ "" :: written rest.tail := by
    intro v hv
    rw [houtputs'', List.mem_singleton] at hv
    exact hpending v (by simp [houtputs, hv])
  have hnew : z ≠ "" → ∀ u ∈ os.map bareValue, z ≠ u.name := by
    intro hze u hu e
    obtain ⟨x, hx, rfl⟩ := List.mem_map.mp hu
    obtain rfl : z = x := e
    refine not_written_after hm run (ho ▸ List.mem_cons_of_mem _ hx) hze ?_
    refine mem_written.mpr ⟨hze, q.message, ?_, by simp [hz]⟩
    rw [hq] at next
    exact List.mem_of_head? next.symm
  have hrecord := step.record
  have hrecord' := step'.record
  have hrecord'' := step''.record
  rw [step.registry_lifting, houtputs] at hrecord
  rw [step'.registry_lifting, houtputs'] at hrecord'
  rw [step''.registry_lifting, houtputs''] at hrecord''
  exact (h.registry.mono (cons_written_tail_subset _)).closesSum (w := { bareValue o with type }) hne hoa
    hgone hs hwp hrecord' (alike_of_product hm run h step' ho houtputs' hop') hnew hrecord
    (alike_of_plain step h.registry.sound hop hpending) hrecord''
    (alike_of_plain step'' (step'.grows h.registry.sound').sound hop'' hpending'')

/-- Where a layer takes over a sum in the one run only, the other adds the product and the sum. -/
theorem moved_sum (htm : t ∈ m.initializers) (hname : a.name = t.name) (ha : a.name ≠ "")
    (hp : s.Placed (written (p.message :: rest))) (hp' : s'.Placed (written (p.message :: rest)))
    (hop' : p'.fused.operator.isPlain = true) (step : Step s p s₁) (step'' : Step s₁' q s₂')
    (next : p.next = rest.head?) (hq : p.next = some q.message)
    (hreads : ∀ x ∈ q.message.inputs, gone x = none) (htaken : p.consumed = true)
    (hgives : ∀ add, s.registry.convert q.message = .ok add →
      Typing.Gives (add.inputs.map fun v => if v.name = o then { v with type } else v) type)
    (hlayer : Typing.linear p.reshaped = .ok type)
    (houtputs : p.typed.outputs = p.fused.outputs.modifyHead ({ · with type })) :
    q.consumed = false ∧ q.fused.operator.isPlain = true ∧
      s₁.Moved a outer (Function.update gone o (some type)) ("" :: written rest.tail) s₂' := by
  obtain ⟨-, hlinear, sum, add, bias, hsum, hadd, hadds⟩ := step.taken htaken
  obtain rfl := Option.some.inj (hsum.symm.trans hq)
  have hop : p.fused.operator.isPlain = true := by rw [hlinear]; rfl
  obtain ⟨⟨v, hread⟩, hcovers⟩ := reads_of_adds h.registry step.toFront hadd hadds ho
  have hproduct := type_of_product hm run h step' ho hne houtputs' htm hname hop' hread
  have hlifts := step'.sameLifts hp' hop'
  have hplaced : s₁'.Placed (written (p.message :: rest)) := step'.placed_of_plain hp' hop' fun _ => id
  have hadding : q.message.knownOperator = .ok .add := hadds.operator ▸ (convert_ok hadd).1
  obtain ⟨hfused, hkept⟩ := step''.of_add hadding
  have hop'' : q.fused.operator.isPlain = true := by
    rw [hfused, Except.ok.inj ((convert_ok step''.convert).1.symm.trans hadding)]
    rfl
  have hoperands := operands_of_sum hm run h step' ho hne houtputs' ha hplaced
    ((hlifts.source _).trans h.source') hproduct hadd hcovers step''.convert hreads
  obtain ⟨z, hz, houtputs''⟩ := step''.type_of_sum hadding (hfused ▸ hoperands) (hgives add hadd)
    (ofRank_of_linear hlayer)
  have hlayered : p.typed.outputs = { bareValue z with type } :: os.map bareValue := by
    rw [houtputs, step.outputs_fused]
    simp [Passage.outputNames, htaken, hq, hz, ho]
  refine ⟨hkept, hop'', h.sameLifts (step.sameLifts hp hop)
    (hlifts.trans (step''.sameLifts hplaced hop'')) ?_⟩
  exact registry_of_sum hm run h step' ho hne houtputs' htm hname hop' hread step hop htaken step'' hop''
    next hq hz hlayered houtputs''

end Taken

end Sum

end Step

end TensorGraph
