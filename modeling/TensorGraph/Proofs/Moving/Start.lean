import TensorGraph.Proofs.Moving.Run

/-!
# The beginning of a run with an array moved into a Constant

The registries of a model and of the model with one of its arrays in a Constant differ in that array
alone (`ofModel_moveArray`). Once the Constant has been imported, both runs know the same
(`Step.moved_toConstant`).
-/

namespace TensorGraph

open Onnx ModelMessage Registry ImportState

variable {m : ModelMessage} {t : TensorMessage} {a v : Value} {r r' r₁ r₁' r₂ : Registry}
  {T T' U U' : Table String Value} {s' : ImportState} {p : Passage} {n : Node}
  {ins outs : List ValueMessage} {pending : List String} {x producer new : String}

/-- Without the arrays of one name, a table holds the same under the other names. -/
lemma foldlM_insert_filter {y : String} {as : List TensorMessage}
    (hagree : ∀ x, x ≠ y → U'.get? x = U.get? x)
    (h : as.foldlM (fun U a => return U.insert a.name (← a.toValue)) U = Except.ok (ε := Error) T)
    (h' : (as.filter (·.name ≠ y)).foldlM (fun U a => return U.insert a.name (← a.toValue)) U' =
      Except.ok (ε := Error) T') :
    ∀ x, x ≠ y → T'.get? x = T.get? x := by
  induction as generalizing U U' with
  | nil =>
    simp only [List.filter_nil, List.foldlM_nil, Except.pure_eq_ok] at h h'
    rwa [← h, ← h']
  | cons b as ih =>
    simp only [List.foldlM_cons, Except.bind_eq_ok, Except.pure_eq_ok] at h
    obtain ⟨_, ⟨v, hv, rfl⟩, h⟩ := h
    by_cases hb : b.name = y
    · rw [List.filter_cons_of_neg (by simp [hb])] at h'
      refine ih (fun x hx => ?_) h h'
      rw [Table.get?_insert_of_ne _ _ (hb ▸ hx), hagree x hx]
    · rw [List.filter_cons_of_pos (by simp [hb])] at h'
      simp only [List.foldlM_cons, Except.bind_eq_ok, Except.pure_eq_ok] at h'
      obtain ⟨_, ⟨v', hv', rfl⟩, h'⟩ := h'
      obtain rfl : v = v' := Except.ok.inj (hv.symm.trans hv')
      refine ih (fun x hx => ?_) h h'
      rw [Table.get?_insert, Table.get?_insert, hagree x hx]

/-- The registry with other arrays. -/
def Registry.withArrays (r : Registry) (T : Table String Value) : Registry :=
  { r with initializers := T }

lemma addInput_withArrays {d : ValueMessage} (hT : T.get? d.name = r.initializers.get? d.name) :
    (r.withArrays T).addInput d = (r.addInput d).map (withArrays · T) := by
  simp only [addInput, withArrays, hT]
  cases d.toValue <;> rfl

lemma addOutput_withArrays (d : ValueMessage) :
    (r.withArrays T).addOutput d = (r.addOutput d).map (withArrays · T) := by
  simp only [addOutput, withArrays]
  cases d.toValue <;> rfl

lemma foldlM_addInput_withArrays (hT : ∀ d ∈ ins, T.get? d.name = r.initializers.get? d.name) :
    ins.foldlM addInput (r.withArrays T) = (ins.foldlM addInput r).map (withArrays · T) := by
  induction ins generalizing r with
  | nil => rfl
  | cons d ins ih =>
    rw [List.foldlM_cons, List.foldlM_cons, addInput_withArrays (hT d (by simp))]
    cases h : r.addInput d with
    | error e => rfl
    | ok r₁ =>
      refine ih fun d' hd' => ?_
      rw [initializers_addInput h]
      exact hT d' (by simp [hd'])

lemma foldlM_addOutput_withArrays :
    outs.foldlM addOutput (r.withArrays T) = (outs.foldlM addOutput r).map (withArrays · T) := by
  induction outs generalizing r with
  | nil => rfl
  | cons d outs ih =>
    rw [List.foldlM_cons, List.foldlM_cons, addOutput_withArrays]
    cases h : r.addOutput d with
    | error e => rfl
    | ok r₁ => exact ih

/-- Before the first node the registries differ in the array alone. -/
theorem ofModel_moveArray (hin : t.name ∉ m.inputNames) (h : ofModel m = .ok r)
    (h' : ofModel (m.moveArray t) = .ok r') :
    ∃ T, r' = r.withArrays T ∧ ∀ x, x ≠ t.name → T.get? x = r.initializers.get? x := by
  have harrays := initializers_ofModel h
  simp only [ofModel, Except.bind_eq_ok] at h h'
  obtain ⟨U, hU, r₁, h₁, h₂⟩ := h
  obtain ⟨T, hT, r₁', h₁', h₂'⟩ := h'
  obtain rfl := Except.ok.inj (harrays.symm.trans hU)
  have hagree := foldlM_insert_filter (fun _ _ => rfl) hU hT
  have hins := foldlM_addInput_withArrays (r := { initializers := r.initializers }) (T := T)
    fun d (hd : d ∈ m.inputs) => hagree d.name fun e => hin (e ▸ List.mem_map_of_mem hd)
  rw [h₁] at hins
  obtain rfl : r₁.withArrays T = r₁' := Except.ok.inj (hins.symm.trans h₁')
  have houts : m.outputs.foldlM addOutput (r₁.withArrays T) =
      (m.outputs.foldlM addOutput r₁).map (withArrays · T) := foldlM_addOutput_withArrays
  rw [h₂] at houts
  exact ⟨T, Except.ok.inj (h₂'.symm.trans houts), hagree⟩

/-- An array of a well-formed model stands in the registry under its name. -/
lemma initializers_of_mem (hm : m.WellFormed) (h : ofModel m = .ok r) (htm : t ∈ m.initializers)
    (hne : t.name ≠ "") : ∃ a, t.toValue = .ok a ∧ r.initializers.get? t.name = some a := by
  have holds := initializersOf_holds (initializers_ofModel h)
  have hcontains := holds.contains.mpr (List.mem_map_of_mem htm)
  rw [Table.contains_eq_isSome_get?, Option.isSome_iff_exists] at hcontains
  obtain ⟨a, ha⟩ := hcontains
  obtain ⟨t', ht', hname, hvalue⟩ := holds.array ha
  have hnodup := hm.initializers_nodup
  rw [named, initializerNames, List.filter_map] at hnodup
  have hmem : ∀ {b : TensorMessage}, b ∈ m.initializers → b.name = t.name →
      b ∈ m.initializers.filter ((· ≠ "") ∘ TensorMessage.name) := by
    intro b hb hname
    simpa [hb, hname] using hne
  obtain rfl := List.inj_on_of_nodup_map hnodup (hmem ht' hname) (hmem htm rfl) hname
  exact ⟨a, hvalue, ha⟩

/-! ## The Constant -/

lemma constant_toConstant (ht : t.toValue = .ok a) {attributes : Attributes}
    (h : t.toConstant.toAttributes = .ok attributes) (hn : n.attributes = attributes) :
    n.constant = .ok { a with name := "" } := by
  simp only [TensorMessage.toValue, Except.bind_eq_ok] at ht
  obtain ⟨l, hl, ht⟩ := ht
  have hattributes : attributes = (∅ : Attributes).insert "value" (.array l) := by
    simpa [NodeMessage.toAttributes, TensorMessage.toConstant, AttributeMessage.value?, hl,
      Except.map, bind, Except.bind, pure, Except.pure] using h.symm
  have hattribute : n.attribute? "value" = some (.array l) := by
    rw [Node.attribute?, hn, hattributes, Table.get?_insert_self]
  simp only [Value.ofLiteral, Except.bind_eq_ok, Except.pure_eq_ok] at ht
  obtain ⟨type, htype, rfl⟩ := ht
  simp [Node.constant, StructureError.literalKeys, hattribute, Attribute.literalUnder, floatKeys,
    integerKeys, Attribute.toLiteral, Value.ofLiteral, htype, bind, Except.bind, pure, Except.pure]

/-- The Constant as it is read off its message. -/
lemma Step.Front.converted_toConstant {s : ImportState} (front : Front s p)
    (hmsg : p.message = t.toConstant) : p.converted.operator = .constant ∧ p.converted.inputs = [] ∧
      p.converted.outputs = [bareValue t.name] ∧
        t.toConstant.toAttributes = .ok p.converted.attributes := by
  obtain ⟨hoperator, -, hinputs, houtputs, hattributes⟩ := convert_ok front.convert
  rw [hmsg] at hoperator hinputs houtputs hattributes
  exact ⟨(Except.ok.inj hoperator).symm, List.forall₂_nil_left_iff.mp hinputs, houtputs, hattributes⟩

/-- The first stages leave a Constant without operands as it is, but for its name. -/
lemma Step.Front.lifted_of_constant {s : ImportState} (front : Front s p)
    (hop : p.converted.operator = .constant) (hinputs : p.converted.inputs = []) :
    p.fused = p.converted ∧
      p.lifted = { p.converted with name := (s.nameNode p.converted).2.name } := by
  obtain ⟨hspecialises, hspec⟩ := specialise_ok front.specialise
  rw [hspecialises.eq_of_not_spatial (by rw [hop]; rfl)] at hspec
  have hfused : p.fused = p.converted := by
    cases front.fuses with
    | same node => rw [node, hspec]
    | gemm operator => simp [hspec, hop] at operator
    | product operator => simp [hspec, hop] at operator
    | biased operator => simp [hspec, hop] at operator
  have helides := front.elides
  rw [hfused] at helides
  have hnamed : (s.nameNode p.converted).2.operator ≠ .identity := by
    show p.converted.operator ≠ .identity
    simp [hop]
  obtain ⟨hled, -⟩ := Elides.of_not_identity helides hnamed
  have hnil : (s.nameNode p.converted).2.inputs = [] := hinputs
  rw [hnil, List.map_nil] at hled
  refine ⟨hfused, ?_⟩
  have hledOp : p.led.operator = .constant := by
    rw [hled]
    exact hop
  have hlifted : p.lifted = p.led := by
    cases front.lifts with
    | writes _ _ node => exact node
    | operands reads => exact absurd (.inl hledOp) reads
    | same reads => exact absurd (.inl hledOp) reads
  rw [hlifted, hled, ← hinputs]
  rfl

/-- The Constant as it is before its names are settled. -/
lemma Step.Body.toConstant {s : ImportState} (ht : t.toValue = .ok a) (body : Body s p)
    (hmsg : p.message = t.toConstant) :
    p.fused.operator = .constant ∧ p.lifted.operator = .constant ∧ p.typed.operator = .constant ∧
      p.typed.inputs = [] ∧ p.typed.outputs = [{ name := t.name, type := a.type }] ∧
      p.typed.constant = .ok { a with name := "" } := by
  obtain ⟨hop, hinputs, houtputs, hattributes⟩ := body.converted_toConstant hmsg
  obtain ⟨hfused, hlifted⟩ := body.lifted_of_constant hop hinputs
  have hliftedOp : p.lifted.operator = .constant := by
    rw [hlifted]
    exact hop
  have hreshaped : p.reshaped = p.lifted := by
    cases body.reshapes with
    | same node => exact node
    | reshape operator => simp [hliftedOp] at operator
  rw [hlifted] at hreshaped
  have hvalue : p.reshaped.constant = .ok { a with name := "" } :=
    constant_toConstant ht hattributes (by rw [hreshaped])
  have htyped : p.reshaped.typedOutputs = .ok [{ name := t.name, type := a.type }] := by
    have hreshapedOp : p.reshaped.operator = .constant := by rw [hreshaped]; exact hop
    have hout : p.reshaped.outputs = [bareValue t.name] := by rw [hreshaped]; exact houtputs
    simp only [Node.typedOutputs, hreshapedOp, Typing.rule?, Typing.constant, hvalue, hout]
    rfl
  have hinfer := body.infer
  simp only [Node.infer, htyped, bind, Except.bind, pure, Except.pure, Except.ok.injEq] at hinfer
  refine ⟨hfused ▸ hop, hliftedOp, ?_, ?_, ?_, ?_⟩
  · rw [← hinfer, hreshaped]
    exact hop
  · rw [← hinfer, hreshaped]
    exact hinputs
  · rw [← hinfer]
  · rw [← hvalue, ← hinfer]
    rfl

/-- The place of the graph output that stands under a name. -/
def Registry.outputPlace? (r : Registry) (x : String) : Option Nat :=
  match r.slots.get? x with
  | some (.output i) => some i
  | _ => none

lemma outputPlace?_eq_some {i : Nat} :
    r.outputPlace? x = some i ↔ r.slots.get? x = some (.output i) := by
  unfold Registry.outputPlace?
  split <;> simp_all

lemma Slot.Like.rel_refl (slot : Option Slot) : Option.Rel Slot.Like slot slot := by
  cases slot with
  | none => exact .none
  | some slot => cases slot <;> exact .some (by constructor)

section Registered

variable (hr : r.Declares ins outs) (harrays : HoldsArrays m.initializers r.initializers)
  (harray : r.initializers.get? a.name = some a)
  (hT : ∀ x, x ≠ a.name → T.get? x = r.initializers.get? x)

include hr harrays harray hT

/-- The Constant writes a value of its own. -/
lemma Registry.Moved.start_interior {f : Value → Value} (hs : r.slots.get? a.name = none)
    (htype : ∀ u, (f u).type = u.type) (hliteral : ∀ u, (f u).literal = u.literal)
    (hv : v.type = a.type) (hbare : v.literal = none) :
    r.Moved a r.outputPlace? (fun _ => none) pending (((r.withArrays T).addInterior a.name v).modify f
      (.interior r.interior.length)) := by
  have hs₁ : ((r.withArrays T).addInterior a.name v).slots.get? a.name =
      some (.interior r.interior.length) := by
    rw [slots_addInterior, if_pos rfl]
    rfl
  have hsound₁ : ((r.withArrays T).addInterior a.name v).Sound :=
    sound_addInterior ⟨hr.sound.has, hr.sound.injective⟩
  have hlast : ((r.withArrays T).addInterior a.name v).value (.interior r.interior.length) = v :=
    value_addInterior_last
  exact {
    sound := hr.sound
    sound' := sound_modify _ hsound₁
    slots := fun x hx _ => by
      rw [slots_modify, slots_addInterior, if_neg hx]
      exact Slot.Like.rel_refl _
    lost := fun _ _ hgone => by cases hgone
    fresh := fun _ _ => rfl
    own := .inl ⟨hs, _, by rw [slots_modify]; exact hs₁⟩
    outer := fun _ _ => outputPlace?_eq_some.symm
    array := harray
    arrays := hT
    arrays_name := fun _ _ => harrays.name
    inputs := fun i => ⟨.refl _, rfl⟩
    outputs := fun i _ => ⟨.refl _, rfl⟩
    interior := fun x i _ _ hi => absurd hi (hr.not_interior i)
    bare := fun i hi => by
      rw [slots_modify, hs₁, Option.some.injEq] at hi
      rw [← hi, value_modify_self _ (hsound₁.has hs₁), hlast, htype, hliteral]
      exact ⟨hv, hbare⟩
    names := fun _ _ _ _ => rfl }

/-- The Constant writes a graph output. -/
lemma Registry.Moved.start_output {i : Nat} {f g : Value → Value} (hpending : a.name ∉ pending)
    (hs : r.slots.get? a.name = some (.output i)) : r.Moved a r.outputPlace? (fun _ => none) pending
      (((r.withArrays T).modify f (.output i)).modify g (.output i)) := by
  have hvalue : ∀ j, j ≠ i → (((r.withArrays T).modify f (.output i)).modify g
      (.output i)).value (.output j) = r.value (.output j) := by
    intro j hne
    have hslot : Slot.output j ≠ .output i := fun e => hne (by simpa using e)
    rw [value_modify_of_ne g hslot, value_modify_of_ne f hslot]
    rfl
  exact {
    sound := hr.sound
    sound' := sound_modify _ (sound_modify _ ⟨hr.sound.has, hr.sound.injective⟩)
    slots := fun x hx _ => Slot.Like.rel_refl _
    lost := fun _ _ hgone => by cases hgone
    fresh := fun _ _ => rfl
    own := .inr ⟨i, hs, hs⟩
    outer := fun _ _ => outputPlace?_eq_some.symm
    array := harray
    arrays := hT
    arrays_name := fun _ _ => harrays.name
    inputs := fun j => ⟨.refl _, rfl⟩
    outputs := fun j hne => by
      rw [hvalue j fun e => hne (e ▸ hs)]
      exact ⟨.refl _, rfl⟩
    interior := fun x i _ _ hi => absurd hi (hr.not_interior i)
    bare := fun j hj => by
      rw [slots_modify, slots_modify] at hj
      exact absurd hj (hr.not_interior j)
    names := fun x hx j hj => by
      rw [hvalue j]
      rintro rfl
      exact hpending (hr.sound.injective hj hs ▸ hx) }

/-- Once the Constant has been registered, the registries differ in the array alone. -/
theorem Registry.Moved.start (hin : ∀ i, r.slots.get? a.name ≠ some (.input i)) (ha : a.name ≠ "")
    (hpending : a.name ∉ pending) (hname : v.name = a.name) (htype : v.type = a.type)
    (hliteral : v.literal = none) (record : (r.withArrays T).recordOne producer v = .ok r₁)
    (rename : r₁.insertOrRename v new = .ok r₂) :
    r.Moved a r.outputPlace? (fun _ => none) pending r₂ := by
  obtain ⟨hs, -, rfl⟩ | ⟨i, hs, -⟩ | ⟨i, hs, rfl⟩ := recordOne_ok (hname ▸ ha) record
  · have hs₁ : ((r.withArrays T).addInterior v.name v).slots.get? v.name =
        some (.interior r.interior.length) := by
      rw [slots_addInterior, if_pos rfl]
      rfl
    have hlast : ((r.withArrays T).addInterior v.name v).value (.interior r.interior.length) = v :=
      value_addInterior_last
    obtain ⟨-, rfl⟩ := insertOrRename_ok hs₁ (fun i e => by rw [hlast]) rename
    rw [hname] at hs ⊢
    exact start_interior hr harrays harray hT hs (fun _ => rfl) (fun _ => rfl) htype hliteral
  · exact absurd (hname ▸ hs) (hin i)
  · have hs₁ : ((r.withArrays T).modify (fun w => { w.copyFrom v with used := true })
        (.output i)).slots.get? v.name = some (.output i) := by
      rw [slots_modify]
      exact hs
    obtain ⟨-, rfl⟩ := insertOrRename_ok hs₁ (by simp) rename
    exact start_output hr harrays harray hT hpending (hname ▸ hs)

end Registered

section Constant

variable (ht : t.toValue = .ok a) (step : Step { registry := r' } p s')
  (hmsg : p.message = t.toConstant)

include ht step hmsg

lemma Step.consumed_toConstant : p.consumed = false := by
  obtain ⟨hfused, -⟩ := step.toBody.toConstant ht hmsg
  rcases step.fuses.operator with ⟨-, hconsumed⟩ | hlinear
  · exact hconsumed
  · simp [hfused] at hlinear

lemma Step.elisions_toConstant : s'.elisions = ∅ := by
  obtain ⟨-, -, htyped, -⟩ := step.toBody.toConstant ht hmsg
  cases step.elision with
  | past _ _ elisions => exact elisions
  | out operator => simp [htyped] at operator

lemma Step.constants_toConstant : s'.constants = (∅ : Table String Nat).insert t.name 0 := by
  obtain ⟨-, hlifted, -⟩ := step.toBody.toConstant ht hmsg
  cases step.literals with
  | reads _ _ _ bare =>
    rw [step.lifts.node] at hlifted
    exact absurd (.inl hlifted) bare
  | writes _ outputs _ constants =>
    rw [Passage.outputNames, step.consumed_toConstant ht hmsg, hmsg] at outputs
    obtain ⟨rfl, -⟩ := List.cons.inj outputs
    exact constants

/-- The Constant is added without operands, and writes the array as a literal. -/
lemma Step.final_toConstant : p.final.inputs = [] ∧
    literalOf p.final = .ok { a with name := "" } := by
  obtain ⟨-, -, -, hinputs, -, hconstant⟩ := step.toBody.toConstant ht hmsg
  have hrename := step.renameInputs
  rw [hinputs] at hrename
  simp only [ImportState.renameInputs, Except.ok.injEq, Prod.mk.injEq] at hrename
  have hnil : p.final.inputs = [] := hrename.2.symm
  have hattributes : p.final.constant = p.typed.constant := by
    unfold Node.constant
    rfl
  refine ⟨hnil, ?_⟩
  simp only [literalOf, hnil, hattributes, hconstant]

/-- The Constant is registered under the name of the array, with the type that the array has. -/
lemma Step.registry_toConstant (hr : r.Declares m.inputs m.outputs)
    (harrays : HoldsArrays m.initializers r.initializers)
    (harray : r.initializers.get? a.name = some a) (hr' : r' = r.withArrays T)
    (hT : ∀ x, x ≠ a.name → T.get? x = r.initializers.get? x) (ha : a.name ≠ "")
    (hin : a.name ∉ m.inputNames) (hpending : a.name ∉ pending) :
    r.Moved a r.outputPlace? (fun _ => none) pending s'.registry := by
  obtain ⟨-, -, htyped, hinputs, houtputs, -⟩ := step.toBody.toConstant ht hmsg
  have hmarked := step.renameInputs
  rw [hinputs] at hmarked
  simp only [ImportState.renameInputs, Except.ok.injEq, Prod.mk.injEq] at hmarked
  have hrecord := step.record
  rw [step.registry_lifting, houtputs, hr'] at hrecord
  have hrename := step.renameOutputs
  simp only [htyped, isTransparent, if_true, renameLiteral, houtputs, ← hmarked.1,
    Except.bind_eq_ok, Except.pure_eq_ok, Prod.mk.injEq] at hrename
  obtain ⟨_, hrename, rfl, -⟩ := hrename
  have hrecord := recordOne_of_record hrecord
  rw [step.state]
  refine Registry.Moved.start hr harrays harray hT (fun i hi => ?_) ha hpending ?_ ?_ ?_ hrecord
    hrename
  · obtain ⟨d, -, hd, hname, -⟩ := hr.input hi
    exact hin (hname ▸ List.mem_map_of_mem (List.mem_of_getElem? hd))
  · exact (toValue_ok ht).1.symm
  · rfl
  · rfl

end Constant

/-- Once the Constant has been imported, both runs know the same. -/
theorem Step.moved_toConstant (hm : m.WellFormed) (htm : t ∈ m.initializers) (hne : t.name ≠ "")
    (hin : t.name ∉ m.inputNames) (ht : t.toValue = .ok a) (hr : ofModel m = .ok r)
    (hr' : ofModel (m.moveArray t) = .ok r') (step : Step { registry := r' } p s')
    (hmsg : p.message = t.toConstant) :
    p.consumed = false ∧
      ({ registry := r } : ImportState).Moved a r.outputPlace? (fun _ => none)
        ("" :: written m.nodes) s' ∧
      s'.Placed (written m.nodes) := by
  obtain ⟨hdeclares, harrays⟩ := ofModel_declares hr
  obtain ⟨T, hT', hT⟩ := ofModel_moveArray hin hr hr'
  obtain ⟨a', ha', harray⟩ := initializers_of_mem hm hr htm hne
  obtain rfl : a = a' := Except.ok.inj (ht.symm.trans ha')
  have hname : a.name = t.name := (toValue_ok ht).1
  have hwritten : t.name ∉ written m.nodes := fun hw =>
    hm.written_initializers _ hw (List.mem_map_of_mem htm)
  have helisions := step.elisions_toConstant ht hmsg
  have hconstants := step.constants_toConstant ht hmsg
  have hnodes : s'.nodes = [p.final] := step.nodes
  have hsource : ∀ x, s'.sourceOf x = x := fun x => by rw [sourceOf, helisions]; rfl
  refine ⟨step.consumed_toConstant ht hmsg, {
    known := fun x hx => ?_
    empty := fun x _ => by rw [hsource]; rfl
    source := rfl
    source' := hsource _
    unknown := rfl
    literal := ⟨{ a with name := "" }, ?_, rfl, rfl⟩
    registry := ?_
    counts := fun o ho => ?_ }, ⟨fun he => ?_, fun {x i} hi => ?_⟩⟩
  · have hx : x ≠ t.name := hname ▸ hx.1
    have hknown : s'.known? x = none := by
      rw [known?, hconstants, Table.get?_insert_of_ne _ _ hx]
      rfl
    rw [hsource, hknown]
    exact .none
  · simp only [known?, hname, hconstants, Table.get?_insert_self, hnodes, Option.bind_some,
      List.getElem?_cons_zero, (step.final_toConstant ht hmsg).2]
    rfl
  · refine step.registry_toConstant ht hmsg hdeclares harrays (hname ▸ harray) hT' (hname ▸ hT)
      (hname ▸ hne) (hname ▸ hin) ?_
    rw [List.mem_cons, not_or, hname]
    exact ⟨hne, hwritten⟩
  · obtain ⟨hfused, -⟩ := step.toBody.toConstant ht hmsg
    rw [step.counts, Table.get?_insert_of_ne]
    rintro rfl
    simp [hfused, Operator.recounted] at ho
  · simp [helisions] at he
  · rw [hconstants, Table.get?_insert] at hi
    split at hi
    · next hx =>
      rw [← Option.some.inj hi, hnodes]
      exact ⟨hx ▸ hwritten, Nat.one_pos⟩
    · simp at hi

end TensorGraph
