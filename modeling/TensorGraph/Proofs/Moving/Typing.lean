import TensorGraph.Proofs.Moving.State

/-!
# Types with an array moved into a Constant

A node that looks alike in two runs is typed alike, and what it writes is registered alike
(`Registry.Moved.closes`).
-/

namespace TensorGraph

open Onnx Registry ImportState

variable {a : Value} {outer : String → Option Nat} {gone : String → Option ValueType}
  {pending pending' : List String}
  {r r' r₁ r₁' r₂ r₂' r₃ r₃' : Registry} {n n' m m' : Node} {v w : Value} {vs ws us us' : List Value}
  {x producer producer' producer₁ : String}

namespace Node.LooksLike

lemma unsqueezesAtRun (h : n.LooksLike n') : n'.unsqueezesAtRun = n.unsqueezesAtRun := by
  by_cases hop : n.operator = .unsqueeze
  · have hview := h.view (by simp [hop])
    have hlit := hview.literals 1 (by simp [hop, Operator.consulted])
    have hlen := hview.inputs.length_eq
    unfold Node.unsqueezesAtRun
    unfold Node.literal? at hlit
    rw [h.operator, hop]
    rcases hvs : n.inputs with _ | ⟨v, _ | ⟨v', vs⟩⟩ <;>
      rcases hws : n'.inputs with _ | ⟨w, _ | ⟨w', ws⟩⟩ <;>
      simp_all
  · have hfalse : ∀ {n : Node}, n.operator ≠ .unsqueeze → n.unsqueezesAtRun = false := by
      intro n hop
      rw [← Bool.not_eq_true]
      exact fun hrun => hop (unsqueezesAtRun_eq_true hrun).1
    rw [hfalse hop, hfalse (h.operator ▸ hop)]

lemma output_zero (h : n.LooksLike n') :
    Agree (fun v w => (∃ vs, n.outputs = v :: vs) ∧ v.Same w ∧ w.name = v.name) (n.output 0)
      (n'.output 0) := by
  have houtputs := h.outputs
  unfold Node.output
  cases hvs : n.outputs with
  | nil =>
    rw [hvs, List.forall₂_nil_left_iff] at houtputs
    rw [houtputs]
    exact .error (.refl _)
  | cons v vs =>
    rw [hvs] at houtputs
    obtain ⟨w, ws, hvw, -, hws⟩ := List.forall₂_cons_left_iff.mp houtputs
    rw [hws]
    exact .ok ⟨⟨vs, rfl⟩, hvw⟩

lemma input_zero (h : n.LooksLike n') (hop : n.operator ≠ .identity) :
    Agree Value.SameView (n.input 0) (n'.input 0) :=
  Node.input_agree (h.view hop).inputs 0

lemma reshapeTo? (h : n.LooksLike n') (hop : n.operator = .unsqueeze) (hvw : v.Same w)
    (hname : w.name = v.name) :
    Agree (Option.Rel Node.LooksLike) (n.reshapeTo? v) (n'.reshapeTo? w) := by
  have hn : n'.name = n.name := h.name (by rw [hop]; rfl)
  have hview := h.view (by simp [hop])
  unfold Node.reshapeTo?
  refine h.output_zero.bind fun o o' _ _ ho => ?_
  rw [ho.2.1.type, hvw.type]
  split
  · refine (Agree.refl _).bind fun target _ _ _ htarget => ?_
    subst htarget
    refine (h.input_zero (by simp [hop])).bind fun x x' _ _ hx => .pure (.some ?_)
    have hshape : n'.shapeOperand target = n.shapeOperand target := by
      simp only [Node.shapeOperand, Node.shapeOperandName, hn]
    rw [hshape]
    refine ⟨rfl, fun _ => hn, h.attributes, ?_, fun _ => ?_, fun e => by simp at e⟩
    · exact .cons ⟨hvw, hname⟩ (List.forall₂_drop 1 h.outputs)
    · refine ⟨rfl, h.attributes.symm, ?_, ?_, fun i hi => ?_⟩
      · exact .cons hx (.cons ⟨rfl, rfl⟩ (List.forall₂_drop 2 hview.inputs))
      · refine .cons hvw.type.symm ?_
        exact (List.forall₂_drop 1 h.outputs).imp fun v w hvw => hvw.1.type.symm
      · obtain rfl : i = 1 := by simpa [Operator.consulted] using hi
        rfl
  · exact .pure .none

/-- An Unsqueeze becomes a Reshape alike, if its output is still to be written. -/
lemma unsqueezeAsReshape (h : n.LooksLike n') (hr : r.Moved a outer gone pending r')
    (hout : ∀ o os, n.outputs = o :: os → o.name ≠ a.name ∧ o.name ∈ pending) :
    Agree Node.LooksLike (n.unsqueezeAsReshape r) (n'.unsqueezeAsReshape r') := by
  unfold Node.unsqueezeAsReshape
  rw [h.unsqueezesAtRun]
  split
  · exact .pure h
  · next hrun =>
    have hop := (unsqueezesAtRun_eq_true (by simpa using hrun)).1
    refine h.output_zero.bind fun o o' _ _ ho => ?_
    obtain ⟨⟨os, hos⟩, -, hname⟩ := ho
    obtain ⟨hne, hpending⟩ := hout o os hos
    rw [hname]
    refine (hr.boundary? hne hpending).bind fun b b' _ _ hb => ?_
    cases hb with
    | none => exact .pure h
    | some hb =>
      refine (h.reshapeTo? hop hb.1 hb.2).bind fun m m' _ _ hm => .pure ?_
      cases hm with
      | none => exact h
      | some hm => exact hm

lemma typedOutputs (h : n.LooksLike n') :
    Agree (List.Forall₂ fun v w : Value => v.type = w.type) n.typedOutputs n'.typedOutputs := by
  by_cases hop : n.operator = .identity
  · have hhead := h.head hop
    have hkeep : ∀ {n : Node}, n.operator = .identity → n.typedOutputs = .ok (Typing.keepType n) := by
      intro n hop
      simp [Node.typedOutputs, Typing.rule?, hop]
    rw [hkeep hop, hkeep (h.operator.trans hop)]
    refine .ok ?_
    unfold Typing.keepType
    have htypes : List.Forall₂ (fun v w : Value => v.type = w.type) n.outputs n'.outputs :=
      h.outputs.imp fun v w hvw => hvw.1.type.symm
    cases hvs : n.inputs with
    | nil =>
      cases hws : n'.inputs with
      | nil => exact htypes
      | cons w ws => simp [hvs, hws] at hhead
    | cons v vs =>
      cases hws : n'.inputs with
      | nil => simp [hvs, hws] at hhead
      | cons w ws =>
        rw [hvs, hws] at hhead
        cases hhead with
        | some htype =>
          simp only [List.forall₂_map_left_iff, List.forall₂_map_right_iff]
          exact h.outputs.imp fun _ _ _ => htype.symm
  · exact Node.typedOutputs_agree (h.view hop)

lemma retyped (hvs : List.Forall₂ (fun v w => v.Same w ∧ w.name = v.name) vs ws)
    (hv : List.Forall₂ Value.Retyped vs us) (hw : List.Forall₂ Value.Retyped ws us')
    (htypes : List.Forall₂ (fun v w : Value => v.type = w.type) us us') :
    List.Forall₂ (fun v w => v.Same w ∧ w.name = v.name) us us' := by
  induction hvs generalizing us us' with
  | nil =>
    cases hv
    cases hw
    exact .nil
  | cons hvw _ ih =>
    cases hv with
    | cons hv hvs =>
      cases hw with
      | cons hw hws =>
        cases htypes with
        | cons htype htypes =>
          refine .cons ⟨⟨htype.symm, ?_⟩, ?_⟩ (ih hvs hws htypes)
          · obtain ⟨_, rfl⟩ := hv
            obtain ⟨_, rfl⟩ := hw
            exact hvw.1.literal
          · rw [hv.name, hw.name, hvw.2]

lemma infer (h : n.LooksLike n') (hm : n.infer = .ok m) (hm' : n'.infer = .ok m') :
    List.Forall₂ (fun v w => v.Same w ∧ w.name = v.name) m.outputs m'.outputs := by
  simp only [Node.infer, Except.bind_eq_ok, Except.pure_eq_ok] at hm hm'
  obtain ⟨us, hus, rfl⟩ := hm
  obtain ⟨us', hus', rfl⟩ := hm'
  have htypes := h.typedOutputs
  rw [hus, hus'] at htypes
  exact retyped h.outputs (typedOutputs_ok hus) (typedOutputs_ok hus') htypes

end Node.LooksLike

/-! ## The last stages -/

lemma recordOne_of_record {producer : String} (h : r.record producer [v] = (r₁, .ok ())) :
    r.recordOne producer v = .ok r₁ := by
  obtain ⟨r₂, h₂, h⟩ := record_cons_ok h
  obtain rfl : r₂ = r₁ := by simpa [Registry.record] using h
  exact h₂

/-- A value that has just been recorded is registered, if by a node then under its own name. -/
lemma registered_of_recordOne {producer : String} (hv : v.name ≠ "")
    (h : r.recordOne producer v = .ok r₁) (hm : Marked r₁ r₂) :
    ∃ slot, r₂.slots.get? v.name = some slot ∧
      ∀ i, slot = .interior i → (r₂.value slot).name = v.name := by
  rw [hm.slots]
  obtain ⟨-, -, rfl⟩ | ⟨i, hs, rfl⟩ | ⟨i, hs, rfl⟩ := recordOne_ok hv h
  · refine ⟨.interior r.interior.length, by rw [slots_addInterior, if_pos rfl], fun i _ => ?_⟩
    rw [hm.name_value, value_addInterior_last]
  · exact ⟨_, by rw [slots_modify, hs], by simp⟩
  · exact ⟨_, by rw [slots_modify, hs], by simp⟩

namespace Registry.Moved

/-- The outputs of a node get their final names. Where they are written for the last time, those may
differ. -/
lemma renameOutputs (h : r.Moved a outer gone pending r') {number : Nat}
    (hn : n'.name = n.name ∨ ∀ v ∈ vs, v.name ≠ "" → v.name ∉ pending)
    (hvs : List.Forall₂ (fun v w => v.Same w ∧ w.name = v.name) vs ws)
    (h₁ : ImportState.renameOutputs n r number vs = .ok (r₁, us))
    (h₁' : ImportState.renameOutputs n' r' number ws = .ok (r₁', us')) :
    r₁.Moved a outer gone pending r₁' := by
  induction hvs generalizing r r' number us us' with
  | nil =>
    obtain ⟨rfl, -⟩ := Prod.mk.inj (Except.ok.inj h₁)
    obtain ⟨rfl, -⟩ := Prod.mk.inj (Except.ok.inj h₁')
    exact h
  | @cons v w vs ws hvw _ ih =>
    have hrest := hn.imp_right fun hn v hv => hn v (List.mem_cons_of_mem _ hv)
    obtain ⟨_, ⟨hv, h₁, -⟩ | ⟨hv, _, h₂, h₁, -⟩⟩ := renameOutputs_cons_ok h₁
    · obtain ⟨_, ⟨-, h₁', -⟩ | ⟨hw, -⟩⟩ := renameOutputs_cons_ok h₁'
      · exact ih h hrest h₁ h₁'
      · exact absurd (hvw.2.trans hv) hw
    · obtain ⟨_, ⟨hw, -⟩ | ⟨-, _, h₂', h₁', -⟩⟩ := renameOutputs_cons_ok h₁'
      · exact absurd (hvw.2.symm.trans hw) hv
      · rw [hvw.2] at h₂'
        refine ih (h.rename (hn.imp (fun hn => ?_) fun hn => hn v List.mem_cons_self hv) h₂ h₂')
          hrest h₁ h₁'
        rw [ImportState.outputName, ImportState.outputName, hn]

/-- What a node writes is registered alike in both runs. A Constant or an identity writes one value,
which is not to be written again. -/
theorem closes (h : r.Moved a outer gone pending r') (hsub : pending' ⊆ pending)
    (hop : isTransparent n'.operator = isTransparent n.operator)
    (hvs : List.Forall₂ (fun v w => v.Same w ∧ w.name = v.name) n.outputs n'.outputs)
    (hname : isTransparent n.operator = false →
      n'.name = n.name ∨ ∀ v ∈ n.outputs, v.name ≠ "" → v.name ∉ pending')
    (hsingle : isTransparent n.operator = true →
      ∃ v, n.outputs = [v] ∧ v.name ≠ "" ∧ v.name ∉ pending')
    (record : r.record n.name n.outputs = (r₁, .ok ()))
    (record' : r'.record n'.name n'.outputs = (r₁', .ok ()))
    (inputs : renameInputs r₁ n.inputs = .ok (r₂, vs))
    (inputs' : renameInputs r₁' n'.inputs = .ok (r₂', ws))
    (outputs : (if isTransparent n.operator then renameLiteral n r₂
      else ImportState.renameOutputs n r₂ 1 n.outputs) = .ok (r₃, us))
    (outputs' : (if isTransparent n'.operator then renameLiteral n' r₂'
      else ImportState.renameOutputs n' r₂' 1 n'.outputs) = .ok (r₃', us')) :
    r₃.Moved a outer gone pending' r₃' := by
  have h₁ := h.record hvs record record'
  have hmarked := (renameInputs_ok h₁.sound inputs).1
  have hmarked' := (renameInputs_ok h₁.sound' inputs').1
  have h₂ := (h₁.marked hmarked hmarked').mono hsub
  rw [hop] at outputs'
  cases ht : isTransparent n.operator with
  | false =>
    simp only [ht, Bool.false_eq_true, if_false] at outputs outputs'
    exact h₂.renameOutputs (hname ht) hvs outputs outputs'
  | true =>
    obtain ⟨v, hv, hne, hpending⟩ := hsingle ht
    rw [hv] at hvs record
    obtain ⟨w, _, hvw, hnil, hw⟩ := List.forall₂_cons_left_iff.mp hvs
    obtain rfl := List.forall₂_nil_left_iff.mp hnil
    rw [hw] at record'
    simp only [ht, if_true] at outputs outputs'
    obtain ⟨_, _, hv', hrename, -⟩ := renameLiteral_eq_ok.mp outputs
    obtain ⟨_, _, hw', hrename', -⟩ := renameLiteral_eq_ok.mp outputs'
    obtain ⟨rfl, -⟩ := List.cons.inj (hv.symm.trans hv')
    obtain ⟨rfl, -⟩ := List.cons.inj (hw.symm.trans hw')
    obtain ⟨slot, hs, hslot⟩ := registered_of_recordOne hne (recordOne_of_record record) hmarked
    obtain ⟨slot', hs', hslot'⟩ :=
      registered_of_recordOne (hvw.2 ▸ hne) (recordOne_of_record record') hmarked'
    refine h₂.insertOrRename hvw.2 hpending hs hslot (fun i hi => ?_) hrename hrename'
    rw [hvw.2, hi, Option.some.injEq] at hs'
    rw [hs', hslot' i hs'.symm, hvw.2]

/-- Where the one run has recorded a value that the other will record, both may record others before. -/
lemma record_ahead (hsound : r'.Sound)
    (hahead : ∀ q, r'.recordOne producer' v = .ok q → r.Moved a outer gone pending q)
    (hv : v.name ≠ "" → ∀ w ∈ vs, v.name ≠ w.name) (h : r.record producer vs = (r₁, .ok ()))
    (h' : r'.record producer₁ vs = (r₁', .ok ())) :
    ∀ q, r₁'.recordOne producer' v = .ok q → r₁.Moved a outer gone pending q := by
  induction vs generalizing r r' with
  | nil =>
    obtain rfl : r = r₁ := by simpa [Registry.record] using h
    obtain rfl : r' = r₁' := by simpa [Registry.record] using h'
    exact hahead
  | cons w vs ih =>
    obtain ⟨r₂, h₂, h⟩ := record_cons_ok h
    obtain ⟨r₂', h₂', h'⟩ := record_cons_ok h'
    refine ih (recordOne_grows hsound h₂').sound (fun q hq => ?_)
      (fun hne w' hw' => hv hne w' (List.mem_cons_of_mem _ hw')) h h'
    obtain ⟨q₁, q₂, hq₁, hq₂, halike⟩ :=
      recordOne_swap hsound (fun hne => hv hne w List.mem_cons_self) h₂' hq
    have hmoved := (hahead q₁ hq₁).recordOne (.refl w) rfl h₂ hq₂
    exact hmoved.congr (.refl hmoved.sound) halike

section Lost

variable (h : r.Moved a outer gone pending r') (hw : w.name ≠ "") (hwa : w.name ≠ a.name)
  (hgone : gone w.name = none) (hs : r.slots.get? w.name = none) (hwp : w.name ∉ pending)
  (record' : r'.record producer' (w :: vs) = (r₁', .ok ())) (hr₁' : Alike pending r₁' r₂')

include h hw hwa hgone hs hwp record' hr₁'

/-- What only the other run writes has its type there. -/
lemma type_of_lost (hvs : ∀ u ∈ vs, w.name ≠ u.name) :
    ∃ i, r₂'.slots.get? w.name = some (.interior i) ∧ (r₂'.value (.interior i)).type = w.type := by
  obtain ⟨q', hq', record'⟩ := record_cons_ok record'
  have hlost := h.recordLost hwa hgone hs hwp hw hq'
  obtain ⟨-, i, hi, htype⟩ := hlost.lost w.name w.type (Function.update_self ..)
  have houtside := record_outside hlost.sound' record'
  have hnot : w.name ∉ namesOf vs := fun hmem => by
    obtain ⟨-, u, hu, hname⟩ := mem_namesOf.mp hmem
    exact hvs u hu hname.symm
  have hi₁ := (houtside.slots hnot).trans hi
  obtain ⟨j, hj⟩ := hr₁'.slots_interior.mpr ⟨i, hi₁⟩
  refine ⟨j, hj, ?_⟩
  rw [(hr₁'.interior _ i j hi₁ hj).type, houtside.value hnot hi, htype]

/-- Where the one run takes over a sum, which the other adds after the product, what the product writes
first is lost to the one. -/
theorem closesSum (hv : v.name ≠ "" → ∀ u ∈ vs, v.name ≠ u.name)
    (record : r.record producer (v :: vs) = (r₁, .ok ())) (hr₁ : Alike pending r₁ r₂)
    (sum : r₂'.record producer₁ [v] = (r₃, .ok ())) (hr₃ : Alike pending r₃ r₃') :
    r₂.Moved a outer (Function.update gone w.name (some w.type)) pending r₃' := by
  obtain ⟨q, hq, record⟩ := record_cons_ok record
  obtain ⟨q', hq', record'⟩ := record_cons_ok record'
  have hlost := h.recordLost hwa hgone hs hwp hw hq'
  obtain ⟨q₁, hq₁, halike⟩ :=
    hr₁'.recordOne (record_grows hlost.sound' record').sound (recordOne_of_record sum)
  have hmoved := record_ahead hlost.sound' (fun q₂ hq₂ => hlost.recordOne (.refl v) rfl hq hq₂) hv
    record record' q₁ hq₁
  exact hmoved.congr hr₁ (halike.trans hr₃)

end Lost

end Registry.Moved

end TensorGraph
