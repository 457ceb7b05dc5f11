import TensorGraph.Proofs.Moving.Stages

/-!
# States with an array moved into a Constant

What two runs know between two nodes, of which the one knows an array and the other reads it from a
Constant (`ImportState.Moved`), and what the stages that leave identities out and lift literals make
of a node in them (`ImportState.Moved.lift`).
-/

namespace TensorGraph

open Onnx Registry ImportState

/-- The literal that stands under a name. -/
def ImportState.known? (s : ImportState) (x : String) : Option Value :=
  (s.constants.get? x).bind fun i => s.nodes[i]?.bind fun n => (literalOf n).toOption

/-- The names that the state leads past an identity, and those that stand for literals, are not
written any more. -/
structure ImportState.Placed (pending : List String) (s : ImportState) : Prop where
  elided : ∀ {x e}, s.elisions.get? x = some e → x ∉ pending ∧ e.source ∉ pending
  constant : ∀ {x i}, s.constants.get? x = some i → x ∉ pending ∧ i < s.nodes.length

/-- The name is that of an operand that the registries read alike. -/
def Readable (a : Value) (outer : String → Option Nat) (x : String) : Prop :=
  x ≠ a.name ∧ (x = "" ∨ outer x = none)

/-- The state `s'` has a literal under the name of the array `a`, and `s` has none. Otherwise the states
lift the same literals under the same names. -/
structure ImportState.LiftsAlike (a : Value) (outer : String → Option Nat) (s s' : ImportState) :
    Prop where
  known : ∀ x, Readable a outer x →
    Option.Rel Value.Same (s.known? (s.sourceOf x)) (s'.known? (s'.sourceOf x))
  empty : ∀ x, Readable a outer x → (s'.sourceOf x = "" ↔ s.sourceOf x = "")
  source : s.sourceOf a.name = a.name
  source' : s'.sourceOf a.name = a.name
  unknown : s.known? a.name = none
  literal : ∃ b, s'.known? a.name = some b ∧ a.Same b

/-- The operators of which one run may have more nodes than the other. -/
def Operator.recounted : Operator → Bool
  | .constant | .matMul | .gemm | .linear | .add => true
  | _ => false

/-- The state `s` knows the array `a`, and the state `s'` a Constant that has written it. Otherwise
they know the same, but for what `gone` tells. -/
structure ImportState.Moved (a : Value) (outer : String → Option Nat)
    (gone : String → Option ValueType) (pending : List String) (s s' : ImportState) : Prop
    extends ImportState.LiftsAlike a outer s s' where
  registry : s.registry.Moved a outer gone pending s'.registry
  counts : ∀ o : Operator, o.recounted = false → s'.counts.get? o = s.counts.get? o

/-- The nodes look alike to typing. Of an identity only the first operand matters. -/
structure Node.LooksLike (n n' : Node) : Prop where
  operator : n'.operator = n.operator
  name : n.operator.recounted = false → n'.name = n.name
  attributes : n'.attributes = n.attributes
  outputs : List.Forall₂ (fun v w => v.Same w ∧ w.name = v.name) n.outputs n'.outputs
  view : n.operator ≠ .identity → n.SameView n'
  head : n.operator = .identity →
    Option.Rel (fun v w : Value => w.type = v.type) n.inputs.head? n'.inputs.head?

variable {a : Value} {outer : String → Option Nat} {gone : String → Option ValueType}
  {pending : List String}
  {s s' s₁ s₁' s₂ s₂' : ImportState}
  {n n' n₁ n₁' n₂ n₂' : Node} {u v w y : Value} {x : String}

lemma Node.Moved.outputs_same (hn : n.Moved a outer n') :
    List.Forall₂ (fun v w => v.Same w ∧ w.name = v.name) n.outputs n'.outputs := by
  rw [hn.outputs]
  exact List.forall₂_same.mpr fun v _ => ⟨.refl v, rfl⟩

lemma constant_congr (h : n'.attributes = n.attributes) :
    n'.constant.toOption = n.constant.toOption := by
  unfold Node.constant
  simp only [Node.attribute?, h]
  split <;> rfl

/-- The literal that a node writes depends on its attributes and its first operand. -/
lemma literalOf_congr (h : n'.attributes = n.attributes)
    (hhead : Option.Rel Value.Same n.inputs.head? n'.inputs.head?) :
    Option.Rel Value.Same (literalOf n).toOption (literalOf n').toOption := by
  have hconstant : Option.Rel Value.Same n.constant.toOption n'.constant.toOption := by
    rw [constant_congr h]
    cases n.constant.toOption with
    | none => exact .none
    | some v => exact .some (.refl v)
  unfold literalOf
  cases hvs : n.inputs with
  | nil =>
    cases hws : n'.inputs with
    | nil => exact hconstant
    | cons w ws => simp [hvs, hws] at hhead
  | cons v vs =>
    cases hws : n'.inputs with
    | nil => simp [hvs, hws] at hhead
    | cons w ws =>
      have hvw : v.Same w := by
        rw [hvs, hws] at hhead
        cases hhead with
        | some h => exact h
      simp only [hvw.literal]
      split
      · exact .some hvw
      · exact hconstant

lemma literalOf_head {vs : List Value} (h : n.inputs = v :: vs) (hv : v.literal.isSome) :
    literalOf n = .ok v := by
  unfold literalOf
  simp [h, hv]

/-! ## Lifting -/

/-- An operand under the name that it is led to. -/
def ImportState.lead (s : ImportState) (v : Value) : Value := { v with name := s.sourceOf v.name }

/-- An operand with the literal that is known under its name, if any. -/
def ImportState.filled (s : ImportState) (v : Value) : Value := (s.known? v.name).elim v v.copyFrom

lemma lifts_filled (h : s.Lifts v w) : w = s.filled v := by
  cases h with
  | bare unknown value => simp [filled, known?, unknown, value]
  | literal known node literal value =>
    simp [filled, known?, known, node, literal, value, Except.toOption]

namespace ImportState.Moved

lemma readable (h : Value.Reads a outer v w) (hv : v.name ≠ a.name) : Readable a outer v.name :=
  ⟨hv, h.inner⟩

/-- The operands that a node reads look alike after they have been led past identities. -/
lemma lead (h : s.Moved a outer gone pending s') (ha : a.name ≠ "") (hvw : Value.Reads a outer v w) :
    (s.lead v).SameView (s'.lead w) where
  type := hvw.type.symm
  present := by
    simp only [ImportState.lead, Value.present, hvw.name]
    by_cases hv : v.name = a.name
    · simp [hv, h.source, h.source', ha]
    · rw [hvw.literal hv]
      have hempty := h.empty v.name (readable hvw hv)
      by_cases hs : s.sourceOf v.name = ""
      · simp [hs, hempty.mpr hs]
      · simp [hs, mt hempty.mp hs]

lemma lead_inputs (h : s.Moved a outer gone pending s') (ha : a.name ≠ "") (hn : n.Moved a outer n') :
    List.Forall₂ Value.SameView (n.inputs.map s.lead) (n'.inputs.map s'.lead) := by
  rw [List.forall₂_map_left_iff, List.forall₂_map_right_iff]
  exact hn.inputs.imp fun v w hvw => h.lead ha hvw

/-- Operands with the literals that they stand for look alike, and have the same literals. -/
lemma filled (h : s.Moved a outer gone pending s') (ha : a.name ≠ "")
    (hvw : Value.Reads a outer v w) :
    (s.filled (s.lead v)).SameView (s'.filled (s'.lead w)) ∧
      (s.filled (s.lead v)).literal = (s'.filled (s'.lead w)).literal := by
  have hlead := h.lead ha hvw
  by_cases hv : v.name = a.name
  · obtain ⟨hsame, hbare⟩ := hvw.own hv
    obtain ⟨b, hb, hab⟩ := h.literal
    have hleft : s.filled (s.lead v) = s.lead v := by
      simp [ImportState.filled, ImportState.lead, hv, h.source, h.unknown]
    have hright : s'.filled (s'.lead w) = (s'.lead w).copyFrom b := by
      simp [ImportState.filled, ImportState.lead, hvw.name, hv, h.source', hb]
    rw [hleft, hright]
    refine ⟨⟨hsame.type.trans hab.type.symm, ?_⟩, hsame.literal.trans hab.literal.symm⟩
    simp [Value.present, Value.copyFrom, ImportState.lead, hvw.name, hv, h.source, h.source', ha]
  · have hknown := h.known v.name (readable hvw hv)
    have hname : (s'.lead w).name = s'.sourceOf v.name := by rw [ImportState.lead, hvw.name]
    simp only [ImportState.filled, hname]
    rw [show (s.lead v).name = s.sourceOf v.name from rfl]
    revert hknown
    generalize s.known? (s.sourceOf v.name) = b, s'.known? (s'.sourceOf v.name) = b'
    intro hknown
    cases hknown with
    | none => exact ⟨hlead, (hvw.literal hv).symm⟩
    | @some b b' hb =>
      refine ⟨⟨hb.type.symm, ?_⟩, hb.literal.symm⟩
      have hempty := h.empty v.name (readable hvw hv)
      simp only [Option.elim_some, Value.present, Value.copyFrom, ImportState.lead, hvw.name,
        hb.literal]
      by_cases hs : s.sourceOf v.name = ""
      · simp [hs, hempty.mpr hs]
      · simp [hs, mt hempty.mp hs]

end ImportState.Moved

/-- What leaving out identities and lifting literals do in both runs to what is known of the names,
for a node with the given outputs that becomes `n` in the one run and `n'` in the other. -/
inductive ImportState.Effect (a : Value) (outer : String → Option Nat) (s s' s₁ s₁' : ImportState)
    (outputs : List Value) (n n' : Node) : Prop
  | same (elisions : s₁.elisions = s.elisions) (elisions' : s₁'.elisions = s'.elisions)
      (constants : s₁.constants = s.constants) (constants' : s₁'.constants = s'.constants)
  | left {x y : Value} {ys : List Value} (operator : isTransparent n.operator = true)
      (outputs : outputs = y :: ys) (readable : Readable a outer x.name)
      (elisions : s₁.elisions = s.elisions.insert y.name ⟨s.place, s.sourceOf x.name⟩)
      (elisions' : s₁'.elisions = s'.elisions.insert y.name ⟨s'.place, s'.sourceOf x.name⟩)
      (constants : s₁.constants = s.constants) (constants' : s₁'.constants = s'.constants)
  | writes {y : Value} {ys : List Value} (operator : isTransparent n.operator = true)
      (outputs : outputs = y :: ys)
      (elisions : s₁.elisions = s.elisions) (elisions' : s₁'.elisions = s'.elisions)
      (constants : s₁.constants = s.constants.insert y.name s.place)
      (constants' : s₁'.constants = s'.constants.insert y.name s'.place)
      (literal : Option.Rel Value.Same (literalOf n).toOption (literalOf n').toOption)
  | moved {v y : Value} {vs ys : List Value} (operator : isTransparent n.operator = true)
      (outputs : outputs = y :: ys) (elisions : s₁.elisions = s.elisions)
      (elisions' : s₁'.elisions = s'.elisions.insert y.name ⟨s'.place, a.name⟩)
      (constants : s₁.constants = s.constants.insert y.name s.place)
      (constants' : s₁'.constants = s'.constants)
      (inputs : n.inputs = v :: vs) (literal : a.Same v)
  | outer {y : Value} {ys : List Value} (operator : isTransparent n.operator = true)
      (outputs : outputs = y :: ys) (outer : (outer y.name).isSome)
      (elisions : s₁.elisions = s.elisions) (elisions' : s₁'.elisions = s'.elisions)
      (constants : s₁.constants = s.constants.insert y.name s.place)
      (constants' : s₁'.constants = s'.constants)

/-- The operands of a node that is neither a Constant nor an identity, after both stages. -/
def ImportState.passed (s : ImportState) (n : Node) : List Value :=
  if liftsConstants n.operator then
    (n.inputs.map s.lead).take 1 ++ ((n.inputs.map s.lead).drop 1).map s.filled
  else n.inputs.map s.lead

lemma Elides.of_not_identity (h : s.Elides n s₁ n₁) (hop : n.operator ≠ .identity) :
    n₁ = { n with inputs := n.inputs.map s.lead } ∧ s = s₁ := by
  cases h with
  | out operator => exact absurd operator hop
  | past _ node state => exact ⟨node, state.symm⟩

lemma forall₂_lifts {vs ws : List Value} (h : List.Forall₂ s.Lifts vs ws) :
    ws = vs.map s.filled := by
  induction h with
  | nil => rfl
  | cons hvw _ ih => rw [List.map_cons, ← ih, lifts_filled hvw]

lemma not_writesLiteral (hop : isTransparent n.operator = false) : ¬ n.WritesLiteral := by
  rintro (hw | ⟨hw, -⟩) <;> simp [hw, isTransparent] at hop

lemma passed_of_not_transparent (hop : isTransparent n.operator = false) (elide : s.Elides n s₁ n₁)
    (lift : s₁.Lifting n₁ s₂ n₂) :
    n₂ = { n with inputs := s.passed n } ∧ s₂.elisions = s.elisions ∧
      s₂.constants = s.constants := by
  have hidentity : n.operator ≠ .identity := by
    intro e
    simp [e, isTransparent] at hop
  obtain ⟨rfl, rfl⟩ := Elides.of_not_identity elide hidentity
  unfold ImportState.passed
  cases lift with
  | writes writes => exact absurd writes (not_writesLiteral hop)
  | operands _ lifts operands node drops =>
    obtain rfl := forall₂_lifts operands
    have hlifts : liftsConstants n.operator = true := lifts
    rw [hlifts]
    exact ⟨node, by rw [drops.eq], by rw [drops.eq]⟩
  | same _ keeps node state =>
    have hkeeps : liftsConstants n.operator = false := keeps
    rw [hkeeps]
    exact ⟨node, by rw [state], by rw [state]⟩

/-- An operator into which no literals are lifted consults none but those that matter to it. -/
lemma Operator.consulted_subset {o : Operator} (h : liftsConstants o = false) :
    o.consulted ⊆ o.unlifted := by
  cases o <;> simp_all [liftsConstants, consulted, unlifted]

/-- Literals are lifted into all operands that are consulted. -/
lemma Operator.consulted_of_lifts {o : Operator} (h : liftsConstants o = true) {i : Nat}
    (hi : i ∈ o.consulted) : i = 1 := by
  cases o <;> simp_all [liftsConstants, consulted]

lemma bind_getElem?_congr {α : Type} {R : Value → Value → Prop} {vs ws : List Value}
    {f g : Value → Option α} {i : Nat} (h : List.Forall₂ R vs ws)
    (hfg : ∀ v w, vs[i]? = some v → R v w → f v = g w) : vs[i]?.bind f = ws[i]?.bind g := by
  cases hv : vs[i]? with
  | none =>
    have hlen := h.length_eq
    rw [List.getElem?_eq_none_iff, hlen, ← List.getElem?_eq_none_iff] at hv
    rw [hv]
    rfl
  | some v =>
    obtain ⟨w, hw, hvw⟩ := forall₂_getElem? h.flip hv
    rw [hw]
    exact hfg v w hv hvw

lemma getElem?_one_take_append (f : Value → Value) (vs : List Value) :
    (vs.take 1 ++ (vs.drop 1).map f)[1]? = (vs.map f)[1]? := by
  rcases vs with _ | ⟨v, _ | ⟨w, vs⟩⟩ <;> rfl

namespace ImportState.Moved

/-- A node whose operands pass both stages alike looks alike after them. -/
lemma passed (h : s.Moved a outer gone pending s') (ha : a.name ≠ "") (hn : n.Moved a outer n')
    (hapart : n.Apart a) :
    Node.SameView { n with inputs := s.passed n } { n' with inputs := s'.passed n' } := by
  have hlead := h.lead_inputs ha hn
  have hfilled : List.Forall₂ (fun v w => v.SameView w ∧ v.literal = w.literal)
      ((n.inputs.map s.lead).map s.filled) ((n'.inputs.map s'.lead).map s'.filled) := by
    rw [List.map_map, List.map_map, List.forall₂_map_left_iff, List.forall₂_map_right_iff]
    exact hn.inputs.imp fun v w hvw => h.filled ha hvw
  refine ⟨hn.operator.symm, hn.attributes.symm, ?_, ?_, fun i hi => ?_⟩
  · simp only [ImportState.passed, hn.operator]
    split
    · refine List.rel_append (List.forall₂_take 1 hlead) ?_
      rw [List.map_drop, List.map_drop]
      exact (List.forall₂_drop 1 hfilled).imp fun v w hvw => hvw.1
    · exact hlead
  · rw [hn.outputs]
    exact List.forall₂_same.mpr fun _ _ => rfl
  · simp only [Node.literal?, ImportState.passed, hn.operator]
    have hi : i ∈ n.operator.consulted := hi
    cases hlifts : liftsConstants n.operator with
    | true =>
      obtain rfl := Operator.consulted_of_lifts hlifts hi
      simp only [if_true, getElem?_one_take_append]
      exact bind_getElem?_congr hfilled fun v w _ hvw => hvw.2
    | false =>
      have hmem := Operator.consulted_subset hlifts hi
      simp only [Bool.false_eq_true, if_false, List.getElem?_map, Option.bind_map]
      exact bind_getElem?_congr hn.inputs fun v w hv hvw =>
        (hvw.literal (hapart i hmem v hv)).symm

lemma lift_of_not_transparent (h : s.Moved a outer gone pending s') (ha : a.name ≠ "")
    (hn : n.Moved a outer n') (hapart : n.Apart a)
    (hname : n.operator.recounted = false → n'.name = n.name)
    (hop : isTransparent n.operator = false) (elide : s.Elides n s₁ n₁)
    (elide' : s'.Elides n' s₁' n₁') (lift : s₁.Lifting n₁ s₂ n₂) (lift' : s₁'.Lifting n₁' s₂' n₂') :
    n₂.LooksLike n₂' ∧ Effect a outer s s' s₂ s₂' n.outputs n₂ n₂' := by
  obtain ⟨rfl, he, hc⟩ := passed_of_not_transparent hop elide lift
  obtain ⟨rfl, he', hc'⟩ := passed_of_not_transparent (hn.operator ▸ hop) elide' lift'
  refine ⟨⟨hn.operator, hname, hn.attributes, hn.outputs_same,
    fun _ => h.passed ha hn hapart, fun e => ?_⟩, .same he he' hc hc'⟩
  simp only at e
  simp [e, isTransparent] at hop

lemma lift_of_constant (h : s.Moved a outer gone pending s') (ha : a.name ≠ "")
    (hn : n.Moved a outer n') (hapart : n.Apart a) (hop : n.operator = .constant)
    (elide : s.Elides n s₁ n₁) (elide' : s'.Elides n' s₁' n₁') (lift : s₁.Lifting n₁ s₂ n₂)
    (lift' : s₁'.Lifting n₁' s₂' n₂') :
    n₂.LooksLike n₂' ∧ Effect a outer s s' s₂ s₂' n.outputs n₂ n₂' := by
  have hop' : n'.operator = .constant := hn.operator.trans hop
  obtain ⟨rfl, rfl⟩ := Elides.of_not_identity elide (by simp [hop])
  obtain ⟨rfl, rfl⟩ := Elides.of_not_identity elide' (by simp [hop'])
  have hhead : Option.Rel Value.Same (n.inputs.map s.lead).head? (n'.inputs.map s'.lead).head? := by
    have hinputs := hn.inputs
    cases hvs : n.inputs with
    | nil =>
      rw [hvs, List.forall₂_nil_left_iff] at hinputs
      rw [hinputs]
      exact .none
    | cons v vs =>
      rw [hvs] at hinputs
      obtain ⟨w, ws, hvw, -, hws⟩ := List.forall₂_cons_left_iff.mp hinputs
      rw [hws]
      have hne := hapart 0 (by simp [hop, Operator.unlifted]) v (by rw [hvs]; rfl)
      exact .some ⟨hvw.type, hvw.literal hne⟩
  cases lift with
  | operands reads => exact absurd (.inl hop) reads
  | same reads => exact absurd (.inl hop) reads
  | @writes y ys _ outputs node state =>
    cases lift' with
    | operands reads => exact absurd (.inl hop') reads
    | same reads => exact absurd (.inl hop') reads
    | @writes y' ys' _ outputs' node' state' =>
      have houtputs : n.outputs = y :: ys := outputs
      obtain ⟨rfl, rfl⟩ : y = y' ∧ ys = ys' := by
        have houtputs' : n'.outputs = y' :: ys' := outputs'
        simpa [hn.outputs, houtputs] using houtputs'
      subst node node'
      refine ⟨⟨hn.operator, fun hne => ?_, hn.attributes, hn.outputs_same, fun _ => ?_,
        fun e => ?_⟩, .writes (by simp [hop, isTransparent]) houtputs (by rw [state])
          (by rw [state']) (by rw [state]) (by rw [state']) (literalOf_congr hn.attributes hhead)⟩
      · simp [hop, Operator.recounted] at hne
      · refine ⟨hn.operator.symm, hn.attributes.symm, h.lead_inputs ha hn, ?_, fun i hi => ?_⟩
        · rw [hn.outputs]
          exact List.forall₂_same.mpr fun _ _ => rfl
        · simp [hop, Operator.consulted] at hi
      · simp [hop] at e

end ImportState.Moved

/-- What becomes of an identity in one run. -/
inductive IdentityOutcome (s : ImportState) (n : Node) (v y : Value) (s₁ : ImportState) (n₁ : Node) :
    Prop
  | literal (known : v.literal.isSome) (node : n₁ = { n with inputs := n.inputs.map s.lead })
      (elisions : s₁.elisions = s.elisions)
      (constants : s₁.constants = s.constants.insert y.name s.place)
  | outer (bare : v.literal = none) (outer : s.registry.isOutput y.name = true)
      (node : n₁ = { n with inputs := n.inputs.map s.lead })
      (elisions : s₁.elisions = s.elisions) (constants : s₁.constants = s.constants)
  | left (bare : v.literal = none) (inner : s.registry.isOutput y.name = false) (node : n₁ = n)
      (elisions : s₁.elisions = s.elisions.insert y.name ⟨s.place, s.sourceOf v.name⟩)
      (constants : s₁.constants = s.constants)

lemma identity_outcome (hop : n.operator = .identity) (elide : s.Elides n s₁ n₁)
    (lift : s₁.Lifting n₁ s₂ n₂) :
    ∃ v vs y ys, n.inputs = v :: vs ∧ n.outputs = y :: ys ∧ IdentityOutcome s n v y s₂ n₂ := by
  have hkeeps : liftsConstants n.operator = false := by rw [hop]; rfl
  cases elide with
  | @out v y vs ys _ inputs outputs bare inner node state =>
    have hreads : ¬ n₁.WritesLiteral := by
      rintro (hw | ⟨-, x, xs, hx, hlit⟩)
      · simp [node, hop] at hw
      · rw [node, inputs, List.cons.injEq] at hx
        simp [← hx.1, bare] at hlit
    refine ⟨v, vs, y, ys, inputs, outputs, ?_⟩
    cases lift with
    | writes writes => exact absurd writes hreads
    | operands _ lifts => simp [node, hkeeps] at lifts
    | same _ _ node' state' =>
      refine .left bare inner (node'.trans node) ?_ ?_ <;> rw [state', state] <;> rfl
  | past kept node state =>
    obtain ⟨v, vs, inputs, hkept⟩ := kept hop
    have hwrites : n₁.WritesLiteral ↔ v.literal.isSome := by
      constructor
      · rintro (hw | ⟨-, x, xs, hx, hlit⟩)
        · simp [node, hop] at hw
        · rw [node] at hx
          simp only [inputs, List.map_cons, List.cons.injEq] at hx
          rw [← hx.1] at hlit
          exact hlit
      · exact fun hlit => .inr ⟨by rw [node]; exact hop, s.lead v, vs.map s.lead,
          by rw [node, inputs]; rfl, hlit⟩
    cases lift with
    | operands _ lifts => simp [node, hkeeps] at lifts
    | @writes y ys writes outputs node' state' =>
      refine ⟨v, vs, y, ys, inputs, by rw [node] at outputs; exact outputs,
        .literal (hwrites.mp writes) (node'.trans node) ?_ ?_⟩ <;> rw [state', state]
    | same reads _ node' state' =>
      rcases hkept with hlit | ⟨y, ys, outputs, houter⟩
      · exact absurd (hwrites.mpr hlit) reads
      · refine ⟨v, vs, y, ys, inputs, outputs, .outer ?_ houter (node'.trans node) ?_ ?_⟩
        · exact Option.not_isSome_iff_eq_none.mp (mt hwrites.mpr reads)
        · rw [state', state]
        · rw [state', state]

lemma IdentityOutcome.node {vs : List Value} (h : IdentityOutcome s n v y s₁ n₁)
    (hin : n.inputs = v :: vs) : ∃ v' vs', n₁ = { n with inputs := v' :: vs' } ∧ v.Same v' := by
  have hmap : n.inputs.map s.lead = s.lead v :: vs.map s.lead := by rw [hin, List.map_cons]
  cases h with
  | literal _ node => exact ⟨s.lead v, vs.map s.lead, by rw [node, hmap], rfl, rfl⟩
  | outer _ _ node => exact ⟨s.lead v, vs.map s.lead, by rw [node, hmap], rfl, rfl⟩
  | left _ _ node => exact ⟨v, vs, by rw [node, ← hin], rfl, rfl⟩

namespace ImportState.Moved

section Identity

variable {v' w' : Value} {vs ws ys outputs : List Value} (h : s.Moved a outer gone pending s')
  (hvw : Value.Reads a outer v w) (ht : isTransparent n₁.operator = true) (hout : outputs = y :: ys)
  (hin : n₁.inputs = v' :: vs) (hv : v.Same v') (outcome : IdentityOutcome s n v y s₁ n₁)
  (outcome' : IdentityOutcome s' n' w y s₁' n₁')

include h hvw ht hout hin hv outcome outcome'

/-- An identity of the array is left out in the one run only, unless it writes a graph output. -/
lemma effect_of_own (hlit : a.literal.isSome) (hva : v.name = a.name) :
    Effect a outer s s' s₁ s₁' outputs n₁ n₁' := by
  obtain ⟨hsame, hnone⟩ := hvw.own hva
  cases outcome with
  | outer bare => simp [← hsame.literal, bare] at hlit
  | left bare => simp [← hsame.literal, bare] at hlit
  | literal _ _ elisions constants =>
    cases outcome' with
    | literal known => simp [hnone] at known
    | outer _ outer _ elisions' constants' =>
      exact .outer ht hout ((h.registry.isOutput y.name).2 ▸ outer) elisions elisions' constants
        constants'
    | left _ _ _ elisions' constants' =>
      rw [hvw.name, hva, h.source'] at elisions'
      exact .moved ht hout elisions elisions' constants constants' hin (hsame.trans hv)

/-- An identity of anything else has the same effect in both runs. -/
lemma effect_of_read (hin' : n₁'.inputs = w' :: ws) (hw : w.Same w') (hva : v.name ≠ a.name) :
    Effect a outer s s' s₁ s₁' outputs n₁ n₁' := by
  have hliteral := hvw.literal hva
  cases outcome with
  | literal known _ elisions constants =>
    cases outcome' with
    | outer bare => simp [← hliteral, bare] at known
    | left bare => simp [← hliteral, bare] at known
    | literal known' _ elisions' constants' =>
      refine .writes ht hout elisions elisions' constants constants' ?_
      rw [literalOf_head hin (hv.literal ▸ known), literalOf_head hin' (hw.literal ▸ known')]
      exact .some (hv.symm.trans (.trans ⟨hvw.type, hliteral⟩ hw))
  | outer bare outer _ elisions constants =>
    cases outcome' with
    | literal known => simp [hliteral, bare] at known
    | left _ inner => simp [(h.registry.isOutput _).2, ← (h.registry.isOutput _).1, outer] at inner
    | outer _ _ _ elisions' constants' => exact .same elisions elisions' constants constants'
  | left bare inner _ elisions constants =>
    cases outcome' with
    | literal known => simp [hliteral, bare] at known
    | outer _ outer => simp [(h.registry.isOutput _).2, ← (h.registry.isOutput _).1, inner] at outer
    | left _ _ _ elisions' constants' =>
      rw [hvw.name] at elisions'
      exact .left ht hout (readable hvw hva) elisions elisions' constants constants'

end Identity

lemma lift_of_identity (h : s.Moved a outer gone pending s') (hlit : a.literal.isSome)
    (hn : n.Moved a outer n') (hname : n'.name = n.name) (hop : n.operator = .identity)
    (elide : s.Elides n s₁ n₁) (elide' : s'.Elides n' s₁' n₁') (lift : s₁.Lifting n₁ s₂ n₂)
    (lift' : s₁'.Lifting n₁' s₂' n₂') :
    n₂.LooksLike n₂' ∧ Effect a outer s s' s₂ s₂' n.outputs n₂ n₂' := by
  have hop' : n'.operator = .identity := hn.operator.trans hop
  obtain ⟨v, vs, y, ys, hin, hout, outcome⟩ := identity_outcome hop elide lift
  obtain ⟨w, ws, y', ys', hin', hout', outcome'⟩ := identity_outcome hop' elide' lift'
  obtain ⟨rfl, rfl⟩ : y = y' ∧ ys = ys' := by simpa [hn.outputs, hout] using hout'
  have hvw : Value.Reads a outer v w := by
    have hinputs := hn.inputs
    rw [hin, hin'] at hinputs
    exact (List.forall₂_cons.mp hinputs).1
  obtain ⟨v', vs', hv₂, hv⟩ := outcome.node hin
  obtain ⟨w', ws', hw₂, hw⟩ := outcome'.node hin'
  constructor
  · subst hv₂ hw₂
    exact ⟨hn.operator, fun _ => hname, hn.attributes, hn.outputs_same, fun hne => absurd hop hne,
      fun _ => .some (by rw [hv.type, hw.type, hvw.type])⟩
  · have ht : isTransparent n₂.operator = true := by
      rw [hv₂]
      simp [hop, isTransparent]
    have hinputs : n₂.inputs = v' :: vs' := by rw [hv₂]
    have hinputs' : n₂'.inputs = w' :: ws' := by rw [hw₂]
    by_cases hva : v.name = a.name
    · exact h.effect_of_own hvw ht hout hinputs hv outcome outcome' hlit hva
    · exact h.effect_of_read hvw ht hout hinputs hv outcome outcome' hinputs' hw hva

/-- What the two stages make of a node in both runs, and of what is known of the names. -/
theorem lift (h : s.Moved a outer gone pending s') (ha : a.name ≠ "") (hlit : a.literal.isSome)
    (hn : n.Moved a outer n') (hapart : n.Apart a)
    (hname : n.operator.recounted = false → n'.name = n.name)
    (elide : s.Elides n s₁ n₁) (elide' : s'.Elides n' s₁' n₁') (lift : s₁.Lifting n₁ s₂ n₂)
    (lift' : s₁'.Lifting n₁' s₂' n₂') :
    n₂.LooksLike n₂' ∧ Effect a outer s s' s₂ s₂' n.outputs n₂ n₂' := by
  by_cases hop : n.operator = .constant
  · exact h.lift_of_constant ha hn hapart hop elide elide' lift lift'
  by_cases hop' : n.operator = .identity
  · exact h.lift_of_identity hlit hn (hname (by rw [hop']; rfl)) hop' elide elide' lift lift'
  have ht : isTransparent n.operator = false := by
    unfold isTransparent
    split <;> simp_all
  exact h.lift_of_not_transparent ha hn hapart hname ht elide elide' lift lift'

end ImportState.Moved

end TensorGraph
