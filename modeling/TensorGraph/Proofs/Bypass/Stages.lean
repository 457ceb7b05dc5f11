import TensorGraph.Proofs.Bypass.Fusion
import TensorGraph.Proofs.TypingView

/-!
# Stages past an identity

Two runs in which a value is read under the output of an identity that has been left out, or under
its source, go side by side through the other stages of an import. Past the stage that leaves
identities out both read it under one name (`ImportState.Twin.elide`), unless the reader is left out
itself.
-/

namespace TensorGraph

open Onnx Registry

variable {y a : String} {r r' : Registry} {n n' : Node} {s t : ImportState} {v w : Value}
  {vs ws : List Value} {R : Value → Value → Prop} {i : Nat}

/-- The states give the same graph, and know the same literals and identities. Their nodes differ at
most where they are dropped. -/
structure ImportState.Twin (s t : ImportState) : Prop where
  registry : s.registry.Twin t.registry
  nodes : List.Forall₂ (fun n n' => literalOf n' = literalOf n) s.nodes t.nodes
  kept : ∀ i, i ∉ s.removed → t.nodes[i]? = s.nodes[i]?
  counts : t.counts = s.counts
  removed : t.removed = s.removed
  constants : t.constants = s.constants
  elisions : t.elisions = s.elisions

namespace ImportState.Twin

lemma refl (s : ImportState) : s.Twin s where
  registry := .refl s.registry
  nodes := List.forall₂_same.mpr fun _ _ => rfl
  kept _ _ := rfl
  counts := rfl
  removed := rfl
  constants := rfl
  elisions := rfl

lemma place (h : s.Twin t) : t.place = s.place := h.nodes.length_eq.symm

lemma sourceOf (h : s.Twin t) (x : String) : t.sourceOf x = s.sourceOf x := by
  simp only [ImportState.sourceOf, h.elisions]

lemma remove (h : s.Twin t) (place : Nat) : (s.remove place).Twin (t.remove place) :=
  { h with
    kept := fun i hi => h.kept i fun hr => hi (mem_removed_remove.mpr (.inr hr))
    removed := by simp only [ImportState.remove, h.removed] }

lemma nameNode (h : s.Twin t) (hn : n.Over R n') :
    (s.nameNode n).1.Twin (t.nameNode n').1 ∧ (s.nameNode n).2.Over R (t.nameNode n').2 := by
  simp only [ImportState.nameNode, hn.operator, h.counts]
  exact ⟨{ h with counts := rfl }, { hn with operator := rfl, name := rfl }⟩

/-- A node is kept or dropped alike. Adds a node of which that is so. -/
lemma push (h : s.Twin t) (hr : r.Twin r') (hlit : literalOf n' = literalOf n)
    (hn : s.place ∉ s.removed → n' = n) : (s.push r n).Twin (t.push r' n') :=
  { h with
    registry := hr
    nodes := List.rel_append h.nodes (.cons hlit .nil)
    kept := fun i hi => by
      simp only [ImportState.push, List.getElem?_append, h.nodes.length_eq]
      split
      · exact h.kept i hi
      by_cases hplace : i = s.place
      · rw [hn (hplace ▸ hi)]
      · have hpos : i - t.nodes.length ≠ 0 := by
          rw [← h.place] at hplace
          simp only [ImportState.place] at hplace
          omega
        simp only [List.getElem?_singleton, hpos, if_false] }

end ImportState.Twin

/-- The values differ at most in counting as used. -/
structure Value.SameButUse (v w : Value) : Prop where
  name : w.name = v.name
  type : w.type = v.type
  literal : w.literal = v.literal

/-- The node is an identity that is left out. -/
structure ImportState.LeavesOut (s : ImportState) (n : Node) : Prop where
  operator : n.operator = .identity
  operand : ∃ u us, n.inputs = u :: us ∧ u.literal = none
  dropped : s.place ∈ s.removed

/-- The node `n'` has the operands of `n`, or both are identities that are left out. -/
def ImportState.Carries (s : ImportState) (y a : String) (n n' : Node) : Prop :=
  n.Over Value.SameButUse n' ∨ s.LeavesOut n ∧ n.Over (Value.Redirected y a) n'

namespace ImportState.Twin

lemma isElided (h : s.Twin t) (hn : n.Over (Value.Redirected y a) n') :
    Agree (· = ·) (s.isElided n) (t.isElided n') := by
  unfold ImportState.isElided
  rw [hn.operator, hn.output, h.registry.eq]
  split
  · exact .pure rfl
  refine (hn.input 0).bind fun v w _ _ hvw => ?_
  rw [hvw.literal]
  split
  · exact .pure rfl
  · refine (Agree.refl (n.output 0)).bind fun z _ _ _ hz => .pure ?_
    rw [hz, isOutput_withMissed]

/-- Identities are left out alike. The operands of any other node are the same from then on. -/
theorem elide (h : s.Twin t) (hsource : s.sourceOf y = s.sourceOf a)
    (hn : n.Over (Value.Redirected y a) n') :
    Agree (fun b b' => b.1.Twin b'.1 ∧ b.1.Carries y a b.2 b'.2) (s.elide n) (t.elide n') := by
  have hlead : ∀ v w : Value, v.Redirected y a w → t.sourceOf w.name = s.sourceOf v.name := by
    intro v w hvw
    rw [h.sourceOf]
    rcases hvw.name with e | ⟨e, e', -⟩
    · rw [e]
    · rw [e, e', hsource]
  unfold ImportState.elide
  refine (h.isElided hn).bind fun b _ hb _ heq => heq ▸ ?_
  split
  · next htrue =>
    subst htrue
    rw [hn.output]
    refine (hn.input 0).bind fun v w _ _ hvw => ?_
    refine (Agree.refl (n.output 0)).bind fun z _ _ _ hz => .pure ?_
    subst hz
    have hop := isElided_true hb
    obtain ⟨u, us, hus, hcase⟩ := isElided_ok hb hop
    obtain ⟨-, hfalse⟩ | ⟨hbare, -⟩ := hcase
    · simp at hfalse
    have hinsert : ∀ e : Elision,
        ({ s with elisions := s.elisions.insert z.name e } : ImportState).Twin
          { t with elisions := t.elisions.insert z.name e } := fun e =>
      { h with elisions := by simp only [h.elisions] }
    rw [h.place, hlead v w hvw]
    exact ⟨(hinsert _).remove s.place, .inr ⟨⟨hop, ⟨u, us, hus, hbare⟩,
      mem_removed_remove.mpr (.inl rfl)⟩, hn⟩⟩
  · refine .pure ⟨h, .inl { hn with inputs := ?_ }⟩
    rw [List.forall₂_map_left_iff, List.forall₂_map_right_iff]
    exact hn.inputs.imp fun v w hvw => ⟨hlead v w hvw, hvw.type, hvw.literal⟩

end ImportState.Twin

namespace ImportState.LeavesOut

lemma of_over (h : s.LeavesOut n) (twin : s.Twin t) (hn : n.Over (Value.Redirected y a) n') :
    t.LeavesOut n' where
  operator := hn.operator.trans h.operator
  operand := by
    obtain ⟨u, us, hin, hbare⟩ := h.operand
    have hinputs := hn.inputs
    rw [hin] at hinputs
    obtain ⟨u', us', hu, -, hin'⟩ := List.forall₂_cons_left_iff.mp hinputs
    exact ⟨u', us', hin', hu.literal.trans hbare⟩
  dropped := by
    rw [twin.place, twin.removed]
    exact h.dropped

/-- It writes no literal and reads none. -/
lemma lift (h : s.LeavesOut n) : s.lift n = .ok (s, n) := by
  obtain ⟨u, us, hin, hbare⟩ := h.operand
  have hwrites : writesLiteral n = .ok false := by
    simp [writesLiteral, h.operator, Node.input, hin, hbare, pure, Except.pure, bind, Except.bind]
  simp [ImportState.lift, hwrites, liftsConstants, h.operator, pure, Except.pure, bind, Except.bind]

lemma unsqueezeAsReshape (h : s.LeavesOut n) : n.unsqueezeAsReshape r = .ok n := by
  simp [Node.unsqueezeAsReshape, Node.unsqueezesAtRun, h.operator, pure, Except.pure]

lemma infer (h : s.LeavesOut n) (hn : n.Over (Value.Redirected y a) n') :
    Agree (fun b b' => s.LeavesOut b ∧ b.Over (Value.Redirected y a) b') n.infer n'.infer := by
  have htyped : Typing.keepType n' = Typing.keepType n := by
    have hinputs := hn.inputs
    unfold Typing.keepType
    rw [hn.outputs]
    generalize n.inputs = vs, n'.inputs = ws at hinputs
    cases hinputs with
    | nil => rfl
    | cons hvw => simp only [hvw.type]
  simp only [Node.infer, Node.typedOutputs, hn.operator, h.operator, Typing.rule?, htyped]
  exact .pure ⟨{ h with operator := rfl }, { hn with operator := rfl, outputs := rfl }⟩

end ImportState.LeavesOut

/-! ## Literals -/

namespace ImportState.Twin

lemma liftOperand (h : s.Twin t) (hvw : v.SameButUse w) :
    Agree (fun b b' => b.1.Twin b'.1 ∧ b.2.SameButUse b'.2) (s.liftOperand v) (t.liftOperand w) := by
  unfold ImportState.liftOperand
  rw [hvw.name, h.constants]
  split
  · exact .ok ⟨h, hvw⟩
  next place _ =>
  have hnode : ∀ n, s.nodes[place]? = some n →
      ∃ n', t.nodes[place]? = some n' ∧ literalOf n' = literalOf n := fun n hn => by
    obtain ⟨n', hn', hlit⟩ := forall₂_getElem? h.nodes.flip hn
    exact ⟨n', hn', hlit⟩
  cases hn : s.nodes[place]? with
  | none =>
    have hnone : t.nodes[place]? = none := by
      rw [List.getElem?_eq_none_iff] at hn ⊢
      rwa [← h.nodes.length_eq]
    rw [hnone]
    exact .error (.refl _)
  | some n =>
    obtain ⟨n', hn', hlit⟩ := hnode n hn
    rw [hn']
    dsimp only
    rw [hlit]
    refine (Agree.refl (literalOf n)).bind fun u _ _ _ hu => .pure ⟨h.remove place, ?_⟩
    subst hu
    exact ⟨hvw.name, rfl, rfl⟩

lemma liftOperands (h : s.Twin t) (hvs : List.Forall₂ Value.SameButUse vs ws) :
    Agree (fun b b' => b.1.Twin b'.1 ∧ List.Forall₂ Value.SameButUse b.2 b'.2)
      (s.liftOperands vs) (t.liftOperands ws) := by
  induction hvs generalizing s t with
  | nil => exact .ok ⟨h, .nil⟩
  | cons hvw _ ih =>
    refine (h.liftOperand hvw).bind fun b b' _ _ hb => ?_
    exact (ih hb.1).bind fun c c' _ _ hc => .pure ⟨hc.1, .cons hb.2 hc.2⟩

lemma lift_sameButUse (h : s.Twin t) (hn : n.Over Value.SameButUse n') :
    Agree (fun b b' => b.1.Twin b'.1 ∧ b.2.Over Value.SameButUse b'.2) (s.lift n) (t.lift n') := by
  have hwrites : Agree (· = ·) (writesLiteral n) (writesLiteral n') := by
    unfold writesLiteral
    rw [hn.operator]
    split
    · exact .ok rfl
    · exact (hn.input 0).bind fun v w _ _ hvw => .pure (by rw [hvw.literal])
    · exact .ok rfl
  unfold ImportState.lift
  refine hwrites.bind fun b _ _ _ heq => heq ▸ ?_
  split
  · rw [hn.output, h.place]
    refine (Agree.refl (n.output 0)).bind fun z _ _ _ hz => .pure ⟨?_, hn⟩
    exact { h with constants := by simp only [h.constants, hz] }
  · rw [hn.operator]
    split
    · refine (h.liftOperands (List.forall₂_drop 1 hn.inputs)).bind fun b b' _ _ hb => .pure ⟨hb.1, ?_⟩
      exact { hn with operator := rfl, inputs := List.rel_append (List.forall₂_take 1 hn.inputs) hb.2 }
    · exact .pure ⟨h, hn⟩

/-- Literals are lifted alike. -/
theorem lift (h : s.Twin t) (hn : s.Carries y a n n') :
    Agree (fun b b' => b.1.Twin b'.1 ∧ b.1.Carries y a b.2 b'.2) (s.lift n) (t.lift n') := by
  rcases hn with hn | ⟨hleft, hn⟩
  · exact (h.lift_sameButUse hn).imp fun _ _ hb => ⟨hb.1, .inl hb.2⟩
  · rw [hleft.lift, (hleft.of_over h hn).lift]
    exact .ok ⟨h, .inr ⟨hleft, hn⟩⟩

end ImportState.Twin

namespace Node

lemma reshapeTo?_sameButUse (h : n.Over Value.SameButUse n') (b : Value) :
    Agree (Option.Rel (Over Value.SameButUse)) (n.reshapeTo? b) (n'.reshapeTo? b) := by
  have hshape : ∀ dims, n'.shapeOperand dims = n.shapeOperand dims := fun dims => by
    simp only [shapeOperand, shapeOperandName, h.name]
  unfold reshapeTo?
  rw [h.output]
  refine (Agree.refl (n.output 0)).bind fun o _ _ _ ho => ?_
  subst ho
  split
  · refine (Agree.refl _).bind fun target _ _ _ htarget => ?_
    refine (h.input 0).bind fun x x' _ _ hx => .pure (.some ?_)
    subst htarget
    refine ⟨rfl, h.name, .cons hx (.cons ?_ (List.forall₂_drop 2 h.inputs)), by simp only [h.outputs],
      h.attributes⟩
    rw [hshape]
    exact ⟨rfl, rfl, rfl⟩
  · exact .pure .none

lemma unsqueezesAtRun_sameButUse (h : n.Over Value.SameButUse n') :
    n'.unsqueezesAtRun = n.unsqueezesAtRun := by
  have hinputs := h.inputs
  unfold unsqueezesAtRun
  rw [h.operator]
  generalize n.inputs = vs, n'.inputs = ws at hinputs
  cases hinputs with
  | nil => simp
  | cons _ hrest =>
    cases hrest with
    | nil => simp
    | cons haxes => by_cases hop : n.operator = .unsqueeze <;> simp [hop, haxes.literal]

lemma unsqueezeAsReshape_sameButUse (hr : r.Twin r') (h : n.Over Value.SameButUse n') :
    Agree (Over Value.SameButUse) (n.unsqueezeAsReshape r) (n'.unsqueezeAsReshape r') := by
  unfold unsqueezeAsReshape
  rw [unsqueezesAtRun_sameButUse h, h.output, hr.eq]
  split
  · exact .pure h
  refine (Agree.refl (n.output 0)).bind fun o _ _ _ ho => ?_
  subst ho
  rw [boundary?_withMissed]
  refine (Agree.refl (r.boundary? o.name)).bind fun b _ _ _ hb => ?_
  subst hb
  cases b with
  | none => exact .pure h
  | some b =>
    refine (reshapeTo?_sameButUse h b).bind fun new new' _ _ hnew => .pure ?_
    cases hnew with
    | none => exact h
    | some hnew => exact hnew

lemma sameView_sameButUse (h : n.Over Value.SameButUse n') : n.SameView n' where
  operator := h.operator.symm
  attributes := h.attributes.symm
  inputs := h.inputs.imp fun v w hvw =>
    ⟨hvw.type.symm, by simp only [Value.present, hvw.name, hvw.literal]⟩
  outputs := by
    rw [h.outputs]
    exact List.forall₂_same.mpr fun _ _ => rfl
  literals place _ := literal?_congr (h.inputs.imp fun _ _ hvw => hvw.literal) place

lemma infer_sameButUse (h : n.Over Value.SameButUse n') :
    Agree (Over Value.SameButUse) n.infer n'.infer := by
  unfold infer
  refine (typedOutputs_agree (sameView_sameButUse h)).bind fun vs ws hvs hws htypes => .pure ?_
  have hretyped := typedOutputs_ok hws
  rw [h.outputs] at hretyped
  exact { h with outputs := eq_of_retyped (typedOutputs_ok hvs) hretyped htypes }

end Node

namespace ImportState.Carries

/-- Unsqueezes become Reshapes alike. -/
theorem unsqueezeAsReshape (hr : r.Twin r') (h : s.Carries y a n n') :
    Agree (s.Carries y a) (n.unsqueezeAsReshape r) (n'.unsqueezeAsReshape r') := by
  rcases h with h | ⟨hleft, hn⟩
  · exact (Node.unsqueezeAsReshape_sameButUse hr h).imp fun _ _ => .inl
  · rw [hleft.unsqueezeAsReshape, (hleft.of_over (.refl s) hn).unsqueezeAsReshape]
    exact .ok (.inr ⟨hleft, hn⟩)

/-- Nodes are typed alike. -/
theorem infer (h : s.Carries y a n n') : Agree (s.Carries y a) n.infer n'.infer := by
  rcases h with h | ⟨hleft, hn⟩
  · exact (Node.infer_sameButUse h).imp fun _ _ => .inl
  · exact (hleft.infer hn).imp fun _ _ => .inr

lemma redirected (h : s.Carries y a n n') : n.Over (Value.Redirected y a) n' := by
  rcases h with h | ⟨-, h⟩
  · exact { h with inputs := h.inputs.imp fun _ _ hvw => ⟨hvw.type, hvw.literal, .inl hvw.name⟩ }
  · exact h

end ImportState.Carries

lemma ImportState.literalOf_of_bare {u : Value} {us : List Value} (hin : n.inputs = u :: us)
    (hbare : u.literal = none) : literalOf n = n.constant := by
  simp [literalOf, hin, hbare]

/-- Once their values have been renamed, the nodes are the same, or they are dropped and write the same
literal. -/
lemma ImportState.Carries.final {f : Value → Value} (h : s.Carries y a n n')
    (hf : ∀ v w, v.SameButUse w → f w = f v) (hliteral : ∀ v, (f v).literal = v.literal)
    (us : List Value) :
    let m : Node := { n with inputs := n.inputs.map f, outputs := us }
    let m' : Node := { n' with inputs := n'.inputs.map f, outputs := us }
    literalOf m' = literalOf m ∧ (s.place ∉ s.removed → m' = m) := by
  intro m m'
  rcases h with h | ⟨hleft, h⟩
  · have hsame : m' = m := by
      simp only [m, m', h.operator, h.name, h.attributes, map_eq_map_of_forall₂ h.inputs hf]
    exact ⟨by rw [hsame], fun _ => hsame⟩
  · obtain ⟨u, us, hin, hbare⟩ := hleft.operand
    obtain ⟨u', us', hin', hbare'⟩ := (hleft.of_over (.refl s) h).operand
    refine ⟨?_, fun hkept => absurd hleft.dropped hkept⟩
    have hm : m.inputs = f u :: us.map f := by rw [← List.map_cons, ← hin]
    have hm' : m'.inputs = f u' :: us'.map f := by rw [← List.map_cons, ← hin']
    rw [literalOf_of_bare hm ((hliteral u).trans hbare),
      literalOf_of_bare hm' ((hliteral u').trans hbare')]
    simp only [Node.constant, Node.attribute?, m, m', h.attributes, h.name]

end TensorGraph
