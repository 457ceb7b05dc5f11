import TensorGraph.Proofs.Bypass.Registry
import TensorGraph.Proofs.TypingView

/-!
# Nodes with a redirected operand

Two messages that differ in how they read one value, under the name `y` or under `a`, give nodes that
differ in no more than that, and that are specialised and fused alike (`Node.fuse_redirected`).
-/

namespace TensorGraph

open Onnx Registry

variable {y a : String} {r : Registry} {raw raw' : NodeMessage} {next next' : Option NodeMessage}
  {n n' add add' : Node} {v w : Value} {vs ws : List Value} {R : Value → Value → Prop} {i : Nat}

/-- The message `raw'` is `raw`, but that it may read `a` where `raw` reads `y`. -/
structure Onnx.NodeMessage.Redirected (y a : String) (raw raw' : NodeMessage) : Prop where
  eq : raw' = { raw with inputs := raw'.inputs }
  inputs : List.Forall₂ (fun x x' => x' = x ∨ x = y ∧ x' = a) raw.inputs raw'.inputs

lemma Onnx.NodeMessage.Redirected.refl (y a : String) (raw : NodeMessage) :
    raw.Redirected y a raw := ⟨rfl, List.forall₂_same.mpr fun _ _ => .inl rfl⟩

lemma Onnx.NodeMessage.Redirected.operator (h : raw.Redirected y a raw') :
    raw'.operator = raw.operator := by
  rw [h.eq]

namespace Value

/-- The value `w` is `v` up to its use, but that it may be read under `a` where `v`, which is no
literal, is read under `y`. -/
structure Redirected (y a : String) (v w : Value) : Prop where
  type : w.type = v.type
  literal : w.literal = v.literal
  name : w.name = v.name ∨ v.name = y ∧ w.name = a ∧ v.literal = none

lemma Redirected.refl (y a : String) (v : Value) : v.Redirected y a v := ⟨rfl, rfl, .inl rfl⟩

lemma Redirected.transpose (h : v.Redirected y a w) :
    v.transpose.Redirected y a w.transpose := by
  unfold Value.transpose
  rw [h.literal]
  split
  · exact h
  · next b hb =>
    refine ⟨by simp only [h.type], rfl, h.name.imp_right fun hnone => ?_⟩
    simp [hb] at hnone

end Value

namespace Registry

lemma resolve_redirected {x x' : String} (hya : r.SameType y a) (hx : x' = x ∨ x = y ∧ x' = a) :
    Agree (Value.Redirected y a) (r.resolve x) (r.resolve x') := by
  rcases hx with rfl | ⟨rfl, rfl⟩
  · exact (Agree.refl _).imp fun v w hvw => hvw ▸ .refl y a v
  · obtain ⟨t, hy, ha⟩ := hya
    obtain ⟨v, hv, hname, htype, hlit⟩ := hy.resolve
    obtain ⟨w, hw, hname', htype', hlit'⟩ := ha.resolve
    rw [hv, hw]
    exact .ok ⟨htype'.trans htype.symm, hlit'.trans hlit.symm, .inr ⟨hname, hname', hlit⟩⟩

lemma convert_redirected (hya : r.SameType y a) (h : raw.Redirected y a raw') :
    Agree (Node.Over (Value.Redirected y a)) (r.convert raw) (r.convert raw') := by
  rw [h.eq]
  unfold Registry.convert
  refine (Agree.refl raw.knownOperator).bind fun o _ _ _ ho => ?_
  refine (Agree.mapM h.inputs fun x x' hx => resolve_redirected hya hx).bind fun vs ws _ _ hvs => ?_
  refine (Agree.refl raw.toAttributes).bind fun attributes _ _ _ hattributes => .pure ?_
  exact ⟨ho.symm, rfl, hvs, rfl, hattributes.symm⟩

end Registry

namespace Node

lemma specialise_redirected (h : n.Over (Value.Redirected y a) n') :
    Agree (Over (Value.Redirected y a)) n.specialise n'.specialise := by
  have htypes : n'.inputs.map Value.type = n.inputs.map Value.type :=
    map_eq_map_of_forall₂ h.inputs fun _ _ hvw => hvw.type
  refine (specialise_agree h.operator h.attributes htypes).imp ?_
  rintro _ _ ⟨o, rfl, rfl⟩
  exact { h with operator := rfl }

lemma hasLiteralMatrix_redirected (h : n.Over (Value.Redirected y a) n') :
    n'.hasLiteralMatrix i = n.hasLiteralMatrix i := by
  have hmatrix : n'.inputs.map Value.isLiteralMatrix = n.inputs.map Value.isLiteralMatrix :=
    map_eq_map_of_forall₂ h.inputs fun v w hvw => by
      simp only [Value.isLiteralMatrix, hvw.type, hvw.literal]
  simp only [hasLiteralMatrix, ← List.getElem?_map, hmatrix]

lemma fuseGemm_redirected (h : n.Over (Value.Redirected y a) n') :
    Agree (Over (Value.Redirected y a)) n.fuseGemm n'.fuseGemm := by
  refine (fuseGemm_agree h.attributes (hasLiteralMatrix_redirected h) (by rw [h.outputs])).imp ?_
  rintro _ _ (⟨rfl, rfl⟩ | ⟨turned, attributes, rfl, rfl⟩)
  · exact h
  · refine ⟨rfl, h.name, ?_, h.outputs, rfl⟩
    cases turned with
    | true => exact forall₂_modify h.inputs 1 fun _ _ _ hvw => hvw.transpose
    | false => exact h.inputs

/-- Both nodes add a bias or neither does: what is read under another name is no literal, and is not
what the product writes. -/
lemma isBiasOf_redirected (hadd : add.Over (Value.Redirected y a) add')
    (hout : n'.outputs = n.outputs) (hapart : ∀ o ∈ n.outputs.head?, o.name ≠ y ∧ o.name ≠ a) :
    Agree (· = ·) (add.isBiasOf n) (add'.isBiasOf n') := by
  have houtput : n'.output 0 = n.output 0 := by simp only [Node.output, hout]
  refine isBiasOf_agree hadd.operator hadd.inputs houtput fun o u v u' v' ho _ hu hv => ?_
  obtain ⟨os, hos⟩ := Node.output_zero_eq_ok.mp ho
  obtain ⟨hoy, hoa⟩ := hapart o (by rw [hos]; rfl)
  have hnamed : ∀ {x x' : Value}, x.Redirected y a x' → (x'.name = o.name ↔ x.name = o.name) := by
    intro x x' hx
    rcases hx.name with e | ⟨e, e', -⟩
    · rw [e]
    · rw [e, e']
      exact iff_of_false (Ne.symm hoa) (Ne.symm hoy)
  simp only [hu.literal, hv.literal, hnamed hu, hnamed hv]

lemma absorbBias_redirected (h : n.Over (Value.Redirected y a) n')
    (hadd : add.Over (Value.Redirected y a) add') (hb : add.isBiasOf n = .ok true) :
    Agree (Over (Value.Redirected y a)) (n.absorbBias add) (n'.absorbBias add') := by
  obtain ⟨u, v, o, os, -, hin, hout, -⟩ := isBiasOf_ok hb
  have hinputs := hadd.inputs
  rw [hin] at hinputs
  obtain ⟨u', v', hin', hu, hv⟩ := forall₂_pair hinputs
  simp only [Node.absorbBias, hin, hin', h.outputs, hout, hadd.output, hu.literal]
  refine (Agree.refl (add.output 0)).bind fun z _ _ _ hz => .pure ?_
  subst hz
  refine { h with inputs := List.rel_append h.inputs (.cons ?_ .nil), outputs := rfl }
  split
  · exact hu
  · exact hv

lemma fuseMatMul_redirected (hya : r.SameType y a) (h : n.Over (Value.Redirected y a) n')
    (hnext : Option.Rel (NodeMessage.Redirected y a) next next')
    (hapart : ∀ raw ∈ next, raw.operator = "Add" →
      next' = next ∨ ∀ o ∈ n.outputs.head?, o.name ≠ y ∧ o.name ≠ a) :
    Agree (fun b b' => b.1.Over (Value.Redirected y a) b'.1 ∧ b'.2 = b.2) (n.fuseMatMul r next)
      (n'.fuseMatMul r next') := by
  have hlinear : Over (Value.Redirected y a) { n with operator := .linear }
      { n' with operator := .linear } := { h with operator := rfl }
  unfold fuseMatMul
  rw [hasLiteralMatrix_redirected h, ← h.inputs.length_eq]
  split
  · exact .pure ⟨h, rfl⟩
  cases hnext with
  | none => exact .pure ⟨hlinear, rfl⟩
  | @some raw raw' hraw =>
    simp only [hraw.operator]
    split
    · exact .pure ⟨hlinear, rfl⟩
    next hop =>
    refine (convert_redirected hya hraw).bind fun add add' hc hc' hadd => ?_
    have hbias : Agree (· = ·) (add.isBiasOf { n with operator := .linear })
        (add'.isBiasOf { n' with operator := .linear }) := by
      rcases hapart raw rfl (not_not.mp hop) with heq | hapart
      · obtain rfl := Option.some.inj heq
        obtain rfl := Except.ok.inj (hc.symm.trans hc')
        exact .of_eq (by simp only [isBiasOf, Node.output, h.outputs])
      · exact isBiasOf_redirected hadd h.outputs hapart
    refine hbias.bind fun b _ hb _ heq => heq ▸ ?_
    split
    · next htrue =>
      refine (absorbBias_redirected hlinear hadd (htrue ▸ hb)).bind fun m m' _ _ hm => ?_
      exact .pure ⟨hm, rfl⟩
    · exact .pure ⟨hlinear, rfl⟩

/-- Nodes are fused alike, unless the next one is an addition that reads what they write under
another name. -/
theorem fuse_redirected (hya : r.SameType y a) (h : n.Over (Value.Redirected y a) n')
    (hnext : Option.Rel (NodeMessage.Redirected y a) next next')
    (hapart : n.operator = .matMul → ∀ raw ∈ next, raw.operator = "Add" →
      next' = next ∨ ∀ o ∈ n.outputs.head?, o.name ≠ y ∧ o.name ≠ a) :
    Agree (fun b b' => b.1.Over (Value.Redirected y a) b'.1 ∧ b'.2 = b.2) (n.fuse r next)
      (n'.fuse r next') := by
  unfold Node.fuse
  rw [h.operator]
  split
  · refine (fuseGemm_redirected h).bind fun m m' _ _ hm => ?_
    exact .pure ⟨hm, rfl⟩
  · next hop => exact fuseMatMul_redirected hya h hnext (hapart hop)
  · exact .ok ⟨h, rfl⟩

end Node

end TensorGraph
