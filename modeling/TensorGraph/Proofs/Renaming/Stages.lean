import TensorGraph.Proofs.Import.Outputs
import TensorGraph.Proofs.Import.Stages
import TensorGraph.Proofs.Renaming.Registry
import TensorGraph.Proofs.TypingView

/-!
# Stages under a renaming

Each stage of an import does the same in two runs whose states and nodes a renaming leads to one
another.
-/

namespace TensorGraph

open Onnx Registry

variable {g : String → String} {settled : String → Prop} {r r' : Registry} {n n' : Node}
  {s s' : ImportState} {v : Value} {vs : List Value} {x : String}

@[simp] lemma Value.name_rename : (v.rename g).name = g v.name := rfl

@[simp] lemma Value.type_rename : (v.rename g).type = v.type := rfl

@[simp] lemma Value.literal_rename : (v.rename g).literal = v.literal := rfl

lemma Value.transpose_rename' : (v.rename g).transpose = v.transpose.rename g := by
  rw [Value.rename, Value.transpose_rename, Value.rename, v.name_transpose]

namespace Node

@[simp] lemma operator_rename : (n.rename g).operator = n.operator := rfl

@[simp] lemma name_rename : (n.rename g).name = n.name := rfl

@[simp] lemma attributes_rename : (n.rename g).attributes = n.attributes := rfl

@[simp] lemma inputs_rename : (n.rename g).inputs = n.inputs.map (Value.rename g) := rfl

@[simp] lemma outputs_rename : (n.rename g).outputs = n.outputs.map (Value.rename g) := rfl

lemma input_rename (i : Nat) :
    Agree (fun v w => w = v.rename g) (n.input i) ((n.rename g).input i) := by
  unfold Node.input
  rw [inputs_rename, List.getElem?_map]
  cases n.inputs[i]? with
  | none => exact .error (.refl _)
  | some v => exact .ok rfl

lemma output_rename (i : Nat) :
    Agree (fun v w => w = v.rename g) (n.output i) ((n.rename g).output i) := by
  unfold Node.output
  rw [outputs_rename, List.getElem?_map]
  cases n.outputs[i]? with
  | none => exact .error (.refl _)
  | some v => exact .ok rfl

lemma specialise_rename :
    Agree (fun a b => b = a.rename g) n.specialise (n.rename g).specialise := by
  have htypes : (n.rename g).inputs.map Value.type = n.inputs.map Value.type := by
    rw [inputs_rename, List.map_map]
    rfl
  refine (specialise_agree operator_rename attributes_rename htypes).imp ?_
  rintro _ _ ⟨o, rfl, rfl⟩
  rfl

lemma hasLiteralMatrix_rename (i : Nat) :
    (n.rename g).hasLiteralMatrix i = n.hasLiteralMatrix i := by
  simp only [hasLiteralMatrix, inputs_rename, List.getElem?_map, Option.map_map]
  rfl

lemma map_modify_transpose :
    (vs.map (Value.rename g)).modify 1 Value.transpose =
      (vs.modify 1 Value.transpose).map (Value.rename g) := by
  rcases vs with _ | ⟨v, _ | ⟨w, vs⟩⟩
  · rfl
  · rfl
  · simp [List.modify_succ_cons, Value.transpose_rename']

lemma fuseGemm_rename :
    Agree (fun a b => b = a.rename g) n.fuseGemm (n.rename g).fuseGemm := by
  refine (fuseGemm_agree attributes_rename (hasLiteralMatrix_rename 1) (by simp)).imp ?_
  rintro _ _ (⟨rfl, rfl⟩ | ⟨turned, attributes, rfl, rfl⟩)
  · rfl
  · cases turned <;> simp [Node.rename, map_modify_transpose]

lemma isBiasOf_rename (hg : Renaming g) (add : Node) :
    Agree (· = ·) (add.isBiasOf n) ((add.rename g).isBiasOf (n.rename g)) := by
  unfold isBiasOf
  rw [operator_rename, inputs_rename]
  split
  · next a b hop hin =>
    simp only [hop, hin, List.map_cons, List.map_nil]
    refine (output_rename 0).bind fun v w _ _ hw => .pure ?_
    subst hw
    simp only [Value.name_rename, Value.literal_rename, hg.apply_eq_iff]
  · next hne =>
    split
    · next a b hop hin =>
      obtain ⟨a', l, ha, rfl, hl⟩ := List.map_eq_cons_iff.mp hin
      obtain ⟨b', l', rfl, rfl, hl'⟩ := List.map_eq_cons_iff.mp hl
      rw [List.map_eq_nil_iff.mp hl'] at ha
      exact absurd ha (hne a' b' hop)
    · exact .ok rfl

lemma absorbBias_rename (add : Node) :
    Agree (fun a b => b = a.rename g) (n.absorbBias add) ((n.rename g).absorbBias (add.rename g)) := by
  unfold absorbBias
  rw [inputs_rename, outputs_rename]
  rcases hadd : add.inputs with _ | ⟨a, _ | ⟨b, _ | ⟨c, cs⟩⟩⟩ <;>
    rcases hout : n.outputs with _ | ⟨v, vs⟩ <;> try exact .error (.refl _)
  simp only [List.map_cons, List.map_nil]
  refine (output_rename 0).bind fun y y' _ _ hy => .pure ?_
  subst hy
  cases ha : a.literal <;> simp [Node.rename, ha, Value.rename]

lemma fuse_rename (hg : Renaming g) (h : r.Renamed g settled r') (next : Option NodeMessage) :
    Agree (fun a b => b.1 = a.1.rename g ∧ b.2 = a.2) (n.fuse r next)
      ((n.rename g).fuse r' (next.map (NodeMessage.rename g))) := by
  unfold fuse
  rw [operator_rename]
  split
  · exact fuseGemm_rename.bind fun a b _ _ hb => .pure ⟨hb, rfl⟩
  · unfold fuseMatMul
    simp only [hasLiteralMatrix_rename, inputs_rename, List.length_map]
    split
    · exact .pure ⟨rfl, rfl⟩
    · cases next with
      | none => exact .pure ⟨rfl, rfl⟩
      | some raw =>
        simp only [Option.map_some, NodeMessage.rename]
        split
        · exact .pure ⟨rfl, rfl⟩
        · refine (h.convert hg raw).bind fun add add' _ _ hadd => ?_
          subst hadd
          refine (isBiasOf_rename (n := { n with operator := .linear }) hg add).bind ?_
          rintro b _ - - rfl
          split
          · refine (absorbBias_rename (n := { n with operator := .linear }) add).bind ?_
            exact fun a a' _ _ ha => .pure ⟨ha, rfl⟩
          · exact .pure ⟨rfl, rfl⟩
  · exact .ok ⟨rfl, rfl⟩

end Node

def Elision.rename (g : String → String) (e : Elision) : Elision := { e with source := g e.source }

/-- The state `s'` knows under `g x` what the state `s` knows under `x`. The nodes so far are the
same. -/
structure ImportState.Renamed (g : String → String) (settled : String → Prop) (s s' : ImportState) :
    Prop where
  registry : s.registry.Renamed g settled s'.registry
  nodes : s'.nodes = s.nodes
  counts : s'.counts = s.counts
  removed : s'.removed = s.removed
  constants : ∀ x, s'.constants.get? (g x) = s.constants.get? x
  elisions : ∀ x, s'.elisions.get? (g x) = (s.elisions.get? x).map (Elision.rename g)

namespace ImportState.Renamed

lemma place (h : s.Renamed g settled s') : s'.place = s.place := by
  rw [ImportState.place, ImportState.place, h.nodes]

lemma remove (h : s.Renamed g settled s') (place : Nat) :
    (s.remove place).Renamed g settled (s'.remove place) :=
  { h with removed := by simp only [ImportState.remove, h.removed] }

lemma nameNode (h : s.Renamed g settled s') (n : Node) :
    (s.nameNode n).1.Renamed g settled (s'.nameNode (n.rename g)).1 ∧
      (s'.nameNode (n.rename g)).2 = (s.nameNode n).2.rename g := by
  simp only [ImportState.nameNode, Node.operator_rename, h.counts]
  exact ⟨{ h with counts := rfl }, rfl⟩

lemma sourceOf (h : s.Renamed g settled s') (x : String) :
    s'.sourceOf (g x) = g (s.sourceOf x) := by
  unfold ImportState.sourceOf
  rw [h.elisions]
  cases s.elisions.get? x <;> rfl

lemma isElided (h : s.Renamed g settled s') (n : Node) :
    Agree (· = ·) (s.isElided n) (s'.isElided (n.rename g)) := by
  unfold ImportState.isElided
  rw [Node.operator_rename]
  split
  · exact .pure rfl
  · refine (Node.input_rename 0).bind fun v w _ _ hw => ?_
    subst hw
    rw [Value.literal_rename]
    split
    · exact .pure rfl
    · refine (Node.output_rename 0).bind fun y z _ _ hz => .pure ?_
      rw [hz, Value.name_rename, h.registry.isOutput]

/-- Identities are left out alike. -/
lemma elide (hg : Renaming g) (h : s.Renamed g settled s') (n : Node) :
    Agree (fun a b => a.1.Renamed g settled b.1 ∧ b.2 = a.2.rename g) (s.elide n)
      (s'.elide (n.rename g)) := by
  unfold ImportState.elide
  refine (h.isElided n).bind ?_
  rintro b _ - - rfl
  split
  · refine (Node.input_rename 0).bind fun v w _ _ hw => ?_
    refine (Node.output_rename 0).bind fun y z _ _ hz => .pure ⟨?_, rfl⟩
    subst hw hz
    rw [h.place]
    refine ImportState.Renamed.remove ?_ s.place
    refine { h with elisions := fun x => ?_ }
    simp only [Table.get?_insert, Value.name_rename, hg.apply_eq_iff, h.sourceOf, h.elisions]
    split <;> rfl
  · refine .pure ⟨h, ?_⟩
    simp only [Node.rename, List.map_map]
    congr 1
    refine List.map_congr_left fun v _ => ?_
    simp only [Function.comp_apply, Value.rename, h.sourceOf]

lemma writesLiteral (n : Node) :
    Agree (· = ·) (ImportState.writesLiteral n) (ImportState.writesLiteral (n.rename g)) := by
  unfold ImportState.writesLiteral
  rw [Node.operator_rename]
  split
  · exact .ok rfl
  · refine (Node.input_rename 0).bind fun v w _ _ hw => .pure ?_
    rw [hw, Value.literal_rename]
  · exact .ok rfl

lemma liftOperand (h : s.Renamed g settled s') (v : Value) :
    Agree (fun a b => a.1.Renamed g settled b.1 ∧ b.2 = a.2.rename g) (s.liftOperand v)
      (s'.liftOperand (v.rename g)) := by
  unfold ImportState.liftOperand
  rw [Value.name_rename, h.constants, h.nodes]
  split
  · exact .ok ⟨h, rfl⟩
  · next place _ =>
    split
    · exact .error (.refl _)
    · next n _ =>
      refine (Agree.refl (ImportState.literalOf n)).bind fun a b _ _ hab => .pure ⟨h.remove place, ?_⟩
      rw [← hab]
      rfl

lemma liftOperands (h : s.Renamed g settled s') (vs : List Value) :
    Agree (fun a b => a.1.Renamed g settled b.1 ∧ b.2 = a.2.map (Value.rename g))
      (s.liftOperands vs) (s'.liftOperands (vs.map (Value.rename g))) := by
  induction vs generalizing s s' with
  | nil => exact .ok ⟨h, rfl⟩
  | cons v vs ih =>
    simp only [List.map_cons, ImportState.liftOperands]
    refine (h.liftOperand v).bind fun a b _ _ hab => ?_
    refine (ih hab.1).bind fun c d _ _ hcd => .pure ⟨hcd.1, ?_⟩
    rw [hab.2, hcd.2, List.map_cons]

/-- Literals are lifted alike. -/
lemma lift (hg : Renaming g) (h : s.Renamed g settled s') (n : Node) :
    Agree (fun a b => a.1.Renamed g settled b.1 ∧ b.2 = a.2.rename g) (s.lift n)
      (s'.lift (n.rename g)) := by
  unfold ImportState.lift
  refine (writesLiteral n).bind ?_
  rintro b _ - - rfl
  split
  · refine (Node.output_rename 0).bind fun y z _ _ hz => .pure ⟨?_, rfl⟩
    subst hz
    refine { h with constants := fun x => ?_ }
    simp only [Table.get?_insert, Value.name_rename, hg.apply_eq_iff, h.place, h.constants]
  · rw [Node.operator_rename, Node.inputs_rename, ← List.map_drop, ← List.map_take]
    split
    · refine (h.liftOperands _).bind fun a b _ _ hab => .pure ⟨hab.1, ?_⟩
      simp only [hab.2, Node.rename, List.map_append]
    · exact .pure ⟨h, rfl⟩

end ImportState.Renamed

/-! ## Unsqueezes onto a graph boundary -/

namespace Node

lemma shapeOperand_rename (hg : Renaming g) (dims : List Int) :
    (n.rename g).shapeOperand dims = (n.shapeOperand dims).rename g := by
  have hname : g (n.shapeOperand dims).name = (n.shapeOperand dims).name :=
    hg.generated ⟨n.name.toList, String.toList_append.symm⟩
  rw [Value.rename, hname]
  rfl

lemma reshapeTo?_rename (hg : Renaming g) (b : Value) :
    Agree (fun a b => b = a.map (Node.rename g)) (n.reshapeTo? b)
      ((n.rename g).reshapeTo? (b.rename g)) := by
  unfold reshapeTo?
  refine (output_rename 0).bind fun o o' _ _ ho => ?_
  subst ho
  rw [Value.type_rename, Value.type_rename]
  split
  · refine (Agree.refl _).bind fun target _ _ _ htarget => ?_
    refine (input_rename 0).bind fun x x' _ _ hx => .pure ?_
    subst hx htarget
    have hshape := shapeOperand_rename (n := n) hg target
    simp only [Option.map_some, Node.rename, List.map_cons, List.map_drop] at hshape ⊢
    rw [hshape]
  · exact .pure rfl

lemma unsqueezesAtRun_rename : (n.rename g).unsqueezesAtRun = n.unsqueezesAtRun := by
  unfold unsqueezesAtRun
  rw [operator_rename, inputs_rename]
  rcases n.inputs with _ | ⟨x, _ | ⟨axes, xs⟩⟩
  · simp
  · simp
  · rw [List.map_cons, List.map_cons]
    by_cases hop : n.operator = .unsqueeze <;> simp [hop]

/-- An Unsqueeze becomes a Reshape alike, if its output is pending and no graph input. -/
lemma unsqueezeAsReshape_rename (hg : Renaming g) (h : r.Renamed g settled r')
    (hout : n.operator = .unsqueeze → ∀ o os, n.outputs = o :: os →
      ¬ settled o.name ∧ ∀ i, r.slots.get? o.name ≠ some (.input i)) :
    Agree (fun a b => b = a.rename g) (n.unsqueezeAsReshape r)
      ((n.rename g).unsqueezeAsReshape r') := by
  unfold unsqueezeAsReshape
  rw [unsqueezesAtRun_rename]
  split
  · exact .pure rfl
  · next hrun =>
    have hop := (unsqueezesAtRun_eq_true (by simpa using hrun)).1
    refine (output_rename 0).bind fun o o' ho _ ho' => ?_
    obtain ⟨os, hos⟩ := output_zero_eq_ok.mp ho
    obtain ⟨hpending, hin⟩ := hout hop o os hos
    subst ho'
    refine (h.boundary? hpending hin).bind fun b b' _ _ hb => ?_
    subst hb
    cases b with
    | none => exact .pure rfl
    | some b =>
      refine (reshapeTo?_rename hg b).bind fun new new' _ _ hnew => .pure ?_
      subst hnew
      cases new <;> rfl

lemma sameView_rename (hg : Renaming g) (n : Node) : n.SameView (n.rename g) where
  operator := rfl
  attributes := rfl
  inputs := List.forall₂_map_right_iff.mpr (List.forall₂_same.mpr fun v _ =>
    ⟨rfl, by simp [Value.present, hg.eq_empty_iff]⟩)
  outputs := List.forall₂_map_right_iff.mpr (List.forall₂_same.mpr fun _ _ => rfl)
  literals place _ := by
    unfold literal?
    rw [inputs_rename, List.getElem?_map]
    cases n.inputs[place]? <;> rfl

/-- Outputs that are renamed and get the same types stay renamed. -/
lemma retyped_rename {os vs ws : List Value} (hv : List.Forall₂ Value.Retyped os vs)
    (hw : List.Forall₂ (fun o w => (Value.rename g o).Retyped w) os ws)
    (htypes : List.Forall₂ (fun v w => v.type = w.type) vs ws) : ws = vs.map (Value.rename g) := by
  have hrenamed : List.Forall₂ Value.Retyped (os.map (Value.rename g)) (vs.map (Value.rename g)) := by
    rw [List.forall₂_map_left_iff, List.forall₂_map_right_iff]
    refine hv.imp fun o v hov => ?_
    obtain ⟨t, rfl⟩ := hov
    exact ⟨t, rfl⟩
  exact eq_of_retyped hrenamed (List.forall₂_map_left_iff.mpr hw)
    (List.forall₂_map_left_iff.mpr htypes)

lemma infer_rename (hg : Renaming g) (n : Node) :
    Agree (fun a b => b = a.rename g) n.infer (n.rename g).infer := by
  unfold infer
  refine (typedOutputs_agree (sameView_rename hg n)).bind fun vs ws hvs hws htypes => .pure ?_
  have hw := typedOutputs_ok hws
  rw [outputs_rename, List.forall₂_map_left_iff] at hw
  simp only [Node.rename, retyped_rename (typedOutputs_ok hvs) hw htypes]

end Node

namespace Registry.Renamed

lemma inferAndRecord (hg : Renaming g) (h : r.Renamed g settled r') (n : Node) :
    Agree (fun a b => a.1.Renamed g settled b.1 ∧ b.2 = a.2.rename g)
      (ImportState.inferAndRecord r n) (ImportState.inferAndRecord r' (n.rename g)) := by
  unfold ImportState.inferAndRecord
  refine (Node.infer_rename hg n).bind fun n₁ n₂ _ _ hn => ?_
  subst hn
  have hrecord := h.record hg n₁.name n₁.outputs
  rw [Node.name_rename, Node.outputs_rename]
  revert hrecord
  generalize r.record n₁.name n₁.outputs = a,
    r'.record n₁.name (n₁.outputs.map (Value.rename g)) = b
  intro hrecord
  obtain ⟨r₁, x⟩ := a
  obtain ⟨r₂, y⟩ := b
  cases x <;> cases y
  · exact .error hrecord
  · exact hrecord.elim
  · exact hrecord.elim
  · exact .pure ⟨hrecord, rfl⟩

/-- The operands get the same names, if what they name has got its final name. -/
lemma renameInputs (hg : Renaming g) (h : r.Renamed g settled r')
    (hvs : ∀ v ∈ vs, ∀ i, r.slots.get? v.name = some (.interior i) → settled v.name) :
    Agree (fun a b => a.1.Renamed g settled b.1 ∧ b.2 = a.2) (ImportState.renameInputs r vs)
      (ImportState.renameInputs r' (vs.map (Value.rename g))) := by
  induction vs generalizing r r' with
  | nil => exact .ok ⟨h, rfl⟩
  | cons v vs ih =>
    simp only [List.map_cons, ImportState.renameInputs]
    refine (h.newName hg (hvs v (by simp))).bind fun a b ha _ hab => ?_
    have hslots := (newName_ok h.sound ha).2.1.slots
    refine (ih hab.2 fun w hw => ?_).bind fun c d _ _ hcd => .pure ⟨hcd.1, ?_⟩
    · rw [hslots]
      exact hvs w (by simp [hw])
    · rw [hab.1, hcd.2]
      cases a.1 <;> rfl

lemma congr {settled' : String → Prop} (h : r.Renamed g settled r')
    (hs : ∀ x, settled x ↔ settled' x) : r.Renamed g settled' r' := by
  obtain rfl : settled = settled' := funext fun x => propext (hs x)
  exact h

/-- The outputs get the same names. -/
lemma renameOutputs (hg : Renaming g) (h : r.Renamed g settled r') (hn : n'.name = n.name)
    (number : Nat) (vs : List Value) :
    Agree (fun a b => a.1.Renamed g (fun x => x ∈ namesOf vs ∨ settled x) b.1 ∧ b.2 = a.2)
      (ImportState.renameOutputs n r number vs)
      (ImportState.renameOutputs n' r' number (vs.map (Value.rename g))) := by
  induction vs generalizing r r' settled number with
  | nil => exact .ok ⟨h.congr fun x => by simp [namesOf], rfl⟩
  | cons v vs ih =>
    have hout : ImportState.outputName n' number = ImportState.outputName n number := by
      rw [ImportState.outputName, ImportState.outputName, hn]
    simp only [List.map_cons, ImportState.renameOutputs, Value.name_rename, hg.eq_empty_iff, hout]
    by_cases hv : v.name = ""
    · simp only [hv, if_true]
      refine (ih h (number + 1)).bind fun a b _ _ hab => .pure ⟨?_, ?_⟩
      · rw [namesOf_cons_of_empty hv]
        exact hab.1
      · rw [hab.2, Value.rename, hv, hg.empty, ← hv]
    · simp only [hv, if_false]
      refine (h.rename v.name _).bind fun r₁ r₂ _ _ hr => ?_
      refine (ih hr (number + 1)).bind fun a b _ _ hab => .pure ⟨hab.1.congr fun x => ?_, ?_⟩
      · rw [namesOf_cons_of_ne hv, List.mem_cons]
        tauto
      · rw [hab.2]
        rfl

lemma renameLiteral (hg : Renaming g) (h : r.Renamed g settled r') (hn : n'.name = n.name)
    (hout : n.outputs = [v]) (hv : ¬ settled v.name) (hout' : n'.outputs = [v.rename g]) :
    Agree (fun a b => a.1.Renamed g (fun x => x = v.name ∨ settled x) b.1 ∧ b.2 = a.2)
      (ImportState.renameLiteral n r) (ImportState.renameLiteral n' r') := by
  have hname : ImportState.outputName n' 1 = ImportState.outputName n 1 := by
    rw [ImportState.outputName, ImportState.outputName, hn]
  simp only [ImportState.renameLiteral, hout, hout', hname]
  exact (h.insertOrRename hg hv).bind fun a b _ _ hab => .pure ⟨hab, rfl⟩

end Registry.Renamed

end TensorGraph
