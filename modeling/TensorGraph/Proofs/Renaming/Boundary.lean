import TensorGraph.Proofs.Import.Boundary
import TensorGraph.Proofs.Renaming.Registry

/-!
# The registry before the first node under a renaming

Before the first node the registry of a model with other names for its values holds the same under the
other names (`Registry.ofModel_rename`).
-/

namespace TensorGraph.Registry

open Onnx

variable {g : String → String} {m : ModelMessage} {r r' : Registry}

/-- No value has its final name yet. -/
abbrev Unsettled : String → Prop := fun _ => False

lemma initializersOf_rename (hg : Renaming g) :
    Agree (fun t t' => ∀ x, t'.get? (g x) = (t.get? x).map (Value.rename g)) (initializersOf m)
      (initializersOf (m.rename g)) := by
  have hread : List.Forall₂ (fun a b => b = a.rename g) m.initializers (m.rename g).initializers :=
    List.forall₂_map_right_iff.mpr (List.forall₂_same.mpr fun _ _ => rfl)
  refine Agree.foldlM hread (fun t t' a a' ht ha => ?_) fun x => rfl
  subst ha
  have hliteral : (a.rename g).toLiteral = a.toLiteral := rfl
  have hvalue : Agree (fun v w => w = v.rename g) a.toValue (a.rename g).toValue := by
    unfold TensorMessage.toValue Value.ofLiteral
    refine (Agree.of_eq hliteral.symm).bind fun l _ _ _ hl => ?_
    subst hl
    refine (Agree.refl l.type).bind fun t _ _ _ ht => ?_
    subst ht
    exact .pure rfl
  refine hvalue.bind fun v w _ _ hw => .pure fun x => ?_
  subst hw
  simp only [Table.get?_insert, TensorMessage.rename, hg.apply_eq_iff, ht]
  split <;> rfl

lemma declared_rename (d : ValueMessage) :
    Agree (fun v w => w = v.rename g) d.toValue (d.rename g).toValue := by
  unfold ValueMessage.toValue
  refine (Agree.refl (DataType.element d.elementType)).bind fun t _ _ _ ht => ?_
  subst ht
  exact .pure rfl

namespace Renamed

lemma addInput (hg : Renaming g) (h : r.Renamed g Unsettled r') (d : ValueMessage) :
    Agree (Renamed g Unsettled) (r.addInput d) (r'.addInput (d.rename g)) := by
  have hagree : Agree (fun a b => a.Sound → Renamed g Unsettled a b) (r.addInput d)
      (r'.addInput (d.rename g)) := by
    unfold Registry.addInput
    refine (declared_rename d).bind fun v w _ _ hw => .pure fun hsound => ?_
    subst hw
    have hname : (d.rename g).name = g d.name := rfl
    exact {
      sound := hsound
      slots := fun x => by simp only [Table.get?_insert, hname, hg.apply_eq_iff, h.inputs, h.slots]
      initializers := h.initializers
      inputs := by
        simp only [h.inputs, hname, h.initializers]
        cases r.initializers.get? d.name <;> rfl
      outputs := h.outputs
      interior := h.interior
      missed := h.missed
      registered := False.elim
      value := fun {x slot} hs hin => by
        rw [Table.get?_insert] at hs
        split at hs
        · exact absurd (Option.some.inj hs).symm (hin _)
        · have := h.value hs hin
          cases slot with
          | input i => exact absurd rfl (hin i)
          | _ => exact this }
  exact hagree.imp_ok fun a b ha _ hab => hab (sound_addInput h.sound ha)

lemma addOutput (hg : Renaming g) (h : r.Renamed g Unsettled r') (d : ValueMessage) :
    Agree (Renamed g Unsettled) (r.addOutput d) (r'.addOutput (d.rename g)) := by
  have hagree : Agree (fun a b => a.Sound → Renamed g Unsettled a b) (r.addOutput d)
      (r'.addOutput (d.rename g)) := by
    unfold Registry.addOutput
    refine (declared_rename d).bind fun v w _ _ hw => .pure fun hsound => ?_
    subst hw
    have hname : (d.rename g).name = g d.name := rfl
    exact {
      sound := hsound
      slots := fun x => by simp only [Table.get?_insert, hname, hg.apply_eq_iff, h.outputs, h.slots]
      initializers := h.initializers
      inputs := h.inputs
      outputs := by simp [h.outputs]
      interior := h.interior
      missed := h.missed
      registered := False.elim
      value := fun {x slot} hs hin => by
        rw [Table.get?_insert] at hs
        split at hs
        · obtain rfl := Option.some.inj hs
          refine ⟨False.elim, fun _ => ?_⟩
          simp [Registry.value, List.getD_eq_getElem?_getD, ← h.outputs]
        · have hhas : r.Has slot := h.sound.has hs
          have hhas' := h.has hs
          have := h.value hs hin
          cases slot with
          | output i =>
            simp only [Has] at hhas hhas'
            simpa [Registry.value, List.getD_eq_getElem?_getD, List.getElem?_append_left hhas,
              List.getElem?_append_left hhas'] using this
          | _ => exact this }
  exact hagree.imp_ok fun a b ha _ hab => hab (sound_addOutput h.sound ha)

end Renamed

theorem ofModel_rename (hg : Renaming g) :
    Agree (Renamed g Unsettled) (ofModel m) (ofModel (m.rename g)) := by
  have hins : List.Forall₂ (fun d d' => d' = d.rename g) m.inputs (m.rename g).inputs :=
    List.forall₂_map_right_iff.mpr (List.forall₂_same.mpr fun _ _ => rfl)
  have houts : List.Forall₂ (fun d d' => d' = d.rename g) m.outputs (m.rename g).outputs :=
    List.forall₂_map_right_iff.mpr (List.forall₂_same.mpr fun _ _ => rfl)
  unfold ofModel
  refine (initializersOf_rename hg).bind fun t t' _ _ ht => ?_
  have start : Renamed g Unsettled { initializers := t } { initializers := t' } :=
    { sound := ⟨by simp, by simp⟩
      slots := fun _ => rfl
      initializers := ht
      inputs := rfl
      outputs := rfl
      interior := rfl
      missed := by simp
      registered := False.elim
      value := by simp }
  refine (Agree.foldlM hins (fun _ _ d _ h hd => hd ▸ h.addInput hg d) start).bind
    fun r r' _ _ h => ?_
  exact Agree.foldlM houts (fun _ _ d _ h hd => hd ▸ h.addOutput hg d) h

end TensorGraph.Registry
