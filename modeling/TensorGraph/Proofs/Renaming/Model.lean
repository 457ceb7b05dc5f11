import Mathlib.GroupTheory.Perm.Basic
import Mathlib.Logic.Equiv.Fintype
import TensorGraph.Node
import TensorGraph.Proofs.WellFormed

/-!
# Renamed models

A model with other names for its values. A renaming that is injective on the names of a model extends
to an injective one that keeps the empty name and the names of generated operands
(`ModelMessage.Renames.exists_renaming`).
-/

namespace TensorGraph

open Onnx

def Value.rename (g : String → String) (v : Value) : Value := { v with name := g v.name }

/-- A node with other names for its operands and outputs. -/
def Node.rename (g : String → String) (n : Node) : Node :=
  { n with inputs := n.inputs.map (Value.rename g), outputs := n.outputs.map (Value.rename g) }

namespace Onnx

def ValueMessage.rename (g : String → String) (d : ValueMessage) : ValueMessage :=
  { d with name := g d.name }

def TensorMessage.rename (g : String → String) (a : TensorMessage) : TensorMessage :=
  { a with name := g a.name }

def NodeMessage.rename (g : String → String) (n : NodeMessage) : NodeMessage :=
  { n with inputs := n.inputs.map g, outputs := n.outputs.map g }

/-- A model with other names for its values. -/
def ModelMessage.rename (g : String → String) (m : ModelMessage) : ModelMessage :=
  { m with
    nodes := m.nodes.map (NodeMessage.rename g)
    inputs := m.inputs.map (ValueMessage.rename g)
    outputs := m.outputs.map (ValueMessage.rename g)
    initializers := m.initializers.map (TensorMessage.rename g) }

end Onnx

/-- A renaming that tells all names apart, and keeps the names that are not for the file to choose. -/
structure Renaming (g : String → String) : Prop where
  injective : Function.Injective g
  empty : g "" = ""
  generated : ∀ {x}, Generated x → g x = x

/-- A renaming that tells the names of a model apart. -/
structure Onnx.ModelMessage.Renames (m : ModelMessage) (f : String → String) : Prop where
  empty : f "" = ""
  injective : ∀ x ∈ "" :: m.valueNames, ∀ y ∈ "" :: m.valueNames, f x = f y → x = y

variable {m : ModelMessage} {f g : String → String} {v : Value} {n : Node} {x : String}

namespace Renaming

lemma apply_eq_iff (hg : Renaming g) {x y : String} : g x = g y ↔ x = y := hg.injective.eq_iff

lemma eq_empty_iff (hg : Renaming g) : g x = "" ↔ x = "" := by
  rw [← hg.empty, hg.apply_eq_iff, hg.empty]

end Renaming

namespace Onnx.ModelMessage

lemma rename_congr (h : ∀ x ∈ m.valueNames, g x = f x) : m.rename g = m.rename f := by
  simp only [valueNames, List.mem_append, List.mem_flatMap, or_imp, forall_and] at h
  obtain ⟨⟨⟨hin, hout⟩, hinit⟩, hnodes⟩ := h
  simp only [rename, ModelMessage.mk.injEq, true_and]
  refine ⟨List.map_congr_left fun n hn => ?_, List.map_congr_left fun d hd => ?_,
    List.map_congr_left fun d hd => ?_, List.map_congr_left fun a ha => ?_⟩
  · have hmap : ∀ xs : List String, (∀ x ∈ xs, x ∈ n.inputs ∨ x ∈ n.outputs) →
        xs.map g = xs.map f :=
      fun xs hxs => List.map_congr_left fun x hx => hnodes x ⟨n, hn, hxs x hx⟩
    rw [NodeMessage.rename, NodeMessage.rename, hmap n.inputs fun x hx => .inl hx,
      hmap n.outputs fun x hx => .inr hx]
  · rw [ValueMessage.rename, ValueMessage.rename, hin _ (List.mem_map_of_mem hd)]
  · rw [ValueMessage.rename, ValueMessage.rename, hout _ (List.mem_map_of_mem hd)]
  · rw [TensorMessage.rename, TensorMessage.rename, hinit _ (List.mem_map_of_mem ha)]

lemma valueNames_rename : (m.rename g).valueNames = m.valueNames.map g := by
  simp [valueNames, rename, inputNames, outputNames, initializerNames, ValueMessage.rename,
    TensorMessage.rename, NodeMessage.rename, List.map_flatMap, List.flatMap_map, Function.comp_def]

lemma not_generated_empty : ¬ Generated "" := by decide

/-- A renaming of the names of a model, none of which is generated before or after, extends to all
names. -/
theorem Renames.exists_renaming (hf : m.Renames f) (hgen : m.NoGenerated)
    (hgen' : (m.rename f).NoGenerated) : ∃ g, Renaming g ∧ m.rename g = m.rename f := by
  have hmem : ∀ x ∈ "" :: m.valueNames, ¬ Generated x := by
    intro x hx
    rcases List.mem_cons.mp hx with rfl | hx
    · exact not_generated_empty
    · exact hgen x hx
  have hmem' : ∀ x ∈ "" :: m.valueNames, ¬ Generated (f x) := by
    intro x hx
    rcases List.mem_cons.mp hx with rfl | hx
    · rw [hf.empty]
      exact not_generated_empty
    · refine hgen' (f x) ?_
      rw [valueNames_rename]
      exact List.mem_map_of_mem hx
  -- The names that are generated are left alone: only the others are permuted.
  obtain ⟨σ, hσ⟩ := Equiv.Perm.exists_extending_pair
    (fun x : { x // x ∈ "" :: m.valueNames } =>
      (⟨x, hmem x x.2⟩ : { x // ¬ Generated x }))
    (fun x => ⟨f x, hmem' x x.2⟩)
    (fun x y h => Subtype.ext (Subtype.mk.inj h))
    (fun x y h => Subtype.ext (hf.injective x x.2 y y.2 (Subtype.mk.inj h)))
  have happly : ∀ x ∈ "" :: m.valueNames, Equiv.Perm.ofSubtype σ x = f x := by
    intro x hx
    rw [Equiv.Perm.ofSubtype_apply_of_mem σ (hmem x hx), hσ ⟨x, hx⟩]
  refine ⟨Equiv.Perm.ofSubtype σ, ⟨Equiv.injective _, ?_, fun hx => ?_⟩, ?_⟩
  · rw [happly "" (by simp), hf.empty]
  · exact Equiv.Perm.ofSubtype_apply_of_not_mem σ (not_not.mpr hx)
  · exact rename_congr fun x hx => happly x (List.mem_cons_of_mem _ hx)

end Onnx.ModelMessage

end TensorGraph
