import Mathlib.Data.List.DropRight
import Mathlib.Data.List.Nodup
import Std.Data.String.ToNat
import TensorGraph.Import.State

/-!
# Generated names

A generated name tells what it was made of: the operator and the number of a node (`nodeName_inj`),
the node and the place of an output (`outputName_inj`). No output is called like a graph input
(`outputName_ne_inputName`).
-/

namespace TensorGraph

/-- The name does not end in a digit. -/
def EndsPlain (x : String) : Prop := ∀ c ∈ x.toList.getLast?, c.isDigit = false

lemma rdropWhile_append_digits {as cs : List Char} (ha : ∀ c ∈ as.getLast?, c.isDigit = false)
    (hc : ∀ c ∈ cs, c.isDigit = true) : (as ++ cs).rdropWhile Char.isDigit = as := by
  induction cs using List.reverseRecOn with
  | nil =>
    rw [List.append_nil, List.rdropWhile_eq_self_iff]
    intro hl
    simp [ha _ (List.getLast_mem_getLast? hl)]
  | append_singleton cs c ih =>
    rw [← List.append_assoc, List.rdropWhile_concat_pos _ _ _ (hc c (by simp))]
    exact ih fun c hc' => hc c (by simp [hc'])

lemma toList_toString (k : Nat) : (toString k).toList = Nat.toDigits 10 k := Nat.toList_repr

lemma append_number_inj {a b : String} {k l : Nat} (ha : EndsPlain a) (hb : EndsPlain b)
    (h : a ++ toString k = b ++ toString l) : a = b ∧ k = l := by
  have hdigits : ∀ k : Nat, ∀ c ∈ (toString k).toList, c.isDigit = true := fun k c hc =>
    Nat.isDigit_of_mem_toDigits (by omega) (by omega) (toList_toString k ▸ hc)
  have hlist := congrArg String.toList h
  rw [String.toList_append, String.toList_append] at hlist
  have hfront := congrArg (List.rdropWhile Char.isDigit) hlist
  rw [rdropWhile_append_digits ha (hdigits k), rdropWhile_append_digits hb (hdigits l)] at hfront
  have hab : a = b := String.toList_inj.mp hfront
  subst hab
  have hback := List.append_cancel_left hlist
  rw [toList_toString, toList_toString] at hback
  have hnum := congrArg (Nat.ofDigitChars 10 · 0) hback
  simp only [Nat.ofDigitChars_ten_toDigits] at hnum
  exact ⟨rfl, hnum⟩

/-- The name of a node by its operator and its number. -/
def nodeName (o : Operator) (count : Nat) : String := s!"{o.name.toLower}{count}"

lemma Operator.mem_all (o : Operator) : o ∈ all := by
  cases o <;> decide

lemma toList_toLower (x : String) : x.toLower.toList = x.toList.map Char.toLower :=
  String.toList_map ..

lemma Operator.toLower_name_injective : Function.Injective fun o : Operator => o.name.toLower := by
  have hnodup : (all.map fun o => o.name.toList.map Char.toLower).Nodup := by decide +kernel
  intro o o' h
  refine List.inj_on_of_nodup_map hnodup o.mem_all o'.mem_all ?_
  simpa only [toList_toLower] using congrArg String.toList h

lemma Operator.endsPlain_toLower_name (o : Operator) : EndsPlain o.name.toLower := by
  have hall : (all.all fun o =>
      (o.name.toList.map Char.toLower).getLast?.all fun c => !c.isDigit) = true := by decide +kernel
  have hlast := List.all_eq_true.mp hall o o.mem_all
  intro c hc
  rw [toList_toLower] at hc
  simpa [Option.mem_def.mp hc] using hlast

theorem nodeName_inj {o o' : Operator} {k l : Nat} (h : nodeName o k = nodeName o' l) :
    o = o' ∧ k = l := by
  obtain ⟨hop, hnum⟩ := append_number_inj o.endsPlain_toLower_name o'.endsPlain_toLower_name h
  exact ⟨Operator.toLower_name_injective hop, hnum⟩

lemma endsPlain_append_out (x : String) : EndsPlain (x ++ "_out") := by
  intro c hc
  rw [String.toList_append, show "_out".toList = ['_', 'o', 'u'] ++ ['t'] from rfl,
    ← List.append_assoc, List.getLast?_concat] at hc
  obtain rfl := Option.some.inj hc
  rfl

theorem outputName_inj {n n' : Node} {k l : Nat}
    (h : ImportState.outputName n k = ImportState.outputName n' l) : n.name = n'.name ∧ k = l := by
  obtain ⟨hname, hnum⟩ := append_number_inj (endsPlain_append_out n.name)
    (endsPlain_append_out n'.name) h
  have hlist := congrArg String.toList hname
  rw [String.toList_append, String.toList_append] at hlist
  exact ⟨String.toList_inj.mp (List.append_cancel_right hlist), hnum⟩

lemma outputName_ne_empty (n : Node) (k : Nat) : ImportState.outputName n k ≠ "" := by
  intro h
  have := congrArg String.toList h
  simp [ImportState.outputName] at this

lemma inputName_ne_empty (k : Nat) : s!"input{k}" ≠ "" := by
  intro h
  have := congrArg String.toList h
  simp at this

lemma endsPlain_input : EndsPlain "input" := by
  intro c hc
  obtain rfl : 't' = c := Option.some.inj hc
  rfl

theorem inputName_inj {k l : Nat} (h : s!"input{k}" = s!"input{l}") : k = l :=
  (append_number_inj endsPlain_input endsPlain_input h).2

theorem outputName_ne_inputName (n : Node) (k l : Nat) :
    ImportState.outputName n k ≠ s!"input{l}" := by
  intro h
  obtain ⟨hname, -⟩ := append_number_inj (endsPlain_append_out n.name) endsPlain_input h
  have hsuffix : "_out".toList <:+ "input".toList := by
    rw [← hname, String.toList_append]
    exact List.suffix_append _ _
  exact absurd hsuffix (by decide)

end TensorGraph
