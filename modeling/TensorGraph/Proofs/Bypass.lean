import Mathlib.Logic.Relation
import TensorGraph.Proofs.Bypass.Run
import TensorGraph.Proofs.Order

/-!
# Reading past an identity

To read the output of an identity that is left out is to read its operand: a well-formed model whose
reads are led past such identities, one by one, is imported to the same graph (`importGraph_bypass`).
-/

namespace TensorGraph

open Onnx ModelMessage Registry

variable {m m' : ModelMessage} {a x y : String} {s s' : ImportState} {p : Passage}
  {ps : List Passage} {rest rest' : List NodeMessage} {raw raw' n n' : NodeMessage} {g : Graph}
  {checkFirst : Bool} {i j k : Nat}

namespace Onnx.ModelMessage

/-- What a node of a well-formed model reads, only nodes before it write. -/
lemma WellFormed.lt_of_read (hm : m.WellFormed) (hn : m.nodes[i]? = some n) (hx : x ∈ n.inputs)
    (hne : x ≠ "") (hn' : m.nodes[j]? = some n') (hx' : x ∈ n'.outputs) : j < i := by
  obtain ⟨before, after, hsplit, rfl⟩ := split_of_getElem? hn
  by_contra hle
  refine hm.not_written_of_read hsplit hx (mem_written.mpr ⟨hne, n', ?_, hx'⟩)
  rw [hsplit, List.getElem?_append_right (Nat.not_lt.mp hle)] at hn'
  exact List.mem_of_getElem? hn'

section Redirect

variable (hm : m.WellFormed) (hnodes : List.Forall₂ (NodeMessage.Redirected y a) m.nodes m'.nodes)
  (hraw : raw ∈ m.nodes) (hread : a ∈ raw.inputs) (hwrite : y ∈ raw.outputs) (hne : y ≠ "")

include hm hnodes hraw hread hwrite hne

/-- What a node reads once it may read `a` instead of `y`, still only nodes before it write: a reader
of `y` stands behind a node that reads `a`. -/
lemma WellFormed.lt_of_redirected (hn : m'.nodes[i]? = some n) (hx : x ∈ n.inputs) (hxne : x ≠ "")
    (hn' : m'.nodes[j]? = some n') (hx' : x ∈ n'.outputs) : j < i := by
  obtain ⟨n₀, hn₀, hred⟩ := forall₂_getElem? hnodes hn
  obtain ⟨n₀', hn₀', hred'⟩ := forall₂_getElem? hnodes hn'
  rw [hred'.eq] at hx'
  obtain ⟨k, hk⟩ := List.getElem?_of_mem hx
  obtain ⟨z, hz, hxz⟩ := forall₂_getElem? hred.inputs hk
  rcases hxz with rfl | ⟨rfl, rfl⟩
  · exact hm.lt_of_read hn₀ (List.mem_of_getElem? hz) hxne hn₀' hx'
  · obtain ⟨l, hl⟩ := List.getElem?_of_mem hraw
    exact Nat.lt_trans (hm.lt_of_read hl hread hxne hn₀' hx')
      (hm.lt_of_read hn₀ (List.mem_of_getElem? hz) hne hl hwrite)

/-- Reads of `y` may become reads of `a` where a node reads `a` that writes `y`. -/
theorem WellFormed.redirect (hinputs : m'.inputs = m.inputs)
    (harrays : m'.initializers = m.initializers) : m'.WellFormed := by
  have houtputs : m'.nodes.map NodeMessage.outputs = m.nodes.map NodeMessage.outputs :=
    map_eq_map_of_forall₂ hnodes fun _ _ h => by rw [h.eq]
  have hwritten : written m'.nodes = written m.nodes := by
    have := congrArg (List.flatMap named) houtputs
    simpa only [written, List.flatMap_map] using this
  exact {
    inputs_nodup := by rw [inputNames, hinputs]; exact hm.inputs_nodup
    initializers_nodup := by rw [initializerNames, harrays]; exact hm.initializers_nodup
    written_nodup := hwritten ▸ hm.written_nodup
    written_inputs := by rw [hwritten, inputNames, hinputs]; exact hm.written_inputs
    written_initializers := by rw [hwritten, initializerNames, harrays]; exact hm.written_initializers
    irreflexive := by
      intro n hn x hx hx'
      obtain ⟨i, hi⟩ := List.getElem?_of_mem hn
      obtain ⟨hx, hxne⟩ := mem_named.mp hx
      exact Nat.lt_irrefl i (hm.lt_of_redirected hnodes hraw hread hwrite hne hi hx hxne hi hx')
    ordered := by
      refine List.pairwise_iff_getElem.mpr fun i j hi hj hij x hx hx' => ?_
      obtain ⟨hx, hxne⟩ := mem_named.mp hx
      exact Nat.lt_asymm hij (hm.lt_of_redirected hnodes hraw hread hwrite hne
        (List.getElem?_eq_getElem hi) hx hxne (List.getElem?_eq_getElem hj) hx')
    single := by
      intro n hn hop
      obtain ⟨i, hi⟩ := List.getElem?_of_mem hn
      obtain ⟨n₀, hn₀, hred⟩ := forall₂_getElem? hnodes hi
      rw [hred.eq]
      exact hm.single n₀ (List.mem_of_getElem? hn₀) (hred.operator ▸ hop) }

end Redirect

/-- Where the attributes can be read, a well-formed model passes the check of the order. -/
lemma WellFormed.checkOrder (hm : m.WellFormed)
    (hattr : ∀ raw ∈ m.nodes, ∃ attributes, raw.toAttributes = .ok attributes) :
    m.checkOrder = .ok () := by
  refine checkOrder_eq_ok hattr fun i k j x h => ?_
  obtain ⟨n, hn, hk⟩ := h.reads
  obtain ⟨n', hn', hx⟩ := h.writes
  exact absurd (hm.lt_of_read hn (List.mem_of_getElem? hk) h.named hn' hx) (Nat.lt_asymm h.lt)

/-- A check beforehand changes nothing about the import of a well-formed model. -/
lemma WellFormed.importState_eq_ok (hm : m.WellFormed) (h : m.importState false = .ok s) :
    m.importState checkFirst = .ok s := by
  cases checkFirst with
  | false => exact h
  | true =>
    obtain ⟨ps, run⟩ := TensorGraph.importState_eq_ok.mp h
    have hdef : m.importState true = m.checkOrder >>= fun _ => m.importState false := rfl
    rw [hdef, hm.checkOrder fun raw hraw => run.attributes hraw]
    exact h

/-! ## Identities that are left out -/

/-- The import of the model leaves out an Identity from `a` to `y`: what it reads is no literal, and
what it writes is no graph output. -/
inductive LeavesOut (m : ModelMessage) (a y : String) : Prop where
  | intro {ps : List Passage} {raw : NodeMessage} {rest : List NodeMessage} {s : ImportState}
      {v : Value} (run : Run m ps (raw :: rest) s) (operator : raw.operator = "Identity")
      (input : raw.inputs.head? = some a) (output : raw.outputs.head? = some y)
      (resolve : s.registry.resolve a = .ok v) (bare : v.literal = none) (inner : y ∉ m.outputNames)

/-- The model with `x` for the operand `k` of the node at position `i`. -/
def replaceRead (m : ModelMessage) (i k : Nat) (x : String) : ModelMessage :=
  { m with nodes := m.nodes.modify i fun n => { n with inputs := n.inputs.set k x } }

/-- One read of what an Identity writes that is left out becomes a read of what the Identity reads. If
that has no name, the reader is no addition to a product without a name. -/
inductive Bypass : ModelMessage → ModelMessage → Prop where
  | intro {m : ModelMessage} {a y : String} {i k : Nat} {n : NodeMessage} (identity : m.LeavesOut a y)
      (node : m.nodes[i]? = some n) (read : n.inputs[k]? = some y)
      (apart : a = "" → ¬ m.AddsToUnnamed i) : Bypass m (m.replaceRead i k a)

end Onnx.ModelMessage

/-- An Identity is taken over by no other node. -/
lemma Step.Front.message_of_identity (step : Step.Front s p) (hraw : raw ∈ p.messages)
    (hop : raw.operator = "Identity") : p.message = raw := by
  rcases Passage.mem_messages.mp hraw with rfl | ⟨hc, hnext⟩
  · rfl
  · obtain ⟨-, -, sum, add, bias, hsum, convert, adds⟩ := step.taken hc
    obtain rfl := Option.some.inj (hnext.symm.trans hsum)
    have hknown := (convert_ok convert).1
    rw [NodeMessage.knownOperator, hop, adds.operator] at hknown
    exact absurd (Except.ok.inj hknown) (by decide)

/-- The import of a well-formed model leaves out the Identities that read no array and do not write a
graph output. -/
theorem Onnx.ModelMessage.leavesOut_iff (hm : m.WellFormed) (hin : m.InputsNamed)
    (h : m.importGraph checkFirst = .ok g) :
    m.LeavesOut a y ↔ (∃ raw ∈ m.nodes, raw.operator = "Identity" ∧ raw.inputs.head? = some a ∧
      raw.outputs.head? = some y) ∧ (a ∈ m.initializerNames → a = "") ∧ y ∉ m.outputNames := by
  constructor
  · rintro @⟨ps, raw, rest, s, v, run, hop, ha, hy, hresolve, hbare, hinner⟩
    refine ⟨⟨raw, by simp [← run.messages], hop, ha, hy⟩, fun harray => ?_, hinner⟩
    by_contra hne
    obtain ⟨r, hr⟩ := run.registry_eq_ok
    have := ((run.registered hm hin hr).isSome_literal_resolve hm hne hresolve).mpr harray
    simp [hbare] at this
  · rintro ⟨⟨raw, hraw, hop, ha, hy⟩, harray, hinner⟩
    obtain ⟨ps, s, run, -⟩ := importGraph_ok h
    rw [← run.messages, List.append_nil] at hraw
    obtain ⟨p, hp, hraw⟩ := List.mem_flatMap.mp hraw
    obtain ⟨before, after, hps⟩ := List.append_of_mem hp
    obtain ⟨rest, s₁, s₂, run₁, -, step, -⟩ := run.split_grows hps
    obtain rfl := step.message_of_identity hraw hop
    obtain ⟨v, -, hresolve⟩ :=
      forall₂_exists_of_mem (convert_ok step.convert).2.2.1 (List.mem_of_head? ha)
    refine .intro run₁ hop ha hy hresolve ?_ hinner
    by_cases hne : a = ""
    · rw [hne, resolve_empty] at hresolve
      rw [← Except.ok.inj hresolve]
    obtain ⟨r, hr⟩ := run₁.registry_eq_ok
    have hliteral := (run₁.registered hm hin hr).isSome_literal_resolve hm hne hresolve
    exact Option.not_isSome_iff_eq_none.mp fun hv => hne (harray (hliteral.mp hv))

section Reader

variable (hm : m.WellFormed) {before : List NodeMessage} (hnodes : m.nodes = before ++ raw :: rest)

include hnodes

lemma getElem?_identity : m.nodes[before.length]? = some raw := by
  rw [hnodes, List.getElem?_append_right (Nat.le_refl _), Nat.sub_self, List.getElem?_cons_zero]

lemma getElem?_behind (l : Nat) : m.nodes[before.length + 1 + l]? = rest[l]? := by
  rw [hnodes, List.getElem?_append_right (by omega),
    show before.length + 1 + l - before.length = l + 1 by omega, List.getElem?_cons_succ]

lemma nodes_replaceRead {l : Nat} (hn : rest[l]? = some n) :
    (m.replaceRead (before.length + 1 + l) k a).nodes =
      before ++ raw :: rest.set l { n with inputs := n.inputs.set k a } := by
  have hn' := (getElem?_behind hnodes l).trans hn
  rw [replaceRead, List.modify_eq_set_getElem?, hn', hnodes, Option.map_eq_map, Option.map_some,
    Option.getD_some, List.set_append_right _ _ (by omega),
    show before.length + 1 + l - before.length = l + 1 by omega, List.set_cons_succ]

variable (hwrite : y ∈ raw.outputs) (hne : y ≠ "")

include hm hwrite hne

lemma exists_behind (hn : m.nodes[i]? = some n) (hk : n.inputs[k]? = some y) :
    ∃ l, i = before.length + 1 + l ∧ rest[l]? = some n := by
  have hlt := hm.lt_of_read hn (List.mem_of_getElem? hk) hne (getElem?_identity hnodes) hwrite
  obtain ⟨l, rfl⟩ := Nat.exists_eq_add_of_lt hlt
  rw [Nat.add_right_comm] at hn
  exact ⟨l, Nat.add_right_comm _ _ _, (getElem?_behind hnodes l).symm.trans hn⟩

/-- The messages behind the Identity, with one read led past it. -/
lemma redirects_set {l : Nat} (hread : a ∈ raw.inputs) (hn : rest[l]? = some n)
    (hk : n.inputs[k]? = some y) (hapart : a = "" → ¬ m.AddsToUnnamed (before.length + 1 + l)) :
    Redirects y a rest (rest.set l { n with inputs := n.inputs.set k a }) := by
  have hredirected : n.Redirected y a { n with inputs := n.inputs.set k a } :=
    ⟨rfl, forall₂_set (fun _ => .inl rfl) hk (.inr ⟨rfl, rfl⟩)⟩
  refine ⟨forall₂_set (.refl y a) hn hredirected, fun j product hproduct hop add hadd haddop => ?_⟩
  by_cases hl : j + 1 = l
  swap
  · exact .inl (List.getElem?_set_ne (Ne.symm hl))
  -- the product stands behind the Identity, so that it writes neither of the two names
  subst hl
  have hproduct' := (getElem?_behind hnodes j).trans hproduct
  have hadd' := (getElem?_behind hnodes (j + 1)).trans hadd
  refine .inr fun o ho => ⟨?_, ?_⟩
  · rintro rfl
    have hsplit : m.nodes = (before ++ [raw]) ++ rest := by rw [hnodes, List.append_cons]
    refine hm.disjoint hsplit (x := o) ?_ ?_
    · exact mem_written.mpr ⟨hne, raw, by simp, hwrite⟩
    · exact mem_written.mpr ⟨hne, product, List.mem_of_getElem? hproduct, List.mem_of_head? ho⟩
  · rintro rfl
    by_cases hempty : o = ""
    · subst hempty
      exact hapart rfl ⟨product, add, hproduct', hop, ho, hadd', haddop⟩
    · have hlt := hm.lt_of_read (getElem?_identity hnodes) hread hempty hproduct'
        (List.mem_of_head? ho)
      omega

end Reader

/-- The import goes the same way past the identity, and on to a state of the same graph. -/
theorem Onnx.ModelMessage.Bypass.importState (hb : m.Bypass m') (hm : m.WellFormed)
    (h : m.importState false = .ok s) :
    m'.WellFormed ∧ ∃ t, m'.importState false = .ok t ∧ s.Twin t := by
  obtain @⟨a, y, i, k, n, hleft, hn, hk, hapart⟩ := hb
  obtain @⟨ps, raw, rest, s₁, v, run, hop, hin, hout, hresolve, hbare, hinner⟩ := hleft
  have hsplit := run.messages.symm
  have hraw : raw ∈ m.nodes := by simp [hsplit]
  obtain ⟨y', hne, houtputs⟩ := hm.single_output hraw (.inr hop)
  obtain rfl : y' = y := by simpa [houtputs] using hout
  have hread := List.mem_of_head? hin
  have hwrite := List.mem_of_head? hout
  -- the reader stands behind the identity
  obtain ⟨l, rfl, hl⟩ := exists_behind hm hsplit hwrite hne hn hk
  have hredirects := redirects_set hm hsplit hwrite hne hread hl hk hapart
  generalize hm' : m.replaceRead ((ps.flatMap Passage.messages).length + 1 + l) k a = m'
  generalize hrest' : rest.set l { n with inputs := n.inputs.set k a } = rest' at hredirects
  have hnodes : m'.nodes = ps.flatMap Passage.messages ++ raw :: rest' := by
    rw [← hm', ← hrest']
    exact nodes_replaceRead hsplit hl
  have hwf : m'.WellFormed := by
    refine hm.redirect ?_ hraw hread hwrite hne (by rw [← hm']; rfl) (by rw [← hm']; rfl)
    rw [hnodes, hsplit]
    exact List.rel_append (List.forall₂_same.mpr fun n _ => .refl y' a n)
      (.cons (.refl y' a raw) hredirects.messages)
  have hr : ofModel m' = ofModel m := by rw [← hm']; rfl
  exact ⟨hwf, run.importState_redirect hm hop hin houtputs hresolve hbare hinner hredirects hr
    hnodes h⟩

theorem Onnx.ModelMessage.Bypass.importGraph (hb : m.Bypass m') (hm : m.WellFormed)
    (h : m.importGraph checkFirst = .ok g) :
    m'.WellFormed ∧ m'.importGraph checkFirst = .ok g := by
  have hname : m'.name = m.name := by
    cases hb
    rfl
  simp only [ModelMessage.importGraph, Except.bind_eq_ok, Except.pure_eq_ok] at h ⊢
  obtain ⟨s, hs, rfl⟩ := h
  obtain ⟨hm', t, ht, htwin⟩ := hb.importState hm (importState_of_check hs)
  exact ⟨hm', t, hm'.importState_eq_ok ht, by rw [htwin.graph, hname]⟩

/-- A well-formed model that is imported is imported to the same graph when some of its reads of what
identities write that are left out, one after another, become reads of what these read. -/
theorem importGraph_bypass (hm : m.WellFormed) (h : m.importGraph checkFirst = .ok g)
    (hb : Relation.ReflTransGen Bypass m m') : m'.importGraph checkFirst = .ok g := by
  suffices m'.WellFormed ∧ m'.importGraph checkFirst = .ok g from this.2
  induction hb with
  | refl => exact ⟨hm, h⟩
  | tail _ hb ih => exact hb.importGraph ih.1 ih.2

/-- A Relu behind two identities, one after the other. -/
def identityChain : ModelMessage where
  inputs := [{ name := "x", elementType := 1, dims := [.size 2] }]
  outputs := [{ name := "y", elementType := 1, dims := [.size 2] }]
  nodes := [
    { operator := "Identity", inputs := ["x"], outputs := ["i"] },
    { operator := "Identity", inputs := ["i"], outputs := ["j"] },
    { operator := "Relu", inputs := ["j"], outputs := ["y"] }]

/-- The Relu may read the graph input. -/
theorem importGraph_bypass_identityChain :
    identityChain.WellFormed ∧
      Relation.ReflTransGen Bypass identityChain
        ((identityChain.replaceRead 2 0 "i").replaceRead 2 0 "x") ∧
      ∃ g, identityChain.importGraph false = .ok g ∧
        ((identityChain.replaceRead 2 0 "i").replaceRead 2 0 "x").importGraph false = .ok g := by
  have hm : identityChain.WellFormed := by decide
  obtain ⟨g, hg, -⟩ : ∃ g, identityChain.importGraph false = .ok g ∧ True :=
    Except.exists_ok (by decide +kernel)
  have hfirst : Bypass identityChain (identityChain.replaceRead 2 0 "i") :=
    .intro ((leavesOut_iff hm (by decide) hg).mpr (by decide)) rfl rfl (by simp)
  obtain ⟨hm', hg'⟩ := hfirst.importGraph hm hg
  have hsecond : Bypass (identityChain.replaceRead 2 0 "i")
      ((identityChain.replaceRead 2 0 "i").replaceRead 2 0 "x") :=
    .intro (y := "i") ((leavesOut_iff hm' (by decide) hg').mpr (by decide)) rfl rfl (by simp)
  have hchain := Relation.ReflTransGen.head hfirst (.single hsecond)
  exact ⟨hm, hchain, g, hg, importGraph_bypass hm hg hchain⟩

/-- An Identity without an operand, a product without a name, and an addition to what the Identity
writes. -/
def unnamedProduct : ModelMessage where
  inputs := [{ name := "x", elementType := 7, dims := [.size 2, .size 3] }]
  outputs := [{ name := "z", elementType := 7, dims := [.size 2, .size 2] }]
  initializers := [
    { name := "w", dataType := 7, dims := [3, 2], int64s := [1, 2, 3, 4, 5, 6] },
    { name := "b", dataType := 7, dims := [2], int64s := [7, 8] }]
  nodes := [
    { operator := "Identity", inputs := [""], outputs := ["y"] },
    { operator := "MatMul", inputs := ["x", "w"], outputs := [""] },
    { operator := "Add", inputs := ["y", "b"], outputs := ["z"] }]

/-- When the addition reads nothing instead, the product takes it over. -/
theorem unnamedProduct_replaceRead :
    unnamedProduct.WellFormed ∧ unnamedProduct.InputsNamed ∧ unnamedProduct.ConstantsClosed ∧
      unnamedProduct.NoGenerated ∧ unnamedProduct.LeavesOut "" "y" ∧
      (∃ n ∈ unnamedProduct.nodes[2]?, n.inputs[0]? = some "y") ∧
      ∃ g, unnamedProduct.importGraph false = .ok g ∧
        (unnamedProduct.replaceRead 2 0 "").importGraph false ≠ .ok g := by
  have hm : unnamedProduct.WellFormed := by decide
  obtain ⟨g, hg, hlength⟩ : ∃ g, unnamedProduct.importGraph false = .ok g ∧ g.nodes.length = 2 :=
    Except.exists_ok (by decide +kernel)
  obtain ⟨g', hg', hlength'⟩ : ∃ g, (unnamedProduct.replaceRead 2 0 "").importGraph false = .ok g ∧
      g.nodes.length = 1 := Except.exists_ok (by decide +kernel)
  refine ⟨hm, by decide, by decide, by decide, ?_, by decide, g, hg, fun h => ?_⟩
  · exact (leavesOut_iff hm (by decide) hg).mpr (by decide)
  · obtain rfl := Except.ok.inj (hg'.symm.trans h)
    omega

end TensorGraph
