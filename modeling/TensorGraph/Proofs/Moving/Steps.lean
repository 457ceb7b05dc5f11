import TensorGraph.Proofs.Import.Messages
import TensorGraph.Proofs.Import.Numbering
import TensorGraph.Proofs.Import.Tracking
import TensorGraph.Proofs.Moving.Model
import TensorGraph.Proofs.Moving.Typing

/-!
# Steps with an array moved into a Constant

Two imports take the same message, of which the one knows an array and the other a Constant that has
written it. Where they fuse the node alike, they know the same after it (`Step.moved_alike`).
-/

namespace TensorGraph

open Onnx ModelMessage Registry ImportState

variable {m : ModelMessage} {a : Value} {outer : String → Option Nat}
  {gone : String → Option ValueType} {pending : List String}
  {r r' : Registry} {s s' s₁ s₁' : ImportState} {t : TensorMessage} {p p' : Passage}
  {before rest : List NodeMessage} {n n' f f' : Node} {vs ws outputs : List Value} {x y : String}

section Push

lemma sourceOf_push (he : s₁.elisions = s.elisions) (x : String) :
    (s₁.push r f).sourceOf x = s.sourceOf x := by
  simp only [sourceOf, push, he]

lemma sourceOf_push_insert {e : Elision} (he : s₁.elisions = s.elisions.insert y e) (x : String) :
    (s₁.push r f).sourceOf x = if x = y then e.source else s.sourceOf x := by
  by_cases hx : x = y
  · simp only [sourceOf, push, he, hx, Table.get?_insert_self, if_true]
  · simp only [sourceOf, push, he, Table.get?_insert_of_ne _ _ hx, if_neg hx]

variable (hp : s.Placed pending) (hnodes : s₁.nodes = s.nodes)

include hp hnodes

/-- A node that is added does not change what the nodes before it have written. -/
lemma known?_push_of_eq (hc : s₁.constants.get? x = s.constants.get? x) :
    (s₁.push r f).known? x = s.known? x := by
  simp only [known?, push, hc, hnodes]
  cases hi : s.constants.get? x with
  | none => rfl
  | some i => simp only [Option.bind_some, List.getElem?_append_left (hp.constant hi).2]

lemma known?_push (hc : s₁.constants = s.constants) (x : String) :
    (s₁.push r f).known? x = s.known? x :=
  known?_push_of_eq hp hnodes (by rw [hc])

lemma known?_push_insert (hc : s₁.constants = s.constants.insert y s.place) (x : String) :
    (s₁.push r f).known? x = if x = y then (literalOf f).toOption else s.known? x := by
  split
  · next hx =>
    simp only [known?, push, hc, hx, Table.get?_insert_self, Option.bind_some, hnodes, place,
      List.getElem?_concat_length]
  · next hx => exact known?_push_of_eq hp hnodes (by rw [hc, Table.get?_insert_of_ne _ _ hx])

omit hnodes

/-- A name that is still to be written stands for itself alone. -/
lemma sourceOf_eq_iff (hy : y ∈ pending) : s.sourceOf x = y ↔ x = y := by
  unfold sourceOf
  cases he : s.elisions.get? x with
  | none => exact Iff.rfl
  | some e =>
    obtain ⟨hx, hsource⟩ := hp.elided he
    simp only
    exact ⟨fun e => absurd (e ▸ hy) hsource, fun e => absurd (e ▸ hy) hx⟩

end Push

/-- A Constant or an identity is added as it is, up to what its operands are called. -/
def Node.FinalOf (n f : Node) : Prop :=
  isTransparent n.operator = true →
    f.attributes = n.attributes ∧ Option.Rel Value.Same n.inputs.head? f.inputs.head?

lemma Node.FinalOf.literalOf (h : n.FinalOf f) (hop : isTransparent n.operator = true) :
    Option.Rel Value.Same (literalOf n).toOption (literalOf f).toOption :=
  literalOf_congr (h hop).1 (h hop).2

lemma rel_trans {u v w : Option Value} (h : Option.Rel Value.Same u v)
    (h' : Option.Rel Value.Same v w) : Option.Rel Value.Same u w := by
  cases h with
  | none => exact h'
  | some h =>
    cases h' with
    | some h' => exact .some (h.trans h')

lemma rel_symm {u v : Option Value} (h : Option.Rel Value.Same u v) :
    Option.Rel Value.Same v u := by
  cases h with
  | none => exact .none
  | some h => exact .some h.symm

namespace ImportState.LiftsAlike

variable (h : LiftsAlike a outer s s') (hp : s.Placed pending) (hp' : s'.Placed pending)
  (hnodes : s₁.nodes = s.nodes) (hnodes' : s₁'.nodes = s'.nodes)

include h hp hp' hnodes hnodes'

lemma push_same (elisions : s₁.elisions = s.elisions) (elisions' : s₁'.elisions = s'.elisions)
    (constants : s₁.constants = s.constants) (constants' : s₁'.constants = s'.constants) :
    LiftsAlike a outer (s₁.push r f) (s₁'.push r' f') := by
  have hs := sourceOf_push (r := r) (f := f) elisions
  have hs' := sourceOf_push (r := r') (f := f') elisions'
  have hk := known?_push (r := r) (f := f) hp hnodes constants
  have hk' := known?_push (r := r') (f := f') hp' hnodes' constants'
  constructor <;> simp only [hs, hs', hk, hk']
  exacts [h.known, h.empty, h.source, h.source', h.unknown, h.literal]

/-- An identity of an operand that both read alike is left out in both. -/
lemma push_left (hx : Readable a outer x) (hya : y ≠ a.name)
    (elisions : s₁.elisions = s.elisions.insert y ⟨s.place, s.sourceOf x⟩)
    (elisions' : s₁'.elisions = s'.elisions.insert y ⟨s'.place, s'.sourceOf x⟩)
    (constants : s₁.constants = s.constants) (constants' : s₁'.constants = s'.constants) :
    LiftsAlike a outer (s₁.push r f) (s₁'.push r' f') := by
  have hs := sourceOf_push_insert (r := r) (f := f) elisions
  have hs' := sourceOf_push_insert (r := r') (f := f') elisions'
  have hk := known?_push (r := r) (f := f) hp hnodes constants
  have hk' := known?_push (r := r') (f := f') hp' hnodes' constants'
  constructor <;> simp only [hs, hs', hk, hk']
  · intro z hz
    split
    · exact h.known x hx
    · exact h.known z hz
  · intro z hz
    split
    · exact h.empty x hx
    · exact h.empty z hz
  · rw [if_neg hya.symm, h.source]
  · rw [if_neg hya.symm, h.source']
  · exact h.unknown
  · exact h.literal

/-- Both write the same literal. -/
lemma push_writes (hy : y ∈ pending) (hya : y ≠ a.name)
    (elisions : s₁.elisions = s.elisions) (elisions' : s₁'.elisions = s'.elisions)
    (constants : s₁.constants = s.constants.insert y s.place)
    (constants' : s₁'.constants = s'.constants.insert y s'.place)
    (literal : Option.Rel Value.Same (literalOf f).toOption (literalOf f').toOption) :
    LiftsAlike a outer (s₁.push r f) (s₁'.push r' f') := by
  have hs := sourceOf_push (r := r) (f := f) elisions
  have hs' := sourceOf_push (r := r') (f := f') elisions'
  have hk := known?_push_insert (r := r) (f := f) hp hnodes constants
  have hk' := known?_push_insert (r := r') (f := f') hp' hnodes' constants'
  constructor <;> simp only [hs, hs', hk, hk']
  · intro z hz
    simp only [sourceOf_eq_iff hp hy, sourceOf_eq_iff hp' hy]
    split
    · exact literal
    · exact h.known z hz
  · exact h.empty
  · exact h.source
  · exact h.source'
  · rw [if_neg hya.symm, h.unknown]
  · rw [if_neg hya.symm]
    exact h.literal

/-- An identity of the array writes it as a literal in the one, and is left out in the other. -/
lemma push_moved (ha : a.name ≠ "") (hy : y ∈ pending) (hne : y ≠ "") (hya : y ≠ a.name)
    (elisions : s₁.elisions = s.elisions)
    (elisions' : s₁'.elisions = s'.elisions.insert y ⟨s'.place, a.name⟩)
    (constants : s₁.constants = s.constants.insert y s.place)
    (constants' : s₁'.constants = s'.constants)
    (literal : Option.Rel Value.Same (some a) (literalOf f).toOption) :
    LiftsAlike a outer (s₁.push r f) (s₁'.push r' f') := by
  have hs := sourceOf_push (r := r) (f := f) elisions
  have hs' := sourceOf_push_insert (r := r') (f := f') elisions'
  have hk := known?_push_insert (r := r) (f := f) hp hnodes constants
  have hk' := known?_push (r := r') (f := f') hp' hnodes' constants'
  constructor <;> simp only [hs, hs', hk, hk']
  · intro z hz
    simp only [sourceOf_eq_iff hp hy]
    split
    · obtain ⟨b, hb, hab⟩ := h.literal
      rw [hb]
      exact rel_trans (rel_symm literal) (.some hab)
    · exact h.known z hz
  · intro z hz
    split
    · next hzy =>
      rw [hzy, (sourceOf_eq_iff hp hy).mpr rfl]
      exact ⟨fun e => absurd e ha, fun e => absurd e hne⟩
    · exact h.empty z hz
  · exact h.source
  · rw [if_neg hya.symm, h.source']
  · rw [if_neg hya.symm, h.unknown]
  · exact h.literal

/-- What writes a graph output is read by no node, whatever literal it has. -/
lemma push_outer (hy : y ∈ pending) (hne : y ≠ "") (hya : y ≠ a.name) (houter : (outer y).isSome)
    (elisions : s₁.elisions = s.elisions) (elisions' : s₁'.elisions = s'.elisions)
    (constants : s₁.constants = s.constants.insert y s.place)
    (constants' : s₁'.constants = s'.constants) :
    LiftsAlike a outer (s₁.push r f) (s₁'.push r' f') := by
  have hs := sourceOf_push (r := r) (f := f) elisions
  have hs' := sourceOf_push (r := r') (f := f') elisions'
  have hk := known?_push_insert (r := r) (f := f) hp hnodes constants
  have hk' := known?_push (r := r') (f := f') hp' hnodes' constants'
  constructor <;> simp only [hs, hs', hk, hk']
  · intro z hz
    have hzy : z ≠ y := by
      rintro rfl
      exact hz.2.elim hne fun e => by simp [e] at houter
    rw [if_neg (mt (sourceOf_eq_iff hp hy).mp hzy)]
    exact h.known z hz
  · exact h.empty
  · exact h.source
  · exact h.source'
  · rw [if_neg hya.symm, h.unknown]
  · exact h.literal

/-- After a node both states still lift the same literals. -/
theorem push (effect : Effect a outer s s' s₁ s₁' outputs n n') (ha : a.name ≠ "")
    (hlit : a.literal.isSome)
    (hout : isTransparent n.operator = true → ∀ v vs, outputs = v :: vs →
      v.name ∈ pending ∧ v.name ≠ "" ∧ v.name ≠ a.name)
    (hf : n.FinalOf f) (hop : n'.operator = n.operator) (hf' : n'.FinalOf f') :
    LiftsAlike a outer (s₁.push r f) (s₁'.push r' f') := by
  cases effect with
  | same elisions elisions' constants constants' =>
    exact h.push_same hp hp' hnodes hnodes' elisions elisions' constants constants'
  | @left x y ys operator outputs readable elisions elisions' constants constants' =>
    obtain ⟨-, -, hya⟩ := hout operator y ys outputs
    exact h.push_left hp hp' hnodes hnodes' readable hya elisions elisions' constants constants'
  | @writes y ys operator outputs elisions elisions' constants constants' literal =>
    obtain ⟨hy, -, hya⟩ := hout operator y ys outputs
    have hwritten := hf.literalOf operator
    have hwritten' := hf'.literalOf (hop ▸ operator)
    exact h.push_writes hp hp' hnodes hnodes' hy hya elisions elisions' constants constants'
      (rel_trans (rel_symm hwritten) (rel_trans literal hwritten'))
  | @moved v y vs ys operator outputs elisions elisions' constants constants' inputs literal =>
    obtain ⟨hy, hne, hya⟩ := hout operator y ys outputs
    have hwritten := hf.literalOf operator
    rw [literalOf_head inputs (literal.literal ▸ hlit)] at hwritten
    exact h.push_moved hp hp' hnodes hnodes' ha hy hne hya elisions elisions' constants constants'
      (rel_trans (.some literal) hwritten)
  | @outer y ys operator outputs outer elisions elisions' constants constants' =>
    obtain ⟨hy, hne, hya⟩ := hout operator y ys outputs
    exact h.push_outer hp hp' hnodes hnodes' hy hne hya outer elisions elisions' constants constants'

end ImportState.LiftsAlike

/-! ## One step -/

/-- The first stages do the same in both runs, but that the array may be the matrix or the bias of a
layer that is made in the one run only. -/
lemma Step.Front.moved (hmov : m.Movable t) (ht : t.toValue = .ok a) (ha : a.name ≠ "")
    (hmem : p.message ∈ m.nodes) (h : s.Moved a outer gone pending s') (front : Front s p)
    (front' : Front s' p') (hmsg : p'.message = p.message) (hnext : p'.next = p.next)
    (hreads : ∀ raw ∈ p.message :: p.next.toList, ∀ x ∈ raw.inputs, gone x = none)
    (hout : ∀ x ∈ p.message.outputs.head?, x ≠ a.name) :
    p.specialised.Moved a outer p'.specialised ∧ p.specialised.Apart a ∧
      p.specialised.FusesApart a outer p.next p'.specialised p.fused p'.fused p.consumed
        p'.consumed := by
  have hconvert := Node.Moved.convert h.registry ha (hreads p.message List.mem_cons_self)
  have hconvert' : s'.registry.convert p.message = .ok p'.converted := hmsg ▸ front'.convert
  rw [front.convert, hconvert'] at hconvert
  obtain ⟨hnames, hconverted⟩ := hconvert
  have hspecialised := hconverted.specialise
  rw [front.specialise, front'.specialise] at hspecialised
  have hspecialised : p.specialised.Moved a outer p'.specialised := hspecialised
  refine ⟨hspecialised, hmov.apart ht hmem front.convert hnames front.specialise, ?_⟩
  refine hspecialised.fuse h.registry ha (fun raw hraw => hreads raw (by simp [Option.mem_def.mp hraw]))
    (fun o ho => ?_) front.fuse (hnext ▸ front'.fuse)
  rw [front.outputs_specialised, List.head?_map] at ho
  obtain ⟨x, hx, rfl⟩ := Option.map_eq_some_iff.mp ho
  exact hout x hx

/-- The node of a passage is added with the attributes that it had, and with its first operand. -/
lemma Step.finalOf (step : Step s p s₁) : p.lifted.FinalOf p.final := by
  intro ht
  have hreshaped : p.reshaped = p.lifted := by
    cases step.reshapes with
    | same node => exact node
    | reshape operator => simp [operator, isTransparent] at ht
  obtain ⟨outputs, -, hinfer⟩ := infer_ok step.infer
  have hinputs := step.renameInputs
  rw [step.inputs_typed, hreshaped] at hinputs
  refine ⟨?_, ?_⟩
  · rw [Passage.final, hinfer, hreshaped]
  · show Option.Rel _ _ p.inputs.head?
    cases hvs : p.lifted.inputs with
    | nil =>
      rw [hvs] at hinputs
      rw [← (Prod.mk.inj (Except.ok.inj hinputs)).2]
      exact .none
    | cons v vs =>
      rw [hvs] at hinputs
      obtain ⟨name, _, _, -, -, hws⟩ := renameInputs_cons_ok hinputs
      rw [hws]
      refine .some ?_
      cases name <;> exact ⟨rfl, rfl⟩

section Passage

variable (hm : m.WellFormed) (hnodes : m.nodes = before ++ p.message :: rest)
  (next : p.next = rest.head?)

include hm hnodes next

/-- What a passage writes is not written by the messages after it. -/
lemma Step.not_written_rest (hx : x ∈ p.outputNames) :
    x ∉ written (if p.consumed then rest.tail else rest) := by
  intro hw
  have hne := (mem_written.mp hw).1
  have hsplit : m.nodes =
      (before ++ p.messages) ++ (if p.consumed then rest.tail else rest) := by
    rw [List.append_assoc, Passage.messages_append next, hnodes]
  refine hm.disjoint hsplit ?_ hw
  rw [written_append]
  exact List.mem_append_right _ (Passage.written_of_mem_outputNames hx hne)

omit hm hnodes in
lemma Step.written_rest_subset :
    written (if p.consumed then rest.tail else rest) ⊆ written (p.message :: rest) := by
  rw [← Passage.messages_append next, written_append]
  exact List.subset_append_right _ _

omit hm hnodes in
/-- What a passage writes under a name is still to be written before it. -/
lemma Step.mem_written_of_mem_outputNames (hx : x ∈ p.outputNames) (hne : x ≠ "") :
    x ∈ written (p.message :: rest) := by
  rw [← Passage.messages_append next, written_append]
  exact List.mem_append_left _ (Passage.written_of_mem_outputNames hx hne)

/-- After a passage the names that are led past identities, or stand for literals, are written. -/
lemma Step.placed (hread : ∀ x v, s.registry.resolve x = .ok v → v.name = x)
    (h : s.Placed (written (p.message :: rest))) (step : Step s p s₁) :
    s₁.Placed (written (if p.consumed then rest.tail else rest)) where
  elided {x e} he := by
    have hold : s.elisions.get? x = some e →
        x ∉ written (if p.consumed then rest.tail else rest) ∧
          e.source ∉ written (if p.consumed then rest.tail else rest) := fun he =>
      (h.elided he).imp (mt fun hx => written_rest_subset next hx)
        (mt fun hx => written_rest_subset next hx)
    cases step.elision with
    | past _ _ elisions => exact hold (elisions ▸ he)
    | @out z y u ys _ _ message outputs resolve _ _ elisions =>
      rw [elisions, Table.get?_insert] at he
      split at he
      · next hx =>
        obtain rfl := Option.some.inj he
        refine ⟨not_written_rest hm hnodes next (by simp [outputs, hx]), ?_⟩
        rw [hread z u resolve]
        unfold sourceOf
        cases hz : s.elisions.get? z with
        | some e => exact mt (fun hx => written_rest_subset next hx) (h.elided hz).2
        | none =>
          exact mt (fun hx => written_rest_subset next hx) (hm.not_written_of_read hnodes message)
      · exact hold he
  constant {x i} hc := by
    have hlen : s₁.nodes.length = s.nodes.length + 1 := by rw [step.nodes]; simp
    have hold : s.constants.get? x = some i →
        x ∉ written (if p.consumed then rest.tail else rest) ∧ i < s₁.nodes.length := fun hc =>
      (h.constant hc).imp (mt fun hx => written_rest_subset next hx) fun hi => by omega
    cases step.literals with
    | reads _ _ constants => exact hold (constants ▸ hc)
    | writes _ outputs _ constants =>
      rw [constants, Table.get?_insert] at hc
      split at hc
      · next hx =>
        obtain rfl := Option.some.inj hc
        refine ⟨not_written_rest hm hnodes next (by simp [outputs, hx]), ?_⟩
        rw [place]
        omega
      · exact hold hc

end Passage

lemma Step.Body.name_eq_reshaped (body : Body s p) : p.typed.name = p.reshaped.name := by
  obtain ⟨outputs, -, hinfer⟩ := infer_ok body.infer
  rw [hinfer]

lemma ImportState.Moved.nameNode (h : s.Moved a outer gone pending s') (hn : n.Moved a outer n') :
    (s.nameNode n).1.Moved a outer gone pending (s'.nameNode n').1 ∧
      (s.nameNode n).2.Moved a outer (s'.nameNode n').2 ∧
      (n.operator.recounted = false → (s'.nameNode n').2.name = (s.nameNode n).2.name) := by
  refine ⟨{ h with counts := fun o ho => ?_ }, ⟨hn.operator, hn.attributes, hn.inputs, hn.outputs⟩,
    fun hop => ?_⟩
  · simp only [ImportState.nameNode, Table.get?_insert, hn.operator]
    split
    · next hop => rw [h.counts _ (hop ▸ ho)]
    · exact h.counts o ho
  · simp only [ImportState.nameNode, hn.operator, h.counts _ hop]

/-- What a passage writes is still to be written before it, and is not the array. -/
lemma Step.written_apart (hm : m.WellFormed) (htm : t ∈ m.initializers) (hname : a.name = t.name)
    (hnodes : m.nodes = before ++ p.message :: rest) (next : p.next = rest.head?)
    (hx : x ∈ p.outputNames) (hne : x ≠ "") : x ∈ written (p.message :: rest) ∧ x ≠ a.name := by
  have hw := mem_written_of_mem_outputNames next hx hne
  have hxm : x ∈ written m.nodes := by
    rw [hnodes, written_append]
    exact List.mem_append_right _ hw
  refine ⟨hw, fun e => hm.written_initializers x hxm ?_⟩
  rw [e, hname]
  exact List.mem_map_of_mem htm

/-- A Constant or an identity writes one value, under a name. -/
lemma Step.Body.writes_one (hm : m.WellFormed) (hmem : p.message ∈ m.nodes) (body : Body s p)
    (htransparent : isTransparent p.lifted.operator = true) {v : Value} {vs : List Value}
    (houtputs : p.fused.outputs = v :: vs) : v.name ∈ p.outputNames ∧ v.name ≠ "" := by
  rw [body.operator_lifted] at htransparent
  obtain ⟨x, hx, hnames⟩ :=
    body.single hm hmem (body.operator_of_transparent htransparent ▸ htransparent)
  rw [body.outputs_fused, hnames] at houtputs
  obtain ⟨rfl, -⟩ := List.cons.inj houtputs
  rw [hnames]
  exact ⟨List.mem_singleton_self x, hx⟩

/-- An Unsqueeze is rewritten in both runs, or in none. -/
lemma Step.Body.reshaped_moved (body : Body s p) (body' : Body s' p')
    (hregistry : p.lifting.registry.Moved a outer gone pending p'.lifting.registry)
    (hlifted : p.lifted.LooksLike p'.lifted)
    (hout : ∀ x ∈ p.outputNames, x ≠ a.name ∧ x ∈ pending) : p.reshaped.LooksLike p'.reshaped := by
  have hagree := hlifted.unsqueezeAsReshape hregistry fun o os ho => by
    obtain ⟨x, xs, hx, rfl, -⟩ := List.map_eq_cons_iff.mp (body.outputs_lifted.symm.trans ho)
    exact hout x (by simp [hx])
  rw [body.reshape, body'.reshape] at hagree
  exact hagree

/-- The outputs of a node that is neither a Constant nor an identity are not written again. -/
lemma Step.not_pending (hm : m.WellFormed) (hnodes : m.nodes = before ++ p.message :: rest)
    (next : p.next = rest.head?) (body : Body s p) (hop : p.typed.operator ≠ .reshape) {v : Value}
    (hv : v ∈ p.typed.outputs) (hne : v.name ≠ "") :
    v.name ∉ "" :: written (if p.consumed then rest.tail else rest) := by
  have hnames : p.typed.outputs.map Value.name = p.outputNames :=
    body.typed.names_of_kept fun hreshaped => hop hreshaped.2
  rw [List.mem_cons, not_or]
  exact ⟨hne, not_written_rest hm hnodes next (hnames ▸ List.mem_map_of_mem hv)⟩

/-- Nodes that look alike before they are typed are registered alike. -/
lemma Step.registry_moved (hm : m.WellFormed) (hnodes : m.nodes = before ++ p.message :: rest)
    (next : p.next = rest.head?) (step : Step s p s₁) (step' : Step s' p' s₁')
    (hregistry : p.lifting.registry.Moved a outer gone ("" :: written (p.message :: rest))
      p'.lifting.registry) (hreshaped : p.reshaped.LooksLike p'.reshaped) :
    p.registry.Moved a outer gone ("" :: written (if p.consumed then rest.tail else rest))
      p'.registry := by
  have htyped := hreshaped.infer step.infer step'.infer
  have hop : p'.typed.operator = p.typed.operator := by
    rw [step.operator_typed, step'.operator_typed, hreshaped.operator]
  have hsingle : isTransparent p.typed.operator = true → ∃ v, p.typed.outputs = [v] ∧ v.name ≠ "" ∧
      v.name ∉ "" :: written (if p.consumed then rest.tail else rest) := by
    intro htransparent
    obtain ⟨v, hv, hnames, houtputs, -⟩ := step.single_typed hm (by simp [hnodes]) htransparent
    refine ⟨v, houtputs, hv, ?_⟩
    rw [List.mem_cons, not_or]
    exact ⟨hv, not_written_rest hm hnodes next (by simp [hnames])⟩
  have hname : isTransparent p.typed.operator = false → p'.typed.name = p.typed.name ∨
      ∀ v ∈ p.typed.outputs, v.name ≠ "" →
        v.name ∉ "" :: written (if p.consumed then rest.tail else rest) := by
    intro htransparent
    cases hcount : p.reshaped.operator.recounted with
    | false =>
      left
      rw [step.name_eq_reshaped, step'.name_eq_reshaped, hreshaped.name hcount]
    | true =>
      right
      refine fun v => Step.not_pending hm hnodes next step.toBody fun hop => ?_
      rw [← step.operator_typed, hop] at hcount
      cases hcount
  exact hregistry.closes (List.cons_subset_cons _ (written_rest_subset next)) (by rw [hop]) htyped
    hname hsingle step.record step'.record step.renameInputs step'.renameInputs step.renameOutputs
    step'.renameOutputs

/-- Where a node is fused alike in both runs, they know the same after it. -/
theorem Step.moved_alike (hm : m.WellFormed) (htm : t ∈ m.initializers) (hname : a.name = t.name)
    (ha : a.name ≠ "") (hlit : a.literal.isSome) (hnodes : m.nodes = before ++ p.message :: rest)
    (next : p.next = rest.head?) (h : s.Moved a outer gone ("" :: written (p.message :: rest)) s')
    (hp : s.Placed (written (p.message :: rest))) (hp' : s'.Placed (written (p.message :: rest)))
    (step : Step s p s₁) (step' : Step s' p' s₁') (hfused : p.fused.Moved a outer p'.fused)
    (hapart : p.fused.Apart a) :
    s₁.Moved a outer gone ("" :: written (if p.consumed then rest.tail else rest)) s₁' := by
  have hwritten : ∀ x ∈ p.outputNames, x ≠ "" → x ∈ written (p.message :: rest) ∧ x ≠ a.name :=
    fun x => written_apart hm htm hname hnodes next
  obtain ⟨hstate, hnamed, hnodeName⟩ := h.nameNode hfused
  obtain ⟨hlifted, effect⟩ := hstate.lift ha hlit hnamed hapart hnodeName step.elides step'.elides
    step.lifts step'.lifts
  have hregistry : p.lifting.registry.Moved a outer gone ("" :: written (p.message :: rest))
      p'.lifting.registry := by
    rw [step.registry_lifting, step'.registry_lifting]
    exact h.registry
  have hreshaped : p.reshaped.LooksLike p'.reshaped := by
    refine step.reshaped_moved step'.toBody hregistry hlifted fun x hx => ?_
    by_cases hxne : x = ""
    · exact ⟨hxne ▸ ha.symm, hxne ▸ List.mem_cons_self⟩
    · obtain ⟨hw, hxa⟩ := hwritten x hx hxne
      exact ⟨hxa, List.mem_cons_of_mem _ hw⟩
  refine { toLiftsAlike := ?_, registry := ?_, counts := fun o ho => ?_ }
  · rw [step.state, step'.state]
    refine hstate.toLiftsAlike.push ⟨hp.elided, hp.constant⟩ ⟨hp'.elided, hp'.constant⟩
      step.nodes_lifting step'.nodes_lifting effect ha hlit (fun htransparent v vs houtputs => ?_)
      step.finalOf hlifted.operator step'.finalOf
    obtain ⟨hmem, hv⟩ := step.writes_one hm (by simp [hnodes]) htransparent houtputs
    obtain ⟨hw, hva⟩ := hwritten _ hmem hv
    exact ⟨hw, hv, hva⟩
  · rw [step.state, step'.state]
    exact step.registry_moved hm hnodes next step' hregistry hreshaped
  · rw [step.counts, step'.counts, Table.get?_insert, Table.get?_insert, hfused.operator]
    split
    · next hop => rw [count, count, h.counts _ (hop ▸ ho)]
    · exact h.counts o ho

end TensorGraph
