import TensorGraph.Proofs.Moving.Sums

/-!
# Runs with an array moved into a Constant

Two imports of the same messages, of which the one knows an array and the other a Constant that has
written it, both end with the same types (`steps_moved`). Most steps go side by side
(`Step.moved_alike`, `Step.moved_layer`). Where a layer takes over a sum in the one run only, the other
catches up by a step more (`Step.moved_taken`).
-/

namespace TensorGraph

open Onnx ModelMessage Registry ImportState

variable {m m' : ModelMessage} {a : Value} {outer : String → Option Nat}
  {gone : String → Option ValueType} {pending pending' : List String} {s s' s₁ s₁' s₂' : ImportState}
  {t : TensorMessage} {p p' : Passage} {ps : List Passage} {rest : List NodeMessage}

lemma ImportState.Moved.mono (h : s.Moved a outer gone pending s') (hsub : pending' ⊆ pending) :
    s.Moved a outer gone pending' s' :=
  { h with registry := h.registry.mono hsub }

/-- What a message names as the second operand is the array, if it weighs the node. -/
lemma Step.Front.weighed (front : Step.Front s p)
    (hname : ∀ x v, s.registry.resolve x = .ok v → v.name = x)
    (hweighed : p.specialised.WeighedBy a) : p.message.inputs[1]? = some a.name := by
  have hnames : p.specialised.inputs.map Value.name = p.message.inputs := by
    rw [(specialise_ok front.specialise).2]
    exact map_eq_of_forall₂ (convert_ok front.convert).2.2.1 hname
  rw [← hnames, List.getElem?_map]
  exact hweighed

/-- From the messages that are left, the other run comes to its end `s₂'` by way of a state that knows
what the state `s` of the one run knows. -/
def CatchesUp (m' : ModelMessage) (a : Value) (outer : String → Option Nat) (left : List NodeMessage)
    (s s₂' : ImportState) : Prop :=
  ∃ gone s', s.Moved a outer gone ("" :: written left) s' ∧ s'.Placed (written left) ∧
    (∀ raw ∈ left, ∀ x ∈ raw.inputs, gone x = none) ∧ s'.steps m' false left = .ok s₂'

section Step

variable (hm : m.WellFormed) (htm : t ∈ m.initializers) (hne : t.name ≠ "") (ht : t.toValue = .ok a)
  (run : Run m ps (p.message :: rest) s) (next : p.next = rest.head?)
  (hreads : ∀ raw ∈ p.message :: rest, ∀ x ∈ raw.inputs, gone x = none)
  (h : s.Moved a outer gone ("" :: written (p.message :: rest)) s')
  (hp : s.Placed (written (p.message :: rest))) (hp' : s'.Placed (written (p.message :: rest)))
  (step : Step s p s₁)

include hm htm hne ht run next hreads h hp hp' step

/-- After a sum that the one run takes over, the other catches up by a step more. -/
lemma Step.moved_taken {type : ValueType} {o : String} (step' : Step s' p' s₁')
    (hmsg : p'.message = p.message) (htaken : p.consumed = true) (hkept : p'.consumed = false)
    (hop' : p'.fused.operator.isPlain = true) (hkeeps : p.KeepsSum s.registry rest.tail o)
    (hlayer : Typing.linear p.reshaped = .ok type)
    (houtputs : p.typed.outputs = p.fused.outputs.modifyHead ({ · with type }))
    (houtputs' : p'.typed.outputs = p'.fused.outputs.modifyHead ({ · with type }))
    (hs' : s₁'.steps m' false rest = .ok s₂') : CatchesUp m' a outer rest.tail s₁ s₂' := by
  obtain ⟨hname, -⟩ := toValue_ok ht
  obtain ⟨-, -, sum, _, _, hsum, -⟩ := step.taken htaken
  obtain ⟨after, rfl⟩ : ∃ after, rest = sum :: after := by
    cases rest with
    | nil => simp [hsum] at next
    | cons raw after => exact ⟨after, by rw [Option.some.inj (hsum.symm.trans next)]⟩
  obtain ⟨q, s₃', rfl, -, step'', hs'⟩ := steps_cons_eq_ok.mp hs'
  obtain ⟨os, ho⟩ := List.head?_eq_some_iff.mp hkeeps.output
  have hproduct : p'.typed.outputs = { bareValue o with type } :: os.map bareValue := by
    rw [houtputs', step'.outputs_fused, Passage.outputNames_of_kept hkept, hmsg, ho]
    rfl
  obtain ⟨y, ys, hy⟩ : ∃ y ys, p.fused.outputs = y :: ys := by
    cases step.fuses with
    | same _ kept | gemm _ _ _ _ _ kept | product _ _ kept => simp [htaken] at kept
    | biased _ _ _ _ _ _ _ node => exact ⟨_, _, by rw [node]⟩
  have hgives := hkeeps.gives _ hsum
  obtain ⟨hq, hplain, hmoved⟩ := Step.moved_sum hm run h step' ho hkeeps.named hproduct htm hname
    (hname ▸ hne) hp hp' hop' step step'' next hsum (hreads _ (by simp)) htaken
    (fun add hadd => hgives add hadd { y with type } (by rw [houtputs, hy]; rfl)) hlayer houtputs
  rw [hq] at hs'
  have hsub : written after ⊆ written (p.message :: q.message :: after) := by
    rw [written_cons, written_cons]
    exact fun x hx => List.mem_append_right _ (List.mem_append_right _ hx)
  refine ⟨_, s₃', hmoved, ?_, fun raw hraw x hx => ?_, hs'⟩
  · exact step''.placed_of_plain (step'.placed_of_plain hp' hop' hsub) hplain fun _ => id
  · have hxo : x ≠ o := fun e => hkeeps.unread raw hraw (e ▸ hx)
    rw [Function.update_of_ne hxo]
    exact hreads raw (List.mem_cons_of_mem _ (List.mem_cons_of_mem _ hraw)) x hx

/-- Where the array is the matrix of a product, the one run adds a layer and the other the product. -/
lemma Step.moved_weights (step' : Step s' p' s₁') (hmsg : p'.message = p.message)
    (hkeep : p.KeepsLayer s.registry rest.tail t.name)
    (hspecialised : p.specialised.Moved a outer p'.specialised)
    (hproduct : p.specialised.operator = .gemm ∨ p.specialised.operator = .matMul)
    (hweighed : p.specialised.WeighedBy a) (hmatrix : p.specialised.hasLiteralMatrix 1 = true)
    (hlinear : p.fused.operator = .linear) (hnode : p'.fused = p'.specialised)
    (hkept : p'.consumed = false) (hs' : s₁'.steps m' false rest = .ok s₂') :
    CatchesUp m' a outer (if p.consumed then rest.tail else rest) s₁ s₂' := by
  obtain ⟨hname, -⟩ := toValue_ok ht
  have hnodes : m.nodes = ps.flatMap Passage.messages ++ p.message :: rest := run.messages.symm
  have hweighed' := step.weighed h.registry.name_resolve.1 hweighed
  obtain ⟨type, hlayer, houtputs, houtputs'⟩ :=
    step.typed_weights (Value.typedAsLiteral_toValue ht) step'.toBody hspecialised hproduct hweighed
      hmatrix hlinear hnode (hkeep.data hlinear (hname ▸ hweighed'))
  have hop : p.fused.operator.isPlain = true := by rw [hlinear]; rfl
  have hop' : p'.fused.operator.isPlain = true := by
    rw [hnode, hspecialised.operator]
    rcases hproduct with hproduct | hproduct <;> rw [hproduct] <;> rfl
  cases htaken : p.consumed with
  | true =>
    obtain ⟨o, hsum⟩ := hkeep.sum htaken (.inl (hname ▸ hweighed'))
    exact Step.moved_taken hm htm hne ht run next hreads h hp hp' step step' hmsg htaken hkept hop'
      hsum hlayer houtputs houtputs' hs'
  | false =>
    have hsame : p'.typed.outputs = p.typed.outputs := by
      rw [houtputs, houtputs', step.outputs_fused, step'.outputs_fused,
        Passage.outputNames_of_kept htaken, Passage.outputNames_of_kept hkept, hmsg]
    have hmoved := Step.moved_layer hm hnodes next h hp hp' step step' hop hop' hsame
    have hplaced' := step'.placed_of_plain hp' hop' (Step.written_rest_subset next)
    simp only [htaken, Bool.false_eq_true, if_false] at hmoved hplaced' ⊢
    exact ⟨gone, s₁', hmoved, hplaced', fun raw hraw => hreads raw (List.mem_cons_of_mem _ hraw), hs'⟩

/-- Whatever the one run does with a message, the other catches up with it. -/
theorem Step.moved (hmov : m.Movable t) (hkeeps : m.KeepsLayers t.name)
    (hs' : s'.steps m' false (p.message :: rest) = .ok s₂') :
    CatchesUp m' a outer (if p.consumed then rest.tail else rest) s₁ s₂' := by
  obtain ⟨p', s₁', hmsg, hnext', step', hs'⟩ := steps_cons_eq_ok.mp hs'
  obtain ⟨hname, hlit⟩ := toValue_ok ht
  have ha : a.name ≠ "" := hname ▸ hne
  have hnodes : m.nodes = ps.flatMap Passage.messages ++ p.message :: rest := run.messages.symm
  have hkeep := hkeeps ps p rest s s₁ run next step
  have hreadsLeft : ∀ raw ∈ if p.consumed then rest.tail else rest, ∀ x ∈ raw.inputs,
      gone x = none := by
    intro raw hraw
    refine hreads raw (List.mem_cons_of_mem _ ?_)
    split at hraw
    · exact List.mem_of_mem_tail hraw
    · exact hraw
  have hreadsNext : ∀ raw ∈ p.message :: p.next.toList, ∀ x ∈ raw.inputs, gone x = none := by
    intro raw hraw
    refine hreads raw ?_
    rw [next] at hraw
    exact (List.mem_cons.mp hraw).elim (fun e => e ▸ List.mem_cons_self)
      fun hraw => List.mem_cons_of_mem _ (List.mem_of_head? (Option.mem_toList.mp hraw))
  have hout : ∀ x ∈ p.message.outputs.head?, x ≠ a.name := by
    rintro x hx rfl
    refine hm.written_initializers a.name (mem_written.mpr ⟨ha, p.message, by simp [hnodes],
      List.mem_of_head? hx⟩) ?_
    exact hname ▸ List.mem_map_of_mem htm
  obtain ⟨hspecialised, hapart, hfuses⟩ := step.toFront.moved hmov ht ha (by simp [hnodes]) h
    step'.toFront hmsg (hnext'.trans next.symm) hreadsNext hout
  cases hfuses with
  | alike hfused hconsumed =>
    have hapart' : p.fused.Apart a := by
      rcases step.fuses.eq_or_layer with ⟨hnode, -⟩ | ⟨-, hlinear⟩
      · rwa [hnode]
      · intro i hi
        simp [hlinear, Operator.unlifted] at hi
    have hplaced' := Step.placed hm (p := p') (hmsg ▸ hnodes) hnext' h.registry.name_resolve.2
      (hmsg ▸ hp') step'
    rw [hconsumed] at hs' hplaced'
    exact ⟨gone, s₁', Step.moved_alike hm htm hname ha hlit hnodes next h hp hp' step step' hfused
      hapart', hplaced', hreadsLeft, hs'⟩
  | weights hproduct hweighed hmatrix hlinear hnode hkept =>
    rw [hkept] at hs'
    exact Step.moved_weights hm htm hne ht run next hreads h hp hp' step step' hmsg hkeep hspecialised
      hproduct hweighed hmatrix hlinear hnode hkept hs'
  | bias hnext hadded hnode htaken hkept =>
    obtain ⟨type, hlayer, houtputs, houtputs'⟩ := step.typed_bias step'.toBody hspecialised htaken hnode
    have hop' : p'.fused.operator.isPlain = true := by rw [hnode]; rfl
    obtain ⟨o, hsum⟩ := hkeep.sum htaken (.inr ⟨_, hnext, hname ▸ hadded⟩)
    rw [hkept] at hs'
    rw [htaken, if_pos rfl]
    exact Step.moved_taken hm htm hne ht run next hreads h hp hp' step step' hmsg htaken hkept hop'
      hsum hlayer houtputs houtputs' hs'

end Step

/-- The steps that are left lead both runs to the same end. -/
theorem steps_moved (hm : m.WellFormed) (hmov : m.Movable t) (hkeeps : m.KeepsLayers t.name)
    (htm : t ∈ m.initializers) (hne : t.name ≠ "") (ht : t.toValue = .ok a) (run : Run m ps rest s)
    (hreads : ∀ raw ∈ rest, ∀ x ∈ raw.inputs, gone x = none)
    (h : s.Moved a outer gone ("" :: written rest) s') (hp : s.Placed (written rest))
    (hp' : s'.Placed (written rest)) (hs : s.steps m false rest = .ok s₁)
    (hs' : s'.steps m' false rest = .ok s₁') : ∃ gone', s₁.Moved a outer gone' [] s₁' := by
  -- A message that is taken over goes with the one before it, so the induction is on the length.
  induction hk : rest.length using Nat.strongRecOn generalizing ps rest gone s s' with
  | _ k ih =>
    cases rest with
    | nil =>
      simp only [ImportState.steps, Except.ok.injEq] at hs hs'
      rw [← hs, ← hs']
      exact ⟨gone, h.mono (List.nil_subset _)⟩
    | cons raw rest =>
      obtain ⟨p, s₂, rfl, hnext, step, hs⟩ := steps_cons_eq_ok.mp hs
      obtain ⟨gone', s₂', hmoved, hplaced', hreads', hs'⟩ :=
        Step.moved hm htm hne ht run hnext hreads h hp hp' step hmov hkeeps hs'
      have hplaced := Step.placed hm run.messages.symm hnext h.registry.name_resolve.1 hp step
      exact ih _ (hk ▸ length_left_lt p.message) (Run.step run hnext step) hreads' hmoved hplaced
        hplaced' hs hs' rfl

end TensorGraph
