import TensorGraph.Proofs.Bypass.Stages

/-!
# Runs past an identity

Once an identity from `a` to `y` has been left out, it does not matter whether a message reads `y` or
`a`: its passage has a counterpart (`Step.redirect`), and so have those of all that are left
(`Run.steps_redirect`).
-/

namespace TensorGraph

open Onnx Registry

variable {m m' : ModelMessage} {y a : String} {s s' t t' : ImportState} {p : Passage}
  {ps : List Passage} {rest rest' : List NodeMessage} {raw raw' : NodeMessage}
  {next next' : Option NodeMessage} {n n' : Node} {r r' : Registry} {v w : Value}

/-- In the state `s` the names `y` and `a` lead to one value, which has been read under both. -/
structure ImportState.Mirrors (s : ImportState) (y a : String) : Prop where
  sameType : s.registry.SameType y a
  source : s.sourceOf y = s.sourceOf a

namespace Step

/-- The last stages do the same for both nodes, up to what their operands are called. -/
lemma finish {typed' : Node} (step : Step s p s') (hs : s.registry.Sound) (hsingle : Single p)
    (hya : s.registry.SameType y a) (hr : p.lifting.registry.Twin r)
    (hn : p.typed.Over (Value.Redirected y a) typed') :
    ∃ recorded' marked' registry', r.record typed'.name typed'.outputs = (recorded', .ok ()) ∧
      ImportState.renameInputs recorded' typed'.inputs =
        .ok (marked', typed'.inputs.map p.recorded.renamedOperand) ∧
      (if ImportState.isTransparent typed'.operator then ImportState.renameLiteral typed' marked'
        else ImportState.renameOutputs typed' marked' 1 typed'.outputs) =
        .ok (registry', p.outputs) ∧
      p.registry.Twin registry' := by
  obtain ⟨ty, hy, ha⟩ := hya
  have hrecord := step.outside_recorded hs
  have hsound := (step.grows_recorded hs).sound
  have hy' := hrecord.stands (step.not_written_of_stands hs hsingle hy) hy
  have ha' := hrecord.stands (step.not_written_of_stands hs hsingle ha) ha
  obtain ⟨recorded', hrecord', htwin⟩ := hr.record step.record
  obtain ⟨marked', inputs', hinputs', htwin'⟩ := htwin.renameInputs hsound hy' ha'
    (hn.inputs.imp fun v w hvw => hvw.name.imp_right fun h => ⟨h.1, h.2.1⟩) step.renameInputs
  obtain rfl : inputs' = typed'.inputs.map p.recorded.renamedOperand := by
    have hsound' : recorded'.Sound := htwin.eq ▸ sound_withMissed hsound
    rw [(renameInputs_ok hsound' hinputs').2.1, htwin.eq]
    exact List.map_congr_left fun _ _ => renamedOperand_withMissed
  have houtputs := step.renameOutputs
  rw [← hn.operator] at houtputs
  rw [hn.name, hn.outputs]
  split at houtputs
  · next ht =>
    obtain ⟨registry', houtputs', hregistry⟩ := htwin'.renameLiteral hn.name hn.outputs houtputs
    exact ⟨recorded', marked', registry', hrecord', hinputs', by rw [if_pos ht, houtputs'], hregistry⟩
  · next ht =>
    obtain ⟨registry', houtputs', hregistry⟩ := htwin'.renameOutputs hn.name houtputs
    exact ⟨recorded', marked', registry', hrecord', hinputs', by rw [if_neg ht, houtputs'], hregistry⟩

end Step

lemma Registry.literal_renamedOperand (r : Registry) (v : Value) :
    (r.renamedOperand v).literal = v.literal := by
  unfold Registry.renamedOperand
  split <;> rfl

lemma Registry.renamedOperand_sameButUse (r : Registry) (h : v.SameButUse w) :
    r.renamedOperand w = r.renamedOperand v := by
  simp only [Registry.renamedOperand, h.name, h.type, h.literal]

/-- The addition `next` does not read what the product `raw` writes under another name in `next'`. -/
def Onnx.NodeMessage.BiasApart (y a : String) (raw : NodeMessage) (next next' : Option NodeMessage) :
    Prop :=
  raw.operator = "MatMul" → ∀ add ∈ next, add.operator = "Add" →
    next' = next ∨ ∀ o ∈ raw.outputs.head?, o ≠ y ∧ o ≠ a

lemma Step.Front.biasApart (h : Step.Front s p) (hapart : p.message.BiasApart y a p.next next') :
    p.specialised.operator = .matMul → ∀ add ∈ p.next, add.operator = "Add" →
      next' = p.next ∨ ∀ o ∈ p.specialised.outputs.head?, o.name ≠ y ∧ o.name ≠ a := by
  intro hop add hadd haddop
  have hmessage : p.message.operator = "MatMul" := by
    rw [h.operator_specialised (by rw [hop]; rfl), hop]
    rfl
  refine (hapart hmessage add hadd haddop).imp_right fun hout o ho => ?_
  rw [h.outputs_specialised, List.head?_map] at ho
  obtain ⟨x, hx, rfl⟩ := Option.map_eq_some_iff.mp ho
  exact hout x hx

/-- The passage of a message has a counterpart for the message that reads `a` instead of `y`. -/
theorem Step.redirect (step : Step s p s') (hs : s.registry.Sound) (hsingle : Step.Single p)
    (mirrors : s.Mirrors y a) (twin : s.Twin t) (hraw : p.message.Redirected y a raw')
    (hnext : Option.Rel (NodeMessage.Redirected y a) p.next next')
    (hapart : p.message.BiasApart y a p.next next') :
    ∃ p' t', p'.message = raw' ∧ p'.next = next' ∧ p'.consumed = p.consumed ∧ Step t p' t' ∧
      s'.Twin t' := by
  obtain ⟨converted, hconvert, hn⟩ := (convert_redirected mirrors.sameType hraw).eq_ok step.convert
  obtain ⟨specialised, hspecialise, hn⟩ := (Node.specialise_redirected hn).eq_ok step.specialise
  obtain ⟨⟨fused, consumed⟩, hfuse, hn, hconsumed⟩ := (Node.fuse_redirected mirrors.sameType hn hnext
    (step.biasApart hapart)).eq_ok step.fuse
  -- up to here the nodes differ in the name of an operand, from here on only if they are left out
  obtain ⟨htwin, hn⟩ := twin.nameNode hn
  obtain ⟨⟨elision, led⟩, helide, htwin, hn⟩ := (htwin.elide mirrors.source hn).eq_ok step.elide
  obtain ⟨⟨lifting, lifted⟩, hlift, htwin, hn⟩ := (htwin.lift hn).eq_ok step.lift
  obtain ⟨reshaped, hreshape, hn⟩ := (hn.unsqueezeAsReshape htwin.registry).eq_ok step.reshape
  obtain ⟨typed, hinfer, hn⟩ := hn.infer.eq_ok step.infer
  obtain ⟨recorded, marked, registry, hrecord, hinputs, houtputs, hregistry⟩ :=
    step.finish hs hsingle mirrors.sameType htwin.registry hn.redirected
  have hconvert' : t.registry.convert raw' = .ok converted := by
    rw [twin.registry.eq, convert_withMissed, hconvert]
  have hfuse' : specialised.fuse t.registry next' = .ok (fused, consumed) := by
    rw [twin.registry.eq]
    exact hfuse
  let p' : Passage := ⟨raw', next', converted, specialised, fused, consumed, elision, led, lifting,
    lifted, reshaped, typed, recorded, marked, typed.inputs.map p.recorded.renamedOperand, registry,
    p.outputs⟩
  have hfinal := hn.final (f := p.recorded.renamedOperand)
    (fun v w => p.recorded.renamedOperand_sameButUse) p.recorded.literal_renamedOperand p.outputs
  refine ⟨p', lifting.push registry p'.final, rfl, rfl, hconsumed,
    ⟨⟨⟨hconvert', hspecialise, hfuse', helide, hlift⟩, hreshape, hinfer, hrecord⟩, hinputs, houtputs,
      rfl⟩, ?_⟩
  have hp : p.final = { p.typed with
      inputs := p.typed.inputs.map p.recorded.renamedOperand
      outputs := p.outputs } := by
    rw [Passage.final, (renameInputs_ok (step.grows_recorded hs).sound step.renameInputs).2.1]
  rw [step.state, hp]
  exact htwin.push hregistry hfinal.1 hfinal.2

/-! ## Runs -/

lemma Node.fuse_identity (hop : n.operator = .identity) : n.fuse r next = .ok (n, false) := by
  simp only [Node.fuse, hop]

/-- The node of an Identity is the one that it is converted to until it is named, and takes over no
other. -/
lemma Step.Front.of_identity (h : Step.Front s p) (hop : p.message.operator = "Identity") :
    p.converted.operator = .identity ∧ p.specialised = p.converted ∧ p.fused = p.converted ∧
      p.consumed = false := by
  have hconverted : p.converted.operator = .identity := by
    have hknown := (convert_ok h.convert).1
    rw [NodeMessage.knownOperator, hop] at hknown
    exact (Except.ok.inj hknown).symm
  obtain ⟨hspecialises, hspecialised⟩ := specialise_ok h.specialise
  rw [hspecialises.eq_of_not_spatial (by rw [hconverted]; rfl)] at hspecialised
  have hfuse := h.fuse
  rw [hspecialised, Node.fuse_identity hconverted, Except.ok.injEq, Prod.mk.injEq] at hfuse
  exact ⟨hconverted, hspecialised, hfuse.1.symm, hfuse.2.symm⟩

/-- The step of an Identity does not depend on the message after it. -/
lemma Step.set_next (step : Step s p s') (hop : p.message.operator = "Identity")
    (next : Option NodeMessage) : Step s { p with next } s' := by
  obtain ⟨hidentity, hspecialised, hfused, hconsumed⟩ := step.of_identity hop
  have hfuse : p.specialised.fuse s.registry next = .ok (p.fused, p.consumed) := by
    rw [hspecialised, Node.fuse_identity hidentity, hfused, hconsumed]
  exact ⟨⟨⟨step.convert, step.specialise, hfuse, step.elide, step.lift⟩, step.reshape, step.infer,
    step.record⟩, step.renameInputs, step.renameOutputs, step.state⟩

/-- An identity does not write what it reads. -/
lemma Onnx.ModelMessage.WellFormed.ne_of_identity {n : NodeMessage} {ys : List String}
    (hm : m.WellFormed) (hn : n ∈ m.nodes) (hop : n.operator = "Identity")
    (hin : n.inputs.head? = some a) (hout : n.outputs = y :: ys) : a ≠ y := by
  rintro rfl
  obtain ⟨before, after, hsplit⟩ := List.append_of_mem hn
  obtain ⟨z, hz, hz'⟩ := hm.single_output hn (.inr hop)
  obtain rfl : a = z := (List.cons.inj (hout.symm.trans hz')).1
  refine hm.not_written_of_read hsplit (List.mem_of_head? hin) ?_
  rw [ModelMessage.written_cons, List.mem_append, mem_named]
  exact .inl ⟨by simp [hout], hz⟩

/-- Once an identity has been left out, its output and its operand lead to one value. -/
theorem Run.mirrors_of_identity {ys : List String} (hm : m.WellFormed)
    (run : Run m ps (p.message :: rest) s) (step : Step s p s')
    (hop : p.message.operator = "Identity") (hin : p.message.inputs.head? = some a)
    (hout : p.message.outputs = y :: ys) (resolve : s.registry.resolve a = .ok v)
    (bare : v.literal = none) (inner : s.registry.isOutput y = false) : s'.Mirrors y a := by
  obtain ⟨hidentity, -, hfused, -⟩ := step.of_identity hop
  rw [← hfused] at hidentity
  obtain ⟨xs, hxs⟩ := List.head?_eq_some_iff.mp hin
  have hread := (convert_ok step.convert).2.2.1
  rw [hxs] at hread
  obtain ⟨u, us, hu, -, hinputs⟩ := List.forall₂_cons_left_iff.mp hread
  obtain rfl : u = v := Except.ok.inj (hu.symm.trans resolve)
  have hfin : p.fused.inputs = u :: us := by rw [hfused, hinputs]
  have hfout : p.fused.outputs = bareValue y :: ys.map bareValue := by
    rw [hfused, (convert_ok step.convert).2.2.2.1, hout, List.map_cons]
  have htyped : p.typed.operator = .identity := by
    rw [step.operator_of_transparent (by rw [hidentity]; rfl), hidentity]
  have houtputs : p.outputNames = y :: ys := by
    rw [Passage.outputNames_of_kept (step.transparent (by rw [htyped]; rfl)).1, hout]
  cases step.elides with
  | past kept =>
    -- an identity that is kept reads a literal or writes a graph output, and this one does neither
    obtain ⟨x, xs, hx, hcase⟩ := kept hidentity
    obtain rfl : u = x := (List.cons.inj (hfin.symm.trans hx)).1
    rcases hcase with hlit | ⟨z, zs, hz, hz'⟩
    · simp [bare] at hlit
    · obtain rfl : bareValue y = z := (List.cons.inj (hfout.symm.trans hz)).1
      exact absurd (inner.symm.trans hz') Bool.false_ne_true
  | @out x z _ zs _ inputs outputs _ _ node state =>
    obtain rfl : u = x := (List.cons.inj (hfin.symm.trans inputs)).1
    obtain rfl : bareValue y = z := (List.cons.inj (hfout.symm.trans outputs)).1
    have hinput : p.typed.inputs.head? = some u := by
      rw [step.inputs_of_identity hidentity, node]
      exact hfin ▸ rfl
    have hsame := run.sameType_out hm step htyped (by simp [hxs]) houtputs resolve bare inner hinput
    refine ⟨hsame, ?_⟩
    have helisions : s'.elisions = s.elisions.insert y ⟨s.place, s.sourceOf a⟩ := by
      rw [step.elisions_eq, state, ← run.arrays.name_resolve resolve]
      rfl
    have hne : a ≠ y := hm.ne_of_identity (by simp [← run.messages]) hop hin hout
    simp only [ImportState.sourceOf, helisions, Table.get?_insert, if_true, if_neg hne]

/-- The two names go on to lead to one value. -/
theorem Run.mirrors_step (hm : m.WellFormed) (run : Run m ps (p.message :: rest) s)
    (step : Step s p s') (h : s.Mirrors y a) : s'.Mirrors y a := by
  have hsingle := run.step_single hm step.toBody
  refine ⟨step.sameType run.sound hsingle h.sameType, ?_⟩
  cases step.elision with
  | past _ _ elisions => simpa only [ImportState.sourceOf, elisions] using h.source
  | @out x z u zs operator _ _ outputs _ _ _ elisions =>
    have hz : z ∈ p.written := by
      obtain ⟨v, hne, hnames, hv, -⟩ :=
        step.single_typed hm (by simp [← run.messages]) (by rw [operator]; rfl)
      obtain rfl : v.name = z := (List.cons.inj (hnames.symm.trans outputs)).1
      exact mem_namesOf_of_mem (by simp [hv]) hne
    obtain ⟨t, hy, ha⟩ := h.sameType
    -- what the identity writes has not been read before, so that it is neither of the names
    have hother : ∀ {x'}, s.registry.Stands x' t → s'.sourceOf x' = s.sourceOf x' := by
      intro x' hx'
      have hne : x' ≠ z := by
        rintro rfl
        exact step.not_written_of_stands run.sound hsingle hx' hz
      simp only [ImportState.sourceOf, elisions, Table.get?_insert, if_neg hne]
    rw [hother hy, hother ha, h.source]

/-- The messages `rest'` are the messages `rest`, but that they may read `a` where these read `y`. An
addition does not come to read what a product before it writes. -/
structure Redirects (y a : String) (rest rest' : List NodeMessage) : Prop where
  messages : List.Forall₂ (NodeMessage.Redirected y a) rest rest'
  apart : ∀ i (raw : NodeMessage), rest[i]? = some raw →
    raw.BiasApart y a rest[i + 1]? rest'[i + 1]?

namespace Redirects

lemma tail (h : Redirects y a rest rest') : Redirects y a rest.tail rest'.tail where
  messages := by
    rw [← List.drop_one, ← List.drop_one]
    exact List.forall₂_drop 1 h.messages
  apart i raw hraw := by
    rw [List.getElem?_tail] at hraw
    rw [List.getElem?_tail, List.getElem?_tail]
    exact h.apart (i + 1) raw hraw

lemma head? (h : Redirects y a rest rest') :
    Option.Rel (NodeMessage.Redirected y a) rest.head? rest'.head? := by
  cases h.messages with
  | nil => exact .none
  | cons hraw => exact .some hraw

end Redirects

/-- The messages that are left are imported to a state of the same graph. -/
theorem Run.steps_redirect (hm : m.WellFormed) (run : Run m ps rest s) (mirrors : s.Mirrors y a)
    (twin : s.Twin t) (h : Redirects y a rest rest') (hs : s.steps m false rest = .ok s') :
    ∃ t', t.steps m' false rest' = .ok t' ∧ s'.Twin t' := by
  -- a passage may take in two messages, so that the induction is on how many are left
  induction hn : rest.length using Nat.strongRecOn generalizing rest rest' s t ps with
  | _ k ih =>
    obtain ⟨hmessages, hapart⟩ := h
    cases hmessages with
    | nil =>
      obtain rfl : s = s' := by simpa [ImportState.steps] using hs
      exact ⟨t, rfl, twin⟩
    | @cons raw raw' rest rest' hraw hrest =>
      have htail : Redirects y a rest rest' := Redirects.tail ⟨.cons hraw hrest, hapart⟩
      obtain ⟨p, s₁, rfl, hnext, step, hs⟩ := steps_cons_eq_ok.mp hs
      have hbias : p.message.BiasApart y a p.next rest'.head? := by
        rw [hnext, List.head?_eq_getElem?, List.head?_eq_getElem?]
        exact hapart 0 p.message rfl
      obtain ⟨p', t₁, rfl, hnext', hconsumed, step', htwin⟩ := step.redirect run.sound
        (run.step_single hm step.toBody) mirrors twin hraw (hnext ▸ htail.head?) hbias
      have hleft : Redirects y a (if p.consumed then rest.tail else rest)
          (if p'.consumed then rest'.tail else rest') := by
        rw [hconsumed]
        split
        · exact htail.tail
        · exact htail
      obtain ⟨t', ht', htwin'⟩ := ih _ (hn ▸ length_left_lt p.message) (.step run hnext step)
        (run.mirrors_step hm step mirrors) htwin hleft hs rfl
      exact ⟨t', steps_cons_eq_ok.mpr ⟨p', t₁, rfl, hnext', step', ht'⟩, htwin'⟩

/-- From the same way up to an identity that is left out, the import goes on to a state of the same graph
when later messages read its operand instead of its output. -/
theorem Run.importState_redirect (hm : m.WellFormed) (run : Run m ps (raw :: rest) s)
    (hop : raw.operator = "Identity") (hin : raw.inputs.head? = some a) (hout : raw.outputs = [y])
    (resolve : s.registry.resolve a = .ok v) (bare : v.literal = none) (inner : y ∉ m.outputNames)
    (h : Redirects y a rest rest') (hr : ofModel m' = ofModel m)
    (hnodes : m'.nodes = ps.flatMap Passage.messages ++ raw :: rest')
    (hs : m.importState false = .ok s') : ∃ t', m'.importState false = .ok t' ∧ s'.Twin t' := by
  have run' := run.congr hr hnodes rfl
  rw [run.importState_eq] at hs
  obtain ⟨p, s₁, rfl, hnext, step, hs⟩ := steps_cons_eq_ok.mp hs
  obtain ⟨-, -, -, hconsumed⟩ := step.of_identity hop
  have mirrors := run.mirrors_of_identity hm step hop hin hout resolve bare
    (run.isOutput_eq_false inner)
  -- the step over the identity is the same for both models
  have run₁ := Run.step run hnext step
  have run₁' := Run.step (p := { p with next := rest'.head? }) run' rfl
    (step.set_next hop rest'.head?)
  rw [if_neg (ne_true_of_eq_false hconsumed)] at hs run₁ run₁'
  obtain ⟨t', ht, htwin⟩ := run₁.steps_redirect hm mirrors (.refl s₁) h hs
  exact ⟨t', by rw [run₁'.importState_eq, ht], htwin⟩

lemma filter_zipIdx_congr {α : Type} {as bs : List α} {k : Nat} (P : Nat → Bool)
    (hlen : as.length = bs.length) (h : ∀ i, P (k + i) = true → bs[i]? = as[i]?) :
    (bs.zipIdx k).filter (P ·.2) = (as.zipIdx k).filter (P ·.2) := by
  induction as generalizing bs k with
  | nil =>
    obtain rfl := List.length_eq_zero_iff.mp hlen.symm
    rfl
  | cons b as ih =>
    cases bs with
    | nil => simp at hlen
    | cons c bs =>
      have hrest := ih (k := k + 1) (by simpa using hlen) fun i hi => by
        simpa using h (i + 1) (by rwa [← Nat.add_assoc, Nat.add_right_comm])
      rw [List.zipIdx_cons, List.zipIdx_cons, List.filter_cons, List.filter_cons, hrest]
      split
      · next hk =>
        obtain rfl : c = b := by simpa using h 0 hk
        rfl
      · rfl

lemma ImportState.Twin.graph (h : s.Twin t) (name : String) : t.graph name = s.graph name := by
  have hnodes := filter_zipIdx_congr (k := 0) (fun i => decide (i ∉ s.removed)) h.nodes.length_eq
    fun i hi => h.kept i (by simpa using hi)
  simp only [ImportState.graph, h.removed, hnodes]
  rw [h.registry.eq]
  rfl

end TensorGraph
