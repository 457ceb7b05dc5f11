import TensorGraph.Proofs.Accounting
import TensorGraph.Proofs.GraphOutputs
import TensorGraph.Proofs.LateNames

/-!
# Generated operands

An Unsqueeze that becomes a Reshape gets its shape as an operand under a generated name, and the
registry looks this name up as it does those of the file. The operand therefore stays unnamed if and
only if the name does not stand for a value of the file, and a node that writes a name behind it may be
refused although nothing in the file reads that name (`importGraph_generatedOperands`). The shape is
the declared one unless the graph boundary has been written before or is an array of the file.
-/

namespace TensorGraph

open Onnx ModelMessage Registry

variable {m : ModelMessage} {r r₀ r' : Registry} {s s' : ImportState} {p q : Passage}
  {ps : List Passage} {rest : List NodeMessage} {n : Node} {v : Value} {vs ws : List Value}
  {x : String} {slot slot' : Slot} {d : ValueMessage} {ds : List ValueMessage} {a : Nat}

namespace Onnx

/-- The sizes of the axes; one stands for a size that is not given. -/
def ValueMessage.sizes (d : ValueMessage) : List Int :=
  d.dims.map fun
    | .size k => k
    | .symbol _ | .unknown => 1

/-- The graph input or output that the model declares under a name: of two the later one, and an output
rather than an input. -/
def ModelMessage.declaration? (m : ModelMessage) (x : String) : Option ValueMessage :=
  (m.inputs ++ m.outputs).reverse.find? (·.name = x)

lemma ValueMessage.dims?_toValue (h : d.toValue = .ok v) :
    v.type.dims? = some (d.sizes.map .whole) := by
  simp only [toValue, Except.bind_eq_ok, Except.pure_eq_ok] at h
  obtain ⟨t, -, rfl⟩ := h
  have hsizes : d.sizes.map Size.whole = d.dims.map Dimension.toSize := by
    rw [sizes, List.map_map]
    refine List.map_congr_left fun dim _ => ?_
    cases dim <;> rfl
  rw [hsizes]
  cases d.dims <;> rfl

end Onnx

namespace Registry

/-- What a name stands for has the sizes that the last of the declarations `ds` says, but that a graph
input may have those of an array. -/
def SizedBy (ds : List ValueMessage) (r : Registry) : Prop :=
  ∀ x slot, r.slots.get? x = some slot → ∃ d, ds.reverse.find? (·.name = x) = some d ∧
    ((∃ i, slot = .output i) ∨ r.initializers.get? x = none →
      (r.value slot).type.dims? = some (d.sizes.map .whole))

/-- A declaration adds a slot. -/
lemma SizedBy.declare (h : r.SizedBy ds) (hr : r.Sound)
    (hslots : r'.slots = r.slots.insert d.name slot) (hinit : r'.initializers = r.initializers)
    (hkept : ∀ slot, r.Has slot → r'.value slot = r.value slot)
    (hnew : (∃ i, slot = .output i) ∨ r.initializers.get? d.name = none →
      (r'.value slot).type.dims? = some (d.sizes.map .whole)) : r'.SizedBy (ds ++ [d]) := by
  intro x slot' hs
  rw [hslots, Table.get?_insert] at hs
  rw [List.reverse_append, List.reverse_singleton, List.singleton_append, List.find?_cons, hinit]
  split at hs
  · next hx =>
    obtain rfl := Option.some.inj hs
    exact ⟨d, by simp [hx], by rwa [hx]⟩
  · next hx =>
    obtain ⟨d', hd', hsizes⟩ := h x slot' hs
    refine ⟨d', by simpa [Ne.symm hx] using hd', ?_⟩
    rw [hkept slot' (hr.has hs)]
    exact hsizes

lemma SizedBy.addInput (h : r.SizedBy ds) (hr : r.Sound) (h' : r.addInput d = .ok r') :
    r'.SizedBy (ds ++ [d]) := by
  simp only [Registry.addInput, Except.bind_eq_ok, Except.pure_eq_ok] at h'
  obtain ⟨v, hv, rfl⟩ := h'
  have hslots : _ = r.slots.insert d.name (.input r.inputs.length) := rfl
  refine h.declare hr hslots rfl (fun slot hs => ?_) ?_
  · cases slot with
    | input i => simp [value, List.getD_eq_getElem?_getD, List.getElem?_append_left hs]
    | _ => rfl
  · rintro (⟨i, hi⟩ | hnone)
    · cases hi
    · simp only [value, getD_concat_length, hnone]
      exact ValueMessage.dims?_toValue hv

lemma SizedBy.addOutput (h : r.SizedBy ds) (hr : r.Sound) (h' : r.addOutput d = .ok r') :
    r'.SizedBy (ds ++ [d]) := by
  simp only [Registry.addOutput, Except.bind_eq_ok, Except.pure_eq_ok] at h'
  obtain ⟨v, hv, rfl⟩ := h'
  have hslots : _ = r.slots.insert d.name (.output r.outputs.length) := rfl
  refine h.declare hr hslots rfl (fun slot hs => ?_) fun _ => ?_
  · cases slot with
    | output i => simp [value, List.getD_eq_getElem?_getD, List.getElem?_append_left hs]
    | _ => rfl
  · simp only [value, getD_concat_length]
    exact ValueMessage.dims?_toValue hv

theorem ofModel_sizedBy (h : ofModel m = .ok r) : r.SizedBy (m.inputs ++ m.outputs) := by
  simp only [ofModel, Except.bind_eq_ok] at h
  obtain ⟨t, -, r₁, h₁, h₂⟩ := h
  have start : ({ initializers := t } : Registry).Sound ∧
      ({ initializers := t } : Registry).SizedBy [] :=
    ⟨⟨by simp, by simp⟩, fun x slot hs => by simp at hs⟩
  have hins : r₁.Sound ∧ r₁.SizedBy m.inputs :=
    Except.foldlM_prefix (fun ds r => r.Sound ∧ r.SizedBy ds)
      (fun _ _ _ _ h hr => ⟨sound_addInput hr.1 h, hr.2.addInput hr.1 h⟩) h₁ start
  exact (Except.foldlM_prefix (fun ds r => r.Sound ∧ r.SizedBy ds)
    (fun _ _ _ _ h hr => ⟨sound_addOutput hr.1 h, hr.2.addOutput hr.1 h⟩) h₂ hins).2

/-- A graph input or output has the declared sizes before the first node, unless it is an input with an
array. -/
lemma ofModel_declared (h : ofModel m = .ok r) (hs : r.slots.get? x = some slot) :
    ∃ d, m.declaration? x = some d ∧ (x ∈ m.outputNames ∨ x ∉ m.initializerNames →
      (r.value slot).type.dims? = some (d.sizes.map .whole)) := by
  obtain ⟨declares, arrays⟩ := ofModel_declares h
  obtain ⟨d, hd, hsizes⟩ := ofModel_sizedBy h x slot hs
  refine ⟨d, hd, fun hx => hsizes (hx.imp (fun hout => ?_) fun harray => ?_)⟩
  · obtain ⟨i, hi⟩ := declares.outer hout
    exact ⟨i, Option.some.inj (hs.symm.trans hi)⟩
  · cases ha : r.initializers.get? x with
    | none => rfl
    | some a =>
      have hmem := arrays.contains.mp (by rw [Table.contains_eq_isSome_get?, ha]; rfl)
      exact absurd hmem harray

end Registry

namespace Registry

lemma type_modify {f : Value → Value} (hf : ∀ v, (f v).type = v.type) (hs : r.Has slot) :
    ((r.modify f slot').value slot).type = (r.value slot).type := by
  by_cases h : slot = slot'
  · subst h
    rw [value_modify_self f hs, hf]
  · rw [value_modify_of_ne f h]

lemma renameLiteral_type (h : ImportState.renameLiteral n r = .ok (r', ws)) (hs : r.Has slot) :
    (r'.value slot).type = (r.value slot).type := by
  obtain ⟨v, vs, -, hrename, -⟩ := renameLiteral_eq_ok.mp h
  obtain ⟨-, rfl⟩ | ⟨slot', -, -, -, rfl⟩ := insertOrRename_cases hrename
  · rw [value_addInterior hs]
  · exact type_modify (fun _ => rfl) hs

lemma renameOutputs_type {number : Nat}
    (h : ImportState.renameOutputs n r number vs = .ok (r', ws)) (hs : r.Has slot) :
    (r'.value slot).type = (r.value slot).type := by
  have hkeeps := renameOutputs_invariant
    (P := fun r₁ => r₁.Has slot ∧ (r₁.value slot).type = (r.value slot).type)
    (fun _ _ h₁ hr => ?_) h ⟨hs, rfl⟩
  · exact hkeeps.2
  · obtain ⟨slot', -, -, rfl⟩ := rename_ok h₁
    refine ⟨(has_modify _).mpr hr.1, ?_⟩
    rw [← hr.2]
    exact type_modify (fun _ => rfl) hr.1

end Registry

/-- What a node does not write keeps its type. This holds under the empty name as well, by which a
Constant that leaves its output unnamed renames a graph output. -/
lemma Step.type_of_unwritten (h : Step s p s') (hs : s.registry.Sound) (hx : x ∉ p.written)
    (hslot : s.registry.slots.get? x = some slot) :
    (s'.registry.value slot).type = (s.registry.value slot).type := by
  have hrecord := h.outside_recorded hs
  have hmarks := h.marks hs
  have hhas : p.marked.Has slot := hmarks.has.mpr (hrecord.sound.has ((hrecord.slots hx).trans hslot))
  have hmarked : (p.marked.value slot).type = (s.registry.value slot).type := by
    rcases hmarks.value slot with e | e <;> rw [e, hrecord.value hx hslot]
  rw [← hmarked, h.state]
  have hrename := h.renameOutputs
  split at hrename
  · exact renameLiteral_type hrename hhas
  · exact renameOutputs_type hrename hhas

/-- A graph input or output that no node has written has the type that it has had from the start. -/
lemma Run.type_of_unwritten (hr : ofModel m = .ok r₀) (run : Run m ps rest s)
    (hx : ∀ q ∈ ps, x ∉ q.written) (hslot : r₀.slots.get? x = some slot) :
    (s.registry.value slot).type = (r₀.value slot).type := by
  have houter : ∀ i, slot ≠ .interior i := fun i hi =>
    (ofModel_declares hr).1.not_interior i (hi ▸ hslot)
  induction run with
  | start h =>
    obtain rfl := Except.ok.inj (hr.symm.trans h)
    rfl
  | @step ps p rest s s' run next step ih =>
    rw [step.type_of_unwritten run.sound (hx p (by simp)) (((run.grows hr).outer houter).mpr hslot)]
    exact ih fun q hq => hx q (List.mem_append_left _ hq)

/-- A name that no node has written stands for what it stood for from the start. -/
lemma Run.slots_of_unwritten (hr : ofModel m = .ok r₀) (run : Run m ps rest s) (hne : x ≠ "")
    (hx : ∀ q ∈ ps, x ∉ q.written) : s.registry.slots.get? x = r₀.slots.get? x := by
  induction run with
  | start h =>
    obtain rfl := Except.ok.inj (hr.symm.trans h)
    rfl
  | @step ps p rest s s' run next step ih =>
    rw [(step.outside run.sound (hx p (by simp)) hne).1]
    exact ih fun q hq => hx q (List.mem_append_left _ hq)

/-- A name that a node has written stands for something. -/
lemma Run.isSome_of_written (run : Run m ps rest s) (hq : q ∈ ps) (hx : x ∈ q.written) :
    ∃ slot, s.registry.slots.get? x = some slot := by
  obtain ⟨before, after, hps⟩ := List.append_of_mem hq
  obtain ⟨rest₁, s₁, s₂, run₁, -, step, hg⟩ := run.split_grows hps
  obtain ⟨-, slot, hslot⟩ := step.open_of_written run₁.sound hx
  have hgrows := (step.grows_marked run₁.sound).trans (step.grows_registry run₁.sound)
  rw [step.state] at hg
  exact (hgrows.trans hg).isSome hslot

/-- The name stands for a value of the file after the passages `ps`: it is that of a graph input that is
no array, or a node has written it. -/
inductive Onnx.ModelMessage.Takes (m : ModelMessage) (ps : List Passage) (x : String) : Prop where
  | input (declared : x ∈ m.inputNames) (bare : x ∉ m.initializerNames)
  | written (inner : x ∉ m.inputNames) {q : Passage} (mem : q ∈ ps) (written : x ∈ q.written)

section

variable (run : Run m ps (p.message :: rest) s) (h : Step s p s')

include run h

lemma Run.recorded_of_written (hq : q ∈ ps ++ [p]) (hx : x ∈ q.written) :
    ∃ slot, p.recorded.slots.get? x = some slot := by
  rw [List.mem_append, List.mem_singleton] at hq
  rcases hq with hq | rfl
  · obtain ⟨slot, hslot⟩ := run.isSome_of_written hq hx
    exact (h.grows_recorded run.sound).isSome hslot
  · exact (h.open_of_written run.sound hx).2

/-- Only what a node has written stands for what a node has produced. -/
lemma Run.written_of_recorded {i : Nat} (hne : x ≠ "")
    (hi : p.recorded.slots.get? x = some (.interior i)) : ∃ q ∈ ps ++ [p], x ∈ q.written := by
  obtain ⟨r₀, hr⟩ := run.registry_eq_ok
  by_contra hfree
  push Not at hfree
  rw [(h.outside_recorded run.sound).slots (hfree p (by simp)),
    run.slots_of_unwritten hr hne fun q hq => hfree q (List.mem_append_left _ hq)] at hi
  exact (ofModel_declares hr).1.not_interior i hi

/-- A name that an operand is looked up by is that of a graph input exactly if it stands for one. -/
lemma Run.recorded_input_iff (hv : v ∈ p.typed.inputs) (hne : v.name ≠ "") :
    (∃ i, p.recorded.slots.get? v.name = some (.input i)) ↔ v.name ∈ m.inputNames := by
  obtain ⟨r₀, hr⟩ := run.registry_eq_ok
  obtain ⟨declares, -⟩ := ofModel_declares hr
  have hgrows := h.grows_recorded run.sound
  constructor
  · rintro ⟨i, hi⟩
    exact run.mem_inputNames ((hgrows.outer (by simp)).mp hi)
  · intro hmem
    obtain ⟨slot, hslot⟩ := Option.isSome_iff_exists.mp (declares.known (.inl hmem))
    have houter : ∀ i, slot ≠ .interior i := fun i hi => declares.not_interior i (hi ▸ hslot)
    have hslot := ((run.grows hr).outer houter).mpr hslot
    cases slot with
    | interior i => exact absurd rfl (houter i)
    | input i => exact ⟨i, (hgrows.outer (by simp)).mpr hslot⟩
    | output i => exact absurd hslot (h.not_output_of_read run.sound hv hne)

/-- An operand stays unnamed exactly if the name that it is looked up by is not taken. -/
theorem Run.nameFor_eq_none_iff (hv : v ∈ p.typed.inputs) (hne : v.name ≠ "") :
    p.recorded.nameFor v.name = none ↔ ¬ m.Takes (ps ++ [p]) v.name := by
  have hinput := run.recorded_input_iff h hv hne
  have harray : p.recorded.initializers.contains v.name = true ↔ v.name ∈ m.initializerNames := by
    rw [(h.grows_recorded run.sound).initializers]
    exact run.arrays.contains
  simp only [nameFor, hne, if_false]
  constructor
  · intro hnone htaken
    cases htaken with
    | input declared bare =>
      obtain ⟨i, hi⟩ := hinput.mpr declared
      simp [hi, mt harray.mp bare] at hnone
    | written inner mem written =>
      obtain ⟨slot, hslot⟩ := run.recorded_of_written h mem written
      cases slot with
      | input i => exact inner (hinput.mp ⟨i, hslot⟩)
      | output i =>
        have hgrows := h.grows_recorded run.sound
        exact h.not_output_of_read run.sound hv hne ((hgrows.outer (by simp)).mp hslot)
      | interior i => simp [hslot] at hnone
  · intro hfree
    split
    · next i hi =>
      have hmem : v.name ∈ m.initializerNames := by
        by_contra hbare
        exact hfree (.input (hinput.mp ⟨i, hi⟩) hbare)
      rw [if_pos (harray.mpr hmem)]
    · next i hi =>
      obtain ⟨q, hq, hw⟩ := run.written_of_recorded h hne hi
      refine absurd (.written (fun hmem => ?_) hq hw) hfree
      obtain ⟨j, hj⟩ := hinput.mpr hmem
      simp [hi] at hj
    · rfl

end

/-! ## Unsqueezes that become Reshapes -/

/-- The passage makes a Reshape of an Unsqueeze of the file. -/
def Passage.Rewrites (p : Passage) : Prop :=
  p.message.operator = "Unsqueeze" ∧ p.final.operator = .reshape

lemma Step.Body.rewrites_iff (h : Step.Body s p) : p.Rewrites ↔ p.Reshaped := by
  refine ⟨fun ⟨hmessage, hfinal⟩ => ?_, fun hp => ⟨h.operator_of_reshaped hp, hp.2⟩⟩
  have htyped : p.typed.operator = .reshape := hfinal
  refine ⟨?_, htyped⟩
  rcases h.reshapes.operator with hkept | ⟨hop, -⟩
  swap
  · exact hop
  -- a node that is a Reshape from the start stands for a Reshape of the file
  have hfused : p.fused.operator = .reshape := by
    rw [← h.operator_lifted, ← hkept, ← h.operator_typed, htyped]
  have hspecialised : p.specialised.operator = .reshape := by
    rcases h.fuses.operator with ⟨hf, -⟩ | hf
    · exact hf ▸ hfused
    · simp [hf] at hfused
  have hop := h.operator_specialised (by rw [hspecialised]; rfl)
  rw [hspecialised, hmessage] at hop
  exact absurd hop (by decide)

/-- The graph input or output is still as it is declared after the passages `ps`: no node has written
it, and it is no graph input that is an array. -/
structure Onnx.ModelMessage.AsDeclared (m : ModelMessage) (ps : List Passage) (x : String) : Prop where
  unwritten : ∀ q ∈ ps, x ∉ q.written
  bare : x ∈ m.outputNames ∨ x ∉ m.initializerNames

/-- The shape of the graph input or output `x` in the registry `r` after the passages `before`, as
integers. -/
structure BoundaryShape (m : ModelMessage) (before : List Passage) (r : Registry) (x : String)
    (shape : List Int) : Prop where
  boundary : ∃ b sizes, r.boundary? x = .ok (some b) ∧ b.type.dims? = some sizes ∧
    sizes.mapM Size.toWord = .ok shape
  declared : ∃ d, m.declaration? x = some d ∧ (m.AsDeclared before x → shape = d.sizes)

/-- The operand `v` that is generated for the passage `p`, which follows the passages `before` and the
registry `r` and writes the graph input or output `x`. -/
structure GeneratedOperand (m : ModelMessage) (before : List Passage) (r : Registry) (p : Passage)
    (v : Value) (x : String) (shape : List Int) : Prop where
  output : p.message.outputs.head? = some x
  operand : p.final.inputs[1]? = some v
  unnamed : v.name = "" ∧ v.used = false ↔ ¬ m.Takes (before ++ [p]) p.operandName
  literal : v.literal = some (.vector (.signed 64) (shape.map .int))
  shape_eq : BoundaryShape m before r x shape

lemma Registry.boundary?_of_slot (hs : r.slots.get? x = some slot) (houter : ∀ i, slot ≠ .interior i) :
    r.boundary? x = .ok (some (r.value slot)) := by
  cases slot with
  | interior i => exact absurd rfl (houter i)
  | _ => simp [boundary?, hs]

lemma Registry.renamedOperand_unnamed_iff :
    (r.renamedOperand v).name = "" ∧ (r.renamedOperand v).used = false ↔ r.nameFor v.name = none := by
  unfold renamedOperand
  split <;> simp_all

lemma Node.shapeOperandName_ne (n : Node) : n.shapeOperandName ≠ "" := fun h => by
  have hgenerated := generated_shapeOperand n []
  rw [show (n.shapeOperand []).name = "" from h] at hgenerated
  exact absurd hgenerated (by decide)

/-- A Reshape that was an Unsqueeze has the operand that is generated for it. -/
theorem Run.generatedOperand (run : Run m ps (p.message :: rest) s) (h : Step s p s')
    (hp : p.Reshaped) : ∃ v x shape, GeneratedOperand m ps s.registry p v x shape := by
  obtain ⟨hc, x, xs, slot, target, hx, hslot, houter, ⟨sizes, hsizes, hwords⟩, hreshaped, -⟩ :=
    h.typed.of_reshaped hp
  obtain ⟨r₀, hr⟩ := run.registry_eq_ok
  have hslot₀ := ((run.grows hr).outer houter).mp hslot
  obtain ⟨d, hd, hdeclared⟩ := ofModel_declared hr hslot₀
  have hoperand : p.typed.inputs[1]? = some (p.lifted.shapeOperand target) :=
    h.inputs_typed ▸ hreshaped
  have hname : (p.lifted.shapeOperand target).name = p.operandName := h.operandName_eq.symm
  refine ⟨p.recorded.renamedOperand (p.lifted.shapeOperand target), x, target, ?output, ?operand,
    ?unnamed, literal_renamedOperand, ⟨_, sizes, boundary?_of_slot hslot houter, hsizes, hwords⟩,
    d, hd, ?declared⟩
  case output =>
    rw [← Passage.outputNames_of_kept hc, hx]
    rfl
  case operand =>
    rw [h.inputs_final run.sound, List.getElem?_map, hoperand]
    rfl
  case unnamed =>
    rw [renamedOperand_unnamed_iff, ← hname]
    exact run.nameFor_eq_none_iff h (List.mem_of_getElem? hoperand) p.lifted.shapeOperandName_ne
  case declared =>
    intro hfresh
    have htype := run.type_of_unwritten hr hfresh.unwritten hslot₀
    rw [htype, hdeclared hfresh.bare] at hsizes
    obtain rfl := Option.some.inj hsizes
    exact Size.mapM_toWord_whole hwords

/-- A Reshape is not left out of the graph. -/
lemma Run.final_mem_graph (run : Run m ps [] s) (ha : ps[a]? = some p)
    (hop : p.final.operator = .reshape) : p.final ∈ (s.graph m.name).nodes := by
  refine (mem_graph_nodes run.nodes).mpr ⟨a, p, ha, fun hremoved => ?_, rfl⟩
  obtain ⟨q, hq, hout⟩ := run.leftOut hremoved
  obtain rfl := Option.some.inj (ha.symm.trans hq)
  cases hout with
  | identity operator => simp [hop] at operator
  | lifted writes => simp [Node.WritesLiteral, hop] at writes

/-- For every Unsqueeze that an import makes a Reshape of, the graph has the Reshape with the generated
operand. This operand has no name and does not count as used if and only if its name does not stand for
a value of the file. It holds the shape of the graph boundary that the Unsqueeze writes, which is the
declared one if the boundary is still as it is declared. Where an import is refused because a name is
produced late, a node of the file reads the name, or it is that of an operand that has been generated
before. -/
theorem importGraph_generatedOperands (m : ModelMessage) (checkFirst : Bool) :
    (∀ g, m.importGraph checkFirst = .ok g → ∃ ps s, Run m ps [] s ∧ g = s.graph m.name ∧
      ∀ a p, ps[a]? = some p → p.Rewrites → p.final ∈ g.nodes ∧
        ∃ rest s₁, Run m (ps.take a) (p.message :: rest) s₁ ∧
          ∃ v x shape, GeneratedOperand m (ps.take a) s₁.registry p v x shape) ∧
    ∀ x writer, m.importGraph checkFirst = .error (.naming (.producedLate x writer)) →
      (∃ raw ∈ m.nodes, x ∈ raw.inputs) ∨
        ∃ ps rest s, Run m ps rest s ∧ ∃ q ∈ ps, q.Rewrites ∧ x = q.operandName := by
  refine ⟨fun g hg => ?_, fun x writer hlate => ?_⟩
  · obtain ⟨ps, s, run, rfl⟩ := importGraph_ok hg
    refine ⟨ps, s, run, rfl, fun a p ha hp => ⟨run.final_mem_graph ha hp.2, ?_⟩⟩
    obtain ⟨before, after, hps, hlen⟩ := split_of_getElem? ha
    obtain ⟨rest₁, s₁, s₂, run₁, -, step, -⟩ := run.split_grows hps
    have htake : ps.take a = before := by simp [hps, ← hlen]
    rw [htake]
    exact ⟨rest₁, s₁, run₁, run₁.generatedOperand step (step.rewrites_iff.mp hp)⟩
  · obtain ⟨-, ps, p, rest, s, run, -, late⟩ := importGraph_eq_late hlate
    rcases run.missed_cases (late.missed run.sound).2.1 with hread | ⟨q, hq, hreshaped, hx⟩
    · exact .inl (run.exists_reader hread)
    · refine .inr ⟨ps, _, s, run, q, hq, ?_, hx⟩
      obtain ⟨before, after, hps⟩ := List.append_of_mem hq
      obtain ⟨rest₁, s₁, s₂, run₁, -, step, -⟩ := run.split_grows hps
      exact step.rewrites_iff.mpr hreshaped

/-- An Unsqueeze whose axes are a graph input. -/
def runtimeAxes : ModelMessage where
  inputs := [{ name := "x", elementType := 1, dims := [.size 2] },
    { name := "a", elementType := 7, dims := [.size 1] }]
  outputs := [{ name := "y", elementType := 1, dims := [.size 1, .size 2] }]
  nodes := [{ operator := "Unsqueeze", inputs := ["x", "a"], outputs := ["y"] }]

/-- A further graph input bears the generated name. -/
def inputNamedAlike : ModelMessage :=
  { runtimeAxes with inputs := runtimeAxes.inputs ++
      [{ name := "unsqueeze1_generated_const", elementType := 1, dims := [.size 1] }] }

/-- A Relu behind the Unsqueeze writes the generated name. -/
def outputNamedAlike : ModelMessage :=
  { runtimeAxes with nodes := runtimeAxes.nodes ++
      [{ operator := "Relu", inputs := ["x"], outputs := ["unsqueeze1_generated_const"] }] }

lemma outputNamedAlike_late : outputNamedAlike.importGraph false =
    .error (.naming (.producedLate "unsqueeze1_generated_const" "relu1")) := by
  decide +kernel

lemma outputNamedAlike_unread :
    ∀ raw ∈ outputNamedAlike.nodes, "unsqueeze1_generated_const" ∉ raw.inputs := by
  decide

/-- The operand that is generated for an Unsqueeze, and its name behind the Unsqueeze. -/
theorem importGraph_generatedOperands_runtimeAxes :
    (∃ g, runtimeAxes.importGraph false = .ok g ∧
      g.nodes.map (fun n => (n.operator, n.inputs[1]?)) = [(.reshape, some
        { name := "", type := .tensor .int64 1 (some [2])
          literal := some (.vector (.signed 64) [.int 1, .int 2]) })] ∧
      ∃ ps s, Run runtimeAxes ps [] s ∧ g = s.graph runtimeAxes.name ∧
        ∃ a p, ps[a]? = some p ∧ p.Rewrites ∧ p.final ∈ g.nodes ∧
          ∃ rest s₁, Run runtimeAxes (ps.take a) (p.message :: rest) s₁ ∧
            ∃ v x shape, GeneratedOperand runtimeAxes (ps.take a) s₁.registry p v x shape) ∧
    outputNamedAlike.importGraph false =
        .error (.naming (.producedLate "unsqueeze1_generated_const" "relu1")) ∧
      ∃ ps rest s, Run outputNamedAlike ps rest s ∧
        ∃ q ∈ ps, q.Rewrites ∧ "unsqueeze1_generated_const" = q.operandName := by
  refine ⟨?_, outputNamedAlike_late, ?_⟩
  · obtain ⟨g, hg, hnodes⟩ : ∃ g, runtimeAxes.importGraph false = .ok g ∧
        g.nodes.map (fun n => (n.operator, n.inputs[1]?)) = [(.reshape, some
          { name := "", type := .tensor .int64 1 (some [2])
            literal := some (.vector (.signed 64) [.int 1, .int 2]) })] :=
      Except.exists_ok (by decide +kernel)
    obtain ⟨n, hn, hinput⟩ := List.map_eq_singleton_iff.mp hnodes
    have hop : n.operator = .reshape := congrArg Prod.fst hinput
    have hmem : n ∈ g.nodes := by simp [hn]
    obtain ⟨ps, s, run, rfl, hoperands⟩ := (importGraph_generatedOperands runtimeAxes false).1 g hg
    obtain ⟨a, p, ha, -, rfl⟩ := (mem_graph_nodes run.nodes).mp hmem
    have hp : p.Rewrites := by
      refine ⟨?_, hop⟩
      rw [List.mem_singleton.mp (run.message_mem (List.mem_of_getElem? ha))]
    exact ⟨_, hg, hnodes, ps, s, run, rfl, a, p, ha, hp, hoperands a p ha hp⟩
  · rcases (importGraph_generatedOperands outputNamedAlike false).2 _ _ outputNamedAlike_late with
      ⟨raw, hraw, hx⟩ | hgenerated
    · exact absurd hx (outputNamedAlike_unread raw hraw)
    · exact hgenerated

/-- A graph input gives the generated operand its name, and a name is refused that no node reads. -/
theorem generatedOperand_namedAlike :
    (∃ g, inputNamedAlike.importGraph false = .ok g ∧
      g.nodes.map (fun n => (n.operator, n.inputs.map fun v => (v.name, v.used))) =
        [(.reshape, [("input1", true), ("input3", true)])]) ∧
    outputNamedAlike.importGraph false =
        .error (.naming (.producedLate "unsqueeze1_generated_const" "relu1")) ∧
      ∀ raw ∈ outputNamedAlike.nodes, "unsqueeze1_generated_const" ∉ raw.inputs :=
  ⟨Except.exists_ok (by decide +kernel), outputNamedAlike_late, outputNamedAlike_unread⟩

end TensorGraph
