import TensorGraph.Proofs.Import.Edges
import TensorGraph.Proofs.Import.Messages

/-!
# Omitted operands and outputs

In a file the empty name is that of an operand or an output that is left out. An import keeps what
is left out so, as long as every message that leaves out its first output is guarded: it is no
Constant, no identity, no product that takes over a sum, and no Unsqueeze that becomes a Reshape
(`importGraph_omitted`).
-/

namespace TensorGraph

open Onnx ModelMessage Registry

variable {m : ModelMessage} {r r₀ : Registry} {s s' : ImportState} {p : Passage}
  {ps : List Passage} {rest : List NodeMessage} {v : Value} {x : String} {k : Nat}

/-- The operand is left out: it has no name and no literal, and nothing is passed in it. -/
structure Value.Omitted (v : Value) : Prop where
  name : v.name = ""
  literal : v.literal = none
  used : v.used = false

/-- If the message leaves out its first output, it is neither a Constant nor an identity, takes over
no sum and is not rewritten. -/
def Passage.Guarded (p : Passage) : Prop :=
  p.message.outputs.head? = some "" →
    ImportState.isTransparent p.typed.operator = false ∧ p.consumed = false ∧ ¬ p.Reshaped

/-- The empty name stands for what it stands for in `r`. Its readers read no other name instead, and
get no literal. -/
structure ImportState.KeepsEmpty (r : Registry) (s : ImportState) : Prop where
  slot : s.registry.slots.get? "" = r.slots.get? ""
  elision : s.elisions.get? "" = none
  constant : s.constants.get? "" = none

/-- What the messages leave out stays so in the nodes, where `r` is the registry before the passages
`ps` and `s` is the state after them. -/
structure KeepsOmitted (r : Registry) (ps : List Passage) (s : ImportState) : Prop where
  /-- Operands are left out, but that the second of an Unsqueeze may be exchanged for a shape. -/
  operand : ∀ p ∈ ps, ∀ k : Nat, p.message.inputs[k]? = some "" → ¬ (k = 1 ∧ p.Reshaped) →
    ∃ v : Value, p.final.inputs[k]? = some v ∧ v.Omitted
  /-- A sum that is taken over leaves out no operand. -/
  addend : ∀ p ∈ ps, p.consumed = true → ∀ sum, p.next = some sum → "" ∉ sum.inputs
  /-- Outputs are not registered under any name. -/
  output : ∀ p ∈ ps, ∀ k : Nat, p.outputNames[k]? = some "" →
    ∃ v : Value, p.typed.outputs[k]? = some v ∧ v.name = ""
  empty : s.KeepsEmpty r

lemma Value.Transposable.eq_of_bare {w : Value} (h : v.Transposable w) (hv : v.literal = none) :
    w = v := by
  rcases h with rfl | rfl
  · rfl
  · simp [Value.transpose, hv]

lemma Registry.omitted_renamedOperand (hname : v.name = "") (hbare : v.literal = none) :
    (r.renamedOperand v).Omitted := by
  have hnew : r.nameFor v.name = none := by simp [nameFor, hname]
  simp only [renamedOperand, hnew]
  exact ⟨rfl, hbare, rfl⟩

namespace Step

/-- The first output of a Constant or of an identity that is guarded has a name. -/
lemma Body.named_of_transparent (h : Body s p) (hp : p.Guarded)
    (ht : ImportState.isTransparent p.typed.operator = true) : p.outputNames.head? ≠ some "" := by
  obtain ⟨hc, -⟩ := h.transparent ht
  rw [Passage.outputNames_of_kept hc]
  intro hhead
  rw [(hp hhead).1] at ht
  cases ht

lemma not_reshaped_of_transparent (ht : ImportState.isTransparent p.typed.operator = true) :
    ¬ p.Reshaped := by
  rintro ⟨-, hop⟩
  simp [hop, ImportState.isTransparent] at ht

lemma Body.head_outputNames {vs : List Value} (h : Body s p)
    (ht : ImportState.isTransparent p.typed.operator = true) (hout : p.typed.outputs = v :: vs) :
    p.outputNames.head? = some v.name := by
  rw [← h.typed.names_of_kept (not_reshaped_of_transparent ht), hout]
  rfl

/-- A guarded passage leaves the empty name as it is. -/
theorem keepsEmpty (h : Step s p s') (hs : s.registry.Sound) (hp : p.Guarded)
    (he : s.KeepsEmpty r) : s'.KeepsEmpty r where
  slot := by
    have hx : "" ∉ p.written := fun hx => (Passage.mem_written.mp hx).1 rfl
    have hrecord := h.outside_recorded hs
    obtain ⟨names, hnames, hsame⟩ := h.outside_registry_of_head hs hx fun ht v vs hout hname =>
      h.named_of_transparent hp ht (hname ▸ h.head_outputNames ht hout)
    rw [h.state]
    exact (hsame.slots hnames).trans
      ((congrArg (·.get? "") (h.marks hs).slots).trans ((hrecord.slots hx).trans he.slot))
  elision := by
    cases h.elision with
    | past _ _ elisions => rw [elisions, he.elision]
    | @out _ y _ _ operator _ _ outputs _ _ _ elisions =>
      have hy : "" ≠ y := by
        rintro rfl
        exact h.named_of_transparent hp (by rw [operator]; rfl) (by rw [outputs]; rfl)
      rw [elisions, Table.get?_insert_of_ne _ _ hy, he.elision]
  constant := by
    cases h.literals with
    | reads _ _ constants => rw [constants, he.constant]
    | @writes y _ operator outputs _ constants =>
      have hy : "" ≠ y := by
        rintro rfl
        exact h.named_of_transparent hp operator (by rw [outputs]; rfl)
      rw [constants, Table.get?_insert_of_ne _ _ hy, he.constant]

/-- Before its last stages an operand that is left out is nothing but its empty name. -/
lemma Body.omitted_typed (h : Body s p) (he : s.KeepsEmpty r) (hx : p.message.inputs[k]? = some "")
    (hk : ¬ (k = 1 ∧ p.Reshaped)) : p.typed.inputs[k]? = some { name := "" } := by
  obtain ⟨lead, hlead⟩ := h.leads
  have hempty : lead "" = "" := by
    rcases hlead.cases with rfl | ⟨rfl, -⟩
    · simp [ImportState.sourceOf, he.elision]
    · rfl
  have hlt : k < p.message.inputs.length := (List.getElem?_eq_some_iff.mp hx).1
  have hv := List.getElem?_eq_getElem (Nat.lt_of_lt_of_le hlt h.length_inputs)
  have hread : ∀ {x u}, p.message.inputs[k]? = some x → s.registry.resolve x = .ok u →
      u = { name := "" } := by
    intro x u hmessage hresolve
    obtain rfl := Option.some.inj (hx.symm.trans hmessage)
    rw [resolve_empty] at hresolve
    exact (Except.ok.inj hresolve).symm
  rw [hv]
  cases h.operand hlead hv with
  | read message resolve value =>
    obtain rfl := hread message resolve
    rw [value.eq_of_bare rfl, hempty]
  | lifted message resolve _ known =>
    obtain rfl := hread message resolve
    rw [hempty, he.constant] at known
    cases known
  | bias _ place => omega
  | shape place operator operator' => exact absurd ⟨place, operator, operator'⟩ hk

/-- An operand that is left out stays so. -/
lemma omitted_operand (h : Step s p s') (hs : s.registry.Sound) (he : s.KeepsEmpty r)
    (hx : p.message.inputs[k]? = some "") (hk : ¬ (k = 1 ∧ p.Reshaped)) :
    ∃ v, p.final.inputs[k]? = some v ∧ v.Omitted := by
  obtain ⟨-, hinputs, -⟩ := renameInputs_ok (h.grows_recorded hs).sound h.renameInputs
  have hfinal : p.final.inputs[k]? = some (p.recorded.renamedOperand { name := "" }) := by
    rw [show p.final.inputs = p.inputs from rfl, hinputs, List.getElem?_map,
      h.omitted_typed he hx hk]
    rfl
  exact ⟨_, hfinal, omitted_renamedOperand rfl rfl⟩

/-- A sum leaves out an operand exactly if the product that takes it over leaves out its output. -/
lemma Front.mem_addends {sum : NodeMessage} (h : Front s p)
    (harrays : HoldsArrays m.initializers s.registry.initializers) (hc : p.consumed = true)
    (hnext : p.next = some sum) : "" ∈ sum.inputs ↔ p.message.outputs.head? = some "" := by
  obtain ⟨-, -, sum', add, bias, hsum, convert, adds⟩ := h.taken hc
  obtain rfl := Option.some.inj (hnext.symm.trans hsum)
  have hread := (convert_ok convert).2.2.1
  have hhead : ∀ {o os}, p.specialised.outputs = o :: os →
      p.message.outputs.head? = some o.name := by
    intro o os ho
    rw [h.outputs_specialised] at ho
    obtain ⟨z, zs, hz, rfl, -⟩ := List.map_eq_cons_iff.mp ho
    rw [hz]
    rfl
  constructor
  · intro hx
    obtain ⟨k, hk⟩ := List.getElem?_of_mem hx
    obtain ⟨v, hv, hresolve⟩ := forall₂_getElem? hread.flip hk
    rw [resolve_empty] at hresolve
    obtain rfl := Except.ok.inj hresolve
    rcases adds.covers _ (List.mem_of_getElem? hv) with hlit | ⟨o, os, ho, hname⟩
    · simp at hlit
    · rw [hhead ho, ← hname]
  · intro hx
    obtain ⟨o, os, ho, v, hv, hname⟩ := adds.output_mem
    obtain ⟨k, hk⟩ := List.getElem?_of_mem hv
    obtain ⟨y, hy, hresolve⟩ := forall₂_getElem? hread hk
    rw [hhead ho, Option.some.injEq, ← hname, harrays.name_resolve hresolve] at hx
    exact hx ▸ List.mem_of_getElem? hy

/-- An output that is left out is registered under no name. -/
lemma Body.omitted_output (h : Body s p) (hp : p.Guarded) (hx : p.outputNames[k]? = some "") :
    ∃ v, p.typed.outputs[k]? = some v ∧ v.name = "" := by
  have hnames : (p.typed.outputs.map Value.name)[k]? = some "" := by
    by_cases hreshaped : p.Reshaped
    · obtain ⟨hc, y, ys, slot, hout, -, -, hnames⟩ := h.typed.names_of_reshaped hreshaped
      rw [hout] at hx
      cases k with
      | succ k => rw [hnames, ← hx]; rfl
      | zero =>
        rw [Passage.outputNames_of_kept hc] at hout
        obtain ⟨-, -, hnot⟩ := hp (by rw [hout]; exact hx)
        exact absurd hreshaped hnot
    · rw [h.typed.names_of_kept hreshaped, hx]
  rwa [List.getElem?_map, Option.map_eq_some_iff] at hnames

/-- A Constant or an identity that leaves out its output enters the empty name among what nodes have
produced. -/
lemma empty_of_transparent (h : Step s p s') (hs : s.registry.Sound)
    (hinner : ∀ i, s.registry.slots.get? "" ≠ some (.output i))
    (ht : ImportState.isTransparent p.typed.operator = true)
    (hhead : p.message.outputs.head? = some "") :
    ∃ i, s'.registry.slots.get? "" = some (.interior i) := by
  have hmarked : ∀ i, p.marked.slots.get? "" ≠ some (.output i) := fun i hi =>
    hinner i ((((h.grows_recorded hs).trans (h.grows_marked hs)).outer (by simp)).mp hi)
  have hrename := h.renameOutputs
  rw [if_pos ht] at hrename
  obtain ⟨v, vs, hout, h₁, -⟩ := renameLiteral_eq_ok.mp hrename
  have hv : v.name = "" := by
    have hnames := h.head_outputNames ht hout
    rw [Passage.outputNames_of_kept (h.transparent ht).1, hhead] at hnames
    exact (Option.some.inj hnames).symm
  rw [h.state]
  exact hv ▸ insertOrRename_interior (hv ▸ hmarked) h₁

end Step

/-! ## Runs -/

/-- Guarded passages leave the empty name as it is. -/
theorem Run.keepsEmpty (hr : ofModel m = .ok r) (run : Run m ps rest s)
    (hp : ∀ p ∈ ps, p.Guarded) : s.KeepsEmpty r := by
  induction run with
  | start h =>
    obtain rfl := Except.ok.inj (hr.symm.trans h)
    exact ⟨rfl, by simp, by simp⟩
  | step run next step ih =>
    exact step.keepsEmpty run.sound (hp _ (by simp)) (ih fun q hq => hp q (by simp [hq]))

/-- Guarded passages keep what is left out. -/
theorem Run.keepsOmitted (hr : ofModel m = .ok r) (run : Run m ps rest s)
    (hp : ∀ p ∈ ps, p.Guarded) : KeepsOmitted r ps s := by
  have hstep : ∀ p ∈ ps, ∃ s₁ s₂ : ImportState, s₁.registry.Sound ∧ s₁.KeepsEmpty r ∧
      HoldsArrays m.initializers s₁.registry.initializers ∧ Step s₁ p s₂ := by
    intro p hmem
    obtain ⟨before, after, hps⟩ := List.append_of_mem hmem
    obtain ⟨rest₁, s₁, s₂, run₁, -, step, -⟩ := run.split hps
    have hbefore : ∀ q ∈ before, q.Guarded := fun q hq => hp q (by simp [hps, hq])
    exact ⟨s₁, s₂, run₁.sound, run₁.keepsEmpty hr hbefore, run₁.arrays, step⟩
  refine ⟨fun p hmem k hx hk => ?_, fun p hmem hc sum hnext hx => ?_, fun p hmem k hx => ?_,
    run.keepsEmpty hr hp⟩
  · obtain ⟨s₁, s₂, hs, he, -, step⟩ := hstep p hmem
    exact step.omitted_operand hs he hx hk
  · obtain ⟨s₁, s₂, -, -, harrays, step⟩ := hstep p hmem
    obtain ⟨-, hc', -⟩ := hp p hmem ((step.mem_addends harrays hc hnext).mp hx)
    simp [hc] at hc'
  · obtain ⟨s₁, s₂, -, -, -, step⟩ := hstep p hmem
    exact step.omitted_output (hp p hmem) hx

/-- What is left out is kept by guarded passages only, where every graph output has a name. -/
theorem Run.guarded (hr : ofModel m = .ok r) (run : Run m ps rest s) (hout : "" ∉ m.outputNames)
    (h : KeepsOmitted r ps s) : ∀ p ∈ ps, p.Guarded := by
  intro p hmem hhead
  obtain ⟨before, after, hps⟩ := List.append_of_mem hmem
  obtain ⟨rest₁, s₁, s₂, run₁, -, step, hgrows⟩ := run.split_grows hps
  refine ⟨?_, ?_, fun hreshaped => ?_⟩
  · by_contra ht
    obtain ⟨i, hi⟩ := step.empty_of_transparent run₁.sound
      (fun i hi => hout (run₁.mem_outputNames hi)) (by simpa using ht) hhead
    obtain ⟨j, hj⟩ := hgrows.inner hi
    rw [h.empty.slot] at hj
    exact (ofModel_declares hr).1.not_interior j hj
  · by_contra hc
    have hc : p.consumed = true := by simpa using hc
    obtain ⟨-, -, sum, -, -, hnext, -⟩ := step.taken hc
    exact h.addend p hmem hc sum hnext ((step.mem_addends run₁.arrays hc hnext).mpr hhead)
  · obtain ⟨hc, y, ys, slot, hnames, hslot, houter, htyped⟩ :=
      step.typed.names_of_reshaped hreshaped
    have hy : y = "" := by
      rw [Passage.outputNames_of_kept hc] at hnames
      simpa [hnames] using hhead
    subst hy
    obtain ⟨v, hv, hname⟩ := h.output p hmem 0 (by rw [hnames]; rfl)
    have hvalue : (s₁.registry.value slot).name = "" := by
      have hget : (p.typed.outputs.map Value.name)[0]? = some v.name := by simp [hv]
      rw [htyped, hname] at hget
      simpa using hget
    cases slot with
    | interior i => exact houter i rfl
    | output i => exact hout (run₁.mem_outputNames hslot)
    | input i =>
      have hi : i < s₁.registry.inputs.length := run₁.sound.has hslot
      have hu := List.getElem?_eq_getElem hi
      rw [Registry.value, List.getD_eq_getElem?_getD, hu, Option.getD_some,
        run₁.name_input hu] at hvalue
      simp at hvalue

/-- An import keeps what is left out if all its passages are guarded and, where every graph output
has a name, only then. -/
theorem importGraph_omitted {checkFirst : Bool} {g : Graph}
    (h : m.importGraph checkFirst = .ok g) :
    ∃ r ps s, ofModel m = .ok r ∧ Run m ps [] s ∧ g = s.graph m.name ∧
      s.nodes = ps.map Passage.final ∧
      ((∀ p ∈ ps, p.Guarded) → KeepsOmitted r ps s) ∧
      ("" ∉ m.outputNames → KeepsOmitted r ps s → ∀ p ∈ ps, p.Guarded) := by
  obtain ⟨ps, s, run, hg⟩ := importGraph_ok h
  obtain ⟨r, hr⟩ := run.registry_eq_ok
  exact ⟨r, ps, s, hr, run, hg, run.nodes, run.keepsOmitted hr, run.guarded hr⟩

/-- A model that ends with a Clip of `x` that leaves out its lower bound. -/
def clipping (nodes : List NodeMessage) (x : String) : ModelMessage where
  inputs := [{ name := "x", elementType := 7, dims := [.size 2] }]
  outputs := [{ name := "y", elementType := 7, dims := [.size 2] }]
  initializers := [{ name := "hi", dataType := 7, int64s := [6] }]
  nodes := nodes ++ [{ operator := "Clip", inputs := [x, "", "hi"], outputs := ["y"] }]

/-- A Dropout leaves out its second output, which a Clip without a lower bound does not read. -/
def maskless : ModelMessage :=
  clipping [{ operator := "Dropout", inputs := ["x"], outputs := ["d", ""] }] "d"

theorem importGraph_omitted_maskless :
    ∃ g r ps s, maskless.importGraph true = .ok g ∧ ofModel maskless = .ok r ∧
      Run maskless ps [] s ∧ g = s.graph maskless.name ∧ KeepsOmitted r ps s ∧
        g.nodes.map (·.inputs.map Value.name) = [["input1"], ["dropout1_out1", "", ""]] := by
  obtain ⟨g, hg, hnames⟩ : ∃ g, maskless.importGraph true = .ok g ∧
      g.nodes.map (·.inputs.map Value.name) = [["input1"], ["dropout1_out1", "", ""]] :=
    Except.exists_ok (by decide +kernel)
  obtain ⟨r, ps, s, hr, run, hs, -, hkeeps, -⟩ := importGraph_omitted hg
  refine ⟨g, r, ps, s, hg, hr, run, hs, hkeeps fun p hp hhead => ?_, hnames⟩
  have hnamed : ∀ raw ∈ maskless.nodes, raw.outputs.head? ≠ some "" := by decide
  have hmessage : p.message ∈ maskless.nodes := by
    rw [← run.messages, List.append_nil]
    exact List.mem_flatMap.mpr ⟨p, hp, by simp [Passage.messages]⟩
  exact absurd hhead (hnamed _ hmessage)

/-- A Constant leaves out its output, and a Clip its lower bound. -/
def unnamedConstant : ModelMessage :=
  let one : AttributeMessage := { name := "value_int", kind := .int, int := 1 }
  clipping [{ operator := "Constant", outputs := [""], attributes := [one] }] "x"

/-- The literal of the Constant becomes the lower bound. -/
theorem not_keepsOmitted_unnamedConstant :
    ∃ g r ps s, unnamedConstant.importGraph true = .ok g ∧ ofModel unnamedConstant = .ok r ∧
      Run unnamedConstant ps [] s ∧ g = s.graph unnamedConstant.name ∧ ¬ KeepsOmitted r ps s ∧
        ∃ n ∈ g.nodes, n.operator = .clip ∧ ∃ v, n.inputs[1]? = some v ∧ v.literal.isSome := by
  obtain ⟨s, hs, hconstant, hlifted⟩ : ∃ s, unnamedConstant.importState true = .ok s ∧
      s.constants.get? "" = some 0 ∧ ∃ n ∈ (s.graph unnamedConstant.name).nodes,
        n.operator = .clip ∧ ∃ v ∈ n.inputs[1]?, v.literal.isSome = true :=
    Except.exists_ok (by decide +kernel)
  have hg : unnamedConstant.importGraph true = .ok (s.graph unnamedConstant.name) := by
    simp only [importGraph, hs, Except.ok_bind]
    rfl
  obtain ⟨ps, run⟩ := importState_eq_ok.mp (importState_of_check hs)
  obtain ⟨r, hr⟩ := run.registry_eq_ok
  refine ⟨_, r, ps, s, hg, hr, run, rfl, fun hkeeps => ?_, hlifted⟩
  rw [hkeeps.empty.constant] at hconstant
  cases hconstant

end TensorGraph
