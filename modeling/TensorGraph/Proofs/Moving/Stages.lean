import TensorGraph.Proofs.Moving.Registry
import TensorGraph.Proofs.TypingView

/-!
# Stages with an array moved into a Constant

The first stages of an import do the same in two runs of which the one knows an array and the other
reads it from a Constant, as long as no literal is consulted that the other lacks. But where the array
is the matrix of a product, or a bias that is added to one, the one run makes a layer of what stays as
it is in the other (`Node.Moved.fuse`).
-/

namespace TensorGraph

open Onnx Registry

/-- The places of the operands whose literals matter to an operator, though no literal is lifted into
them. -/
def Operator.unlifted : Operator → List Nat
  | .squeeze | .reduceMax | .reduceMean | .reduceMin | .reduceProd | .reduceSum => [1]
  | .constantOfShape | .constant => [0]
  | _ => []

/-- The nodes differ in the array as an operand: the one knows it, the other does not. -/
structure Node.Moved (a : Value) (outer : String → Option Nat) (n n' : Node) : Prop where
  operator : n'.operator = n.operator
  attributes : n'.attributes = n.attributes
  inputs : List.Forall₂ (Value.Reads a outer) n.inputs n'.inputs
  outputs : n'.outputs = n.outputs

/-- No operand whose literal matters is the array. -/
def Node.Apart (a : Value) (n : Node) : Prop :=
  ∀ i ∈ n.operator.unlifted, ∀ v, n.inputs[i]? = some v → v.name ≠ a.name

/-- The second operand of the node is the array. -/
def Node.WeighedBy (a : Value) (n : Node) : Prop := n.inputs[1]?.map Value.name = some a.name

/-- How a node is fused in the two runs, `f` in the one and `f'` in the other, where the message `next`
comes after it. -/
inductive Node.FusesApart (a : Value) (outer : String → Option Nat) (next : Option NodeMessage)
    (n n' f f' : Node) (consumed consumed' : Bool) : Prop where
  | alike (node : f.Moved a outer f') (kept : consumed' = consumed)
  /-- The array is the matrix of a product, which becomes a layer in the one run only. -/
  | weights (product : n.operator = .gemm ∨ n.operator = .matMul) (weighed : n.WeighedBy a)
      (matrix : n.hasLiteralMatrix 1 = true) (linear : f.operator = .linear) (node : f' = n')
      (kept : consumed' = false)
  /-- The array is the bias of a layer, which takes over the sum in the one run only. -/
  | bias {raw : NodeMessage} (next_eq : next = some raw) (added : a.name ∈ raw.inputs)
      (node : f' = { n' with operator := .linear }) (taken : consumed = true)
      (kept : consumed' = false)

variable {a : Value} {outer : String → Option Nat} {gone : String → Option ValueType}
  {pending : List String} {r r' : Registry} {n n' f f' add add' : Node} {v w : Value} {i : Nat}
  {consumed consumed' : Bool}

/-- A product by what is no matrix that is known beforehand stays as it is. -/
lemma Node.fuse_of_bare {next : Option NodeMessage} (hbare : n.hasLiteralMatrix 1 = false)
    (hf : n.fuse r next = .ok (f, consumed)) : f = n ∧ consumed = false := by
  unfold Node.fuse at hf
  split at hf
  · simp only [Except.bind_eq_ok, Except.pure_eq_ok, Prod.mk.injEq] at hf
    obtain ⟨m, hm, rfl, rfl⟩ := hf
    simp only [Node.fuseGemm, hbare, Bool.not_false, if_true] at hm
    split at hm
    · exact ⟨(Except.pure_eq_ok.mp hm).symm, rfl⟩
    obtain ⟨plain, -, hm⟩ := Except.bind_eq_ok.mp hm
    split at hm <;> exact ⟨(Except.pure_eq_ok.mp hm).symm, rfl⟩
  · rw [Node.fuseMatMul, hbare, if_pos (.inr rfl), Except.pure_eq_ok, Prod.mk.injEq] at hf
    exact ⟨hf.1.symm, hf.2.symm⟩
  · simp only [Except.ok.injEq, Prod.mk.injEq] at hf
    exact ⟨hf.1.symm, hf.2.symm⟩

lemma Value.Reads.transpose (h : Value.Reads a outer v w) (hv : v.name ≠ a.name) :
    Value.Reads a outer v.transpose w.transpose where
  name := by rw [v.name_transpose, w.name_transpose, h.name]
  type := by
    unfold Value.transpose
    rw [h.literal hv]
    cases v.literal with
    | none => exact h.type
    | some l => simp only [h.type]
  literal _ := by
    unfold Value.transpose
    rw [h.literal hv]
    cases hl : v.literal with
    | none => simp only [h.literal hv, hl]
    | some l => rfl
  own e := absurd (v.name_transpose ▸ e) hv
  inner := by
    rw [v.name_transpose]
    exact h.inner

namespace Node.Moved

lemma convert (h : r.Moved a outer gone pending r') (ha : a.name ≠ "") {raw : NodeMessage}
    (hreads : ∀ x ∈ raw.inputs, gone x = none) :
    Agree (fun n n' => n.inputs.map Value.name = raw.inputs ∧ n.Moved a outer n')
      (r.convert raw) (r'.convert raw) := by
  unfold Registry.convert
  refine (Agree.refl raw.knownOperator).bind fun o _ _ _ ho => ?_
  subst ho
  have hread : ∀ x x', x = x' ∧ gone x = none → Agree (Value.Reads a outer) (r.resolve x)
      (r'.resolve x') := by
    rintro x _ ⟨rfl, hx⟩
    exact (h.resolve ha hx).imp fun _ _ => And.right
  refine (Agree.mapM (List.forall₂_same.mpr fun x hx => ⟨rfl, hreads x hx⟩) hread).bind
    fun vs ws hvs _ hreads => ?_
  refine (Agree.refl raw.toAttributes).bind fun attributes _ _ _ hattributes => .pure ?_
  subst hattributes
  refine ⟨?_, rfl, rfl, hreads, rfl⟩
  exact map_eq_of_forall₂ (Except.mapM_eq_ok hvs) h.name_resolve.1

lemma specialise (h : n.Moved a outer n') :
    Agree (fun m m' => m.Moved a outer m') n.specialise n'.specialise := by
  have htypes : n'.inputs.map Value.type = n.inputs.map Value.type :=
    map_eq_map_of_forall₂ h.inputs fun _ _ hvw => hvw.type
  refine (specialise_agree h.operator h.attributes htypes).imp ?_
  rintro _ _ ⟨o, rfl, rfl⟩
  exact { h with operator := rfl }

/-! ## Fusion -/

lemma hasLiteralMatrix (h : n.Moved a outer n') (hweighed : ¬ n.WeighedBy a) :
    n'.hasLiteralMatrix 1 = n.hasLiteralMatrix 1 := by
  unfold Node.hasLiteralMatrix
  cases hv : n.inputs[1]? with
  | none =>
    have hlen := h.inputs.length_eq
    rw [List.getElem?_eq_none_iff, hlen, ← List.getElem?_eq_none_iff] at hv
    rw [hv]
  | some v =>
    obtain ⟨w, hw, hread⟩ := forall₂_getElem? h.inputs.flip hv
    have hne : v.name ≠ a.name := fun e => hweighed (by rw [Node.WeighedBy, hv, Option.map_some, e])
    rw [hw, Option.map_some, Option.map_some, Value.isLiteralMatrix, Value.isLiteralMatrix,
      hread.type, hread.literal hne]

/-- The array is no literal in the other run. -/
lemma hasLiteralMatrix_of_weighed (h : n.Moved a outer n') (hweighed : n.WeighedBy a) :
    n'.hasLiteralMatrix 1 = false := by
  obtain ⟨v, hv, hname⟩ := Option.map_eq_some_iff.mp hweighed
  obtain ⟨w, hw, hread⟩ := forall₂_getElem? h.inputs.flip hv
  rw [Node.hasLiteralMatrix, hw, Option.map_some, Value.isLiteralMatrix, (hread.own hname).2]
  rfl

/-- Where the array is not the matrix, a general product becomes a layer in both runs, or in none. -/
lemma fuseGemm (h : n.Moved a outer n') (hweighed : ¬ n.WeighedBy a) :
    Agree (fun m m' => m.Moved a outer m') n.fuseGemm n'.fuseGemm := by
  have hne : ∀ v, n.inputs[1]? = some v → v.name ≠ a.name := fun v hv e =>
    hweighed (by rw [Node.WeighedBy, hv, Option.map_some, e])
  refine (fuseGemm_agree h.attributes (h.hasLiteralMatrix hweighed) (by rw [h.outputs])).imp ?_
  rintro _ _ (⟨rfl, rfl⟩ | ⟨turned, attributes, rfl, rfl⟩)
  · exact h
  · refine ⟨rfl, rfl, ?_, h.outputs⟩
    cases turned with
    | true => exact forall₂_modify h.inputs 1 fun v _ hv hvw => hvw.transpose (hne v hv)
    | false => exact h.inputs

/-- A sum that does not read the array has a bias in both runs, or in none. -/
lemma isBiasOf (h : n.Moved a outer n') (hadd : add.Moved a outer add')
    (hne : ∀ v ∈ add.inputs, v.name ≠ a.name) :
    Agree (· = ·) (add.isBiasOf n) (add'.isBiasOf n') := by
  have houtput : n'.output 0 = n.output 0 := by simp only [Node.output, h.outputs]
  refine Node.isBiasOf_agree hadd.operator hadd.inputs houtput fun o u v u' v' _ hin hu hv => ?_
  rw [hu.name, hv.name, hu.literal (hne u (by simp [hin])), hv.literal (hne v (by simp [hin]))]

/-- A sum with a bias in the other run does not read the array. -/
lemma not_array_of_isBiasOf (h : n.Moved a outer n') (hadd : add.Moved a outer add')
    (hout : ∀ o ∈ n.outputs.head?, o.name ≠ a.name) (hb : add'.isBiasOf n' = .ok true) :
    ∀ v ∈ add.inputs, v.name ≠ a.name := by
  obtain ⟨u', v', o, os, -, hin', ho, hcase⟩ := isBiasOf_ok hb
  have hinputs := hadd.inputs
  rw [hin'] at hinputs
  obtain ⟨u, v, hin, hu, hv⟩ := forall₂_pair hinputs.flip
  have hone := hout o (by rw [← h.outputs, ho]; rfl)
  -- the array is neither a literal of the other run nor what the product writes
  have hbare : ∀ {u u' : Value}, Value.Reads a outer u u' → u'.literal.isSome ∨ u'.name = o.name →
      u.name ≠ a.name := by
    rintro u u' hu hcase rfl'
    rcases hcase with hliteral | hname
    · simp [(hu.own rfl').2] at hliteral
    · exact hone (hname.symm.trans (hu.name.trans rfl'))
  have hua := hbare hu (hcase.elim (fun hc => .inr hc.1) fun hc => .inl hc.1)
  have hva := hbare hv (hcase.elim (fun hc => .inl hc.2) fun hc => .inr hc.2)
  simp [hin, hua, hva]

/-- A bias that is taken over in both runs is not the array. -/
lemma absorbBias (h : n.Moved a outer n') (hadd : add.Moved a outer add')
    (hne : ∀ v ∈ add.inputs, v.name ≠ a.name) (hb : add.isBiasOf n = .ok true) :
    Agree (fun m m' => m.Moved a outer m') (n.absorbBias add) (n'.absorbBias add') := by
  obtain ⟨u, v, o, os, -, hin, hout, -⟩ := isBiasOf_ok hb
  have hinputs := hadd.inputs
  rw [hin] at hinputs
  obtain ⟨u', v', hin', hu, hv⟩ := forall₂_pair hinputs
  have houtput : add'.output 0 = add.output 0 := by simp only [Node.output, hadd.outputs]
  have hliteral := hu.literal (hne u (by simp [hin]))
  simp only [Node.absorbBias, hin, hin', h.outputs, hout, houtput, hliteral]
  refine (Agree.refl (add.output 0)).bind fun y _ _ _ hy => .pure ?_
  subst hy
  refine { h with inputs := List.rel_append h.inputs (.cons ?_ .nil), outputs := rfl }
  split
  · exact hu
  · exact hv

/-- Where the array is not the matrix, a product becomes a layer in both runs, or in none, but that its
bias may be the array. -/
lemma fuseMatMul (h : n.Moved a outer n') (hr : r.Moved a outer gone pending r') (ha : a.name ≠ "")
    (hweighed : ¬ n.WeighedBy a) {next : Option NodeMessage}
    (hreads : ∀ raw ∈ next, ∀ x ∈ raw.inputs, gone x = none)
    (hout : ∀ o ∈ n.outputs.head?, o.name ≠ a.name)
    (hf : n.fuseMatMul r next = .ok (f, consumed)) (hf' : n'.fuseMatMul r' next = .ok (f', consumed')) :
    n.FusesApart a outer next n' f f' consumed consumed' := by
  have hlinear : Node.Moved a outer { n with operator := .linear } { n' with operator := .linear } :=
    { h with operator := rfl }
  unfold Node.fuseMatMul at hf hf'
  rw [h.hasLiteralMatrix hweighed, ← h.inputs.length_eq] at hf'
  split at hf
  · next hkeeps =>
    simp only [if_pos hkeeps, Except.pure_eq_ok, Prod.mk.injEq] at hf hf'
    obtain ⟨rfl, rfl⟩ := hf
    obtain ⟨rfl, rfl⟩ := hf'
    exact .alike h rfl
  next hlayer =>
  rw [if_neg hlayer] at hf'
  cases next with
  | none =>
    simp only [Except.pure_eq_ok, Prod.mk.injEq] at hf hf'
    obtain ⟨rfl, rfl⟩ := hf
    obtain ⟨rfl, rfl⟩ := hf'
    exact .alike hlinear rfl
  | some raw =>
    simp only at hf hf'
    split at hf
    · next hraw =>
      simp only [if_pos hraw, Except.pure_eq_ok, Prod.mk.injEq] at hf hf'
      obtain ⟨rfl, rfl⟩ := hf
      obtain ⟨rfl, rfl⟩ := hf'
      exact .alike hlinear rfl
    next hraw =>
    rw [if_neg hraw] at hf'
    obtain ⟨add, hadd, hf⟩ := Except.bind_eq_ok.mp hf
    obtain ⟨add', hadd', hf'⟩ := Except.bind_eq_ok.mp hf'
    obtain ⟨b, hb, hf⟩ := Except.bind_eq_ok.mp hf
    obtain ⟨b', hb', hf'⟩ := Except.bind_eq_ok.mp hf'
    have hmoved := convert hr ha (hreads raw rfl)
    rw [hadd, hadd'] at hmoved
    obtain ⟨hnames, hmoved⟩ := hmoved
    cases b' with
    | true =>
      have hne := hlinear.not_array_of_isBiasOf hmoved hout hb'
      have hbias := hlinear.isBiasOf hmoved hne
      rw [hb, hb'] at hbias
      obtain rfl : b = true := hbias
      simp only [if_true, Except.bind_eq_ok, Except.pure_eq_ok, Prod.mk.injEq] at hf hf'
      obtain ⟨m, hm, rfl, rfl⟩ := hf
      obtain ⟨m', hm', rfl, rfl⟩ := hf'
      have habsorbed := hlinear.absorbBias hmoved hne hb
      rw [hm, hm'] at habsorbed
      exact .alike habsorbed rfl
    | false =>
      simp only [Bool.false_eq_true, if_false, Except.pure_eq_ok, Prod.mk.injEq] at hf'
      obtain ⟨rfl, rfl⟩ := hf'
      cases b with
      | true =>
        simp only [if_true, Except.bind_eq_ok, Except.pure_eq_ok, Prod.mk.injEq] at hf
        obtain ⟨m, -, rfl, rfl⟩ := hf
        refine .bias rfl ?_ rfl rfl rfl
        by_contra hnot
        have hbias := hlinear.isBiasOf hmoved fun v hv e =>
          hnot (e ▸ hnames ▸ List.mem_map_of_mem hv)
        rw [hb, hb'] at hbias
        cases hbias
      | false =>
        simp only [Bool.false_eq_true, if_false, Except.pure_eq_ok, Prod.mk.injEq] at hf
        obtain ⟨rfl, rfl⟩ := hf
        exact .alike hlinear rfl

/-- Nodes are fused alike, unless the array is the matrix of a product or a bias. -/
theorem fuse (h : n.Moved a outer n') (hr : r.Moved a outer gone pending r') (ha : a.name ≠ "")
    {next : Option NodeMessage} (hreads : ∀ raw ∈ next, ∀ x ∈ raw.inputs, gone x = none)
    (hout : ∀ o ∈ n.outputs.head?, o.name ≠ a.name) (hf : n.fuse r next = .ok (f, consumed))
    (hf' : n'.fuse r' next = .ok (f', consumed')) :
    n.FusesApart a outer next n' f f' consumed consumed' := by
  by_cases hweighed : n.WeighedBy a
  · obtain ⟨rfl, rfl⟩ := fuse_of_bare (h.hasLiteralMatrix_of_weighed hweighed) hf'
    cases hmatrix : n.hasLiteralMatrix 1 with
    | false =>
      obtain ⟨rfl, rfl⟩ := fuse_of_bare hmatrix hf
      exact .alike h rfl
    | true =>
      rcases (fuse_ok hf).eq_or_layer with ⟨rfl, rfl⟩ | ⟨hproduct, hlinear⟩
      · exact .alike h rfl
      · exact .weights hproduct hweighed hmatrix hlinear rfl rfl
  · unfold Node.fuse at hf hf'
    rw [h.operator] at hf'
    split at hf
    · next hop =>
      simp only [hop, Except.bind_eq_ok, Except.pure_eq_ok, Prod.mk.injEq] at hf hf'
      obtain ⟨m, hm, rfl, rfl⟩ := hf
      obtain ⟨m', hm', rfl, rfl⟩ := hf'
      have hfused := h.fuseGemm hweighed
      rw [hm, hm'] at hfused
      exact .alike hfused rfl
    · next hop =>
      simp only [hop] at hf'
      exact h.fuseMatMul hr ha hweighed hreads hout hf hf'
    · next hgemm hmatMul =>
      split at hf'
      · next hop => exact absurd hop hgemm
      · next hop => exact absurd hop hmatMul
      · simp only [Except.ok.injEq, Prod.mk.injEq] at hf hf'
        obtain ⟨rfl, rfl⟩ := hf
        obtain ⟨rfl, rfl⟩ := hf'
        exact .alike h rfl

end Node.Moved

end TensorGraph
