import TensorGraph.Import
import TensorGraph.Proofs.Registry
import TensorGraph.Proofs.TypingView

/-!
# The stages of an import

What each stage does to a node and to the state, where it succeeds.
-/

namespace TensorGraph

open Onnx

variable {r : Registry} {raw : NodeMessage} {n n' : Node} {s s' : ImportState} {v w : Value}
  {vs ws : List Value}

lemma convert_ok (h : r.convert raw = .ok n) :
    raw.knownOperator = .ok n.operator ∧ n.name = raw.name ∧
      List.Forall₂ (fun x v => r.resolve x = .ok v) raw.inputs n.inputs ∧
      n.outputs = raw.outputs.map bareValue ∧ raw.toAttributes = .ok n.attributes := by
  simp only [Registry.convert, Except.bind_eq_ok, Except.pure_eq_ok] at h
  obtain ⟨o, ho, inputs, hin, attributes, hattr, rfl⟩ := h
  exact ⟨ho, rfl, Except.mapM_eq_ok hin, rfl, hattr⟩

/-- The operator `o` is what an operator becomes whose spatial axes are counted. -/
inductive Operator.Specialises : Operator → Operator → Prop where
  | same (o : Operator) : Specialises o o
  | spatial {o o' : Operator} (count : Nat) (h : o.ofSpatialAxes? count = some o') :
      Specialises o o'

lemma Operator.Specialises.eq_of_not_spatial {o o' : Operator} (h : o.Specialises o')
    (hk : o.spatialKinds = []) : o' = o := by
  cases h with
  | same => rfl
  | spatial count h => simp [ofSpatialAxes?, hk] at h

lemma Operator.Specialises.eq_of_no_axes {o o' : Operator} (h : o.Specialises o')
    (hk : o'.spatialAxes? = none) : o' = o := by
  cases h with
  | same => rfl
  | spatial count h => simp [spatialAxes?_ofSpatialAxes? h] at hk

lemma specialise_ok (h : n.specialise = .ok n') :
    n.operator.Specialises n'.operator ∧ n' = { n with operator := n'.operator } := by
  unfold Node.specialise at h
  split at h
  · obtain rfl := Except.pure_eq_ok.mp h
    exact ⟨.same _, rfl⟩
  · simp only [Except.bind_eq_ok] at h
    obtain ⟨axes, -, h⟩ := h
    split at h
    · next o ho =>
      obtain rfl := Except.pure_eq_ok.mp h
      simp only [Option.bind_eq_some_iff] at ho
      obtain ⟨_, -, count, -, ho⟩ := ho
      exact ⟨.spatial _ ho, rfl⟩
    · obtain rfl := Except.pure_eq_ok.mp h
      exact ⟨.same _, rfl⟩

/-! ## Fusion -/

/-- An operand and what it is after its array may have been transposed. -/
def Value.Transposable (v w : Value) : Prop := w = v ∨ w = v.transpose

lemma Value.name_transpose (v : Value) : v.transpose.name = v.name := by
  unfold transpose
  split <;> rfl

lemma Value.transpose_rename (v : Value) (name : String) :
    ({ v with name } : Value).transpose = { v.transpose with name } := by
  obtain ⟨_, _, literal, _⟩ := v
  cases literal <;> rfl

lemma Value.isSome_literal_transpose (v : Value) :
    v.transpose.literal.isSome = v.literal.isSome := by
  unfold transpose
  split
  · rfl
  · next a h => simp [h]

lemma Value.Transposable.name (h : v.Transposable w) : w.name = v.name := by
  rcases h with rfl | rfl
  · rfl
  · exact v.name_transpose

lemma Value.Transposable.isSome_literal (h : v.Transposable w) :
    w.literal.isSome = v.literal.isSome := by
  rcases h with rfl | rfl
  · rfl
  · exact v.isSome_literal_transpose

/-- The node `add` adds the literal `bias` to what the node `n` writes. -/
structure Node.AddsBias (n add : Node) (bias : Value) : Prop where
  operator : add.operator = .add
  literal : bias.literal.isSome = true
  bias_mem : bias ∈ add.inputs
  output_mem : ∃ o os, n.outputs = o :: os ∧ ∃ v ∈ add.inputs, v.name = o.name
  covers : ∀ v ∈ add.inputs, v.literal.isSome = true ∨ ∃ o os, n.outputs = o :: os ∧ v.name = o.name

/-- The outcomes of fusion. -/
inductive Node.Fuses (r : Registry) (n : Node) (next : Option NodeMessage) (n' : Node)
    (consumed : Bool) : Prop where
  | same (node : n' = n) (kept : consumed = false)
  | gemm (operator : n.operator = .gemm) (operator' : n'.operator = .linear)
      (name : n'.name = n.name) (inputs : List.Forall₂ Value.Transposable n.inputs n'.inputs)
      (outputs : n'.outputs = n.outputs) (kept : consumed = false)
  | product (operator : n.operator = .matMul) (node : n' = { n with operator := .linear })
      (kept : consumed = false)
  | biased {raw : NodeMessage} {add : Node} {bias o y : Value} {os : List Value}
      (operator : n.operator = .matMul) (operands : n.inputs.length = 2) (next_eq : next = some raw)
      (convert : r.convert raw = .ok add) (adds : n.AddsBias add bias)
      (outputs : n.outputs = o :: os) (result : add.output 0 = .ok y)
      (node : n' = { n with
        operator := .linear
        inputs := n.inputs ++ [bias]
        outputs := { o with name := y.name } :: os })
      (taken : consumed = true)

lemma forall₂_transposable_modify (i : Nat) (vs : List Value) :
    List.Forall₂ Value.Transposable vs (vs.modify i Value.transpose) :=
  forall₂_modify_self (fun _ => .inl rfl) (fun _ => .inr rfl) i vs

lemma Node.isPlainProduct_congr (h : n'.attributes = n.attributes) :
    n'.isPlainProduct = n.isPlainProduct := by
  simp only [isPlainProduct, isNumber, attribute?, h]

lemma Node.storesTransposed_congr (h : n'.attributes = n.attributes) :
    n'.storesTransposed = n.storesTransposed := by
  simp only [storesTransposed, attribute?, h]

lemma fuseGemm_ok (hop : n.operator = .gemm) {next : Option NodeMessage}
    (h : n.fuseGemm = .ok n') : n.Fuses r next n' false := by
  unfold Node.fuseGemm at h
  split at h
  · obtain rfl := Except.pure_eq_ok.mp h
    exact .same rfl rfl
  · simp only [Except.bind_eq_ok] at h
    obtain ⟨plain, -, h⟩ := h
    split at h
    · obtain rfl := Except.pure_eq_ok.mp h
      exact .same rfl rfl
    · split at h
      · obtain rfl := Except.pure_eq_ok.mp h
        exact .same rfl rfl
      · simp only [Except.bind_eq_ok, Except.pure_eq_ok] at h
        obtain ⟨transposed, -, rfl⟩ := h
        refine .gemm hop rfl rfl ?_ rfl rfl
        split
        · exact forall₂_transposable_modify 1 n.inputs
        · exact List.forall₂_same.mpr fun _ _ => .inl rfl

lemma isBiasOf_ok {add : Node} (h : add.isBiasOf n = .ok true) :
    ∃ a b o os, add.operator = .add ∧ add.inputs = [a, b] ∧ n.outputs = o :: os ∧
      ((a.name = o.name ∧ b.literal.isSome) ∨ (a.literal.isSome ∧ b.name = o.name)) := by
  unfold Node.isBiasOf at h
  split at h
  · next a b hop hin =>
    simp only [Except.bind_eq_ok, Except.pure_eq_ok, Node.output_zero_eq_ok] at h
    obtain ⟨o, ⟨os, ho⟩, h⟩ := h
    exact ⟨a, b, o, os, hop, hin, ho, by simpa using h⟩
  · simp at h

lemma Node.isBiasOf_of_not {add : Node}
    (h : ¬ (add.operator = .add ∧ ∃ u v, add.inputs = [u, v])) : add.isBiasOf n = .ok false := by
  unfold Node.isBiasOf
  split
  · next u v hop hin => exact absurd ⟨hop, u, v, hin⟩ h
  · rfl

/-- Two nodes are specialised alike if their operands have the same types. -/
lemma Node.specialise_agree (hop : n'.operator = n.operator) (hattributes : n'.attributes = n.attributes)
    (htypes : n'.inputs.map Value.type = n.inputs.map Value.type) :
    Agree (fun m m' => ∃ o, m = { n with operator := o } ∧ m' = { n' with operator := o })
      n.specialise n'.specialise := by
  have haxes : n'.windowAxes? = n.windowAxes? := by
    simp only [windowAxes?, weightAxes?, attribute?, ← List.getElem?_map, htypes, hattributes]
  unfold Node.specialise
  rw [haxes, hop]
  split
  · exact .pure ⟨n.operator, rfl, by rw [← hop]⟩
  · refine (Agree.refl n.windowAxes?).bind fun axes _ _ _ haxes => haxes ▸ ?_
    split
    · exact .pure ⟨_, rfl, rfl⟩
    · exact .pure ⟨n.operator, rfl, by rw [← hop]⟩

/-- Two general products become layers alike if both multiply by a known matrix, or neither does. -/
lemma Node.fuseGemm_agree (hattributes : n'.attributes = n.attributes)
    (hmatrix : n'.hasLiteralMatrix 1 = n.hasLiteralMatrix 1)
    (hlength : n'.outputs.length = n.outputs.length) :
    Agree (fun m m' => (m = n ∧ m' = n') ∨ ∃ (turned : Bool) (attributes : Attributes),
        m = { n with
          operator := .linear
          inputs := if turned then n.inputs.modify 1 Value.transpose else n.inputs
          attributes } ∧
        m' = { n' with
          operator := .linear
          inputs := if turned then n'.inputs.modify 1 Value.transpose else n'.inputs
          attributes }) n.fuseGemm n'.fuseGemm := by
  unfold Node.fuseGemm
  rw [isPlainProduct_congr hattributes, storesTransposed_congr hattributes, hmatrix, hlength]
  split
  · exact .pure (.inl ⟨rfl, rfl⟩)
  refine (Agree.refl n.isPlainProduct).bind fun plain _ _ _ hplain => hplain ▸ ?_
  split
  · exact .pure (.inl ⟨rfl, rfl⟩)
  split
  · exact .pure (.inl ⟨rfl, rfl⟩)
  refine (Agree.refl n.storesTransposed).bind fun stores _ _ _ hstores => hstores ▸ .pure ?_
  exact .inr ⟨stores, _, rfl, by rw [hattributes]⟩

/-- Two nodes add a bias alike if their operands compare alike with what is written. -/
lemma Node.isBiasOf_agree {R : Value → Value → Prop} {add add' : Node}
    (hadd : add'.operator = add.operator) (hinputs : List.Forall₂ R add.inputs add'.inputs)
    (hout : n'.output 0 = n.output 0)
    (h : ∀ o u v u' v', n.output 0 = .ok o → add.inputs = [u, v] → R u u' → R v v' →
      (u'.name = o.name && v'.literal.isSome || u'.literal.isSome && v'.name = o.name) =
        (u.name = o.name && v.literal.isSome || u.literal.isSome && v.name = o.name)) :
    Agree (· = ·) (add.isBiasOf n) (add'.isBiasOf n') := by
  by_cases hpair : add.operator = .add ∧ ∃ u v, add.inputs = [u, v]
  · obtain ⟨hop, u, v, hin⟩ := hpair
    rw [hin] at hinputs
    obtain ⟨u', v', hin', hu, hv⟩ := forall₂_pair hinputs
    simp only [Node.isBiasOf, hadd, hop, hin, hin', hout]
    refine (Agree.refl (n.output 0)).bind fun o _ ho _ heq => .pure ?_
    subst heq
    exact (h o u v u' v' ho hin hu hv).symm
  · have hpair' : ¬ (add'.operator = .add ∧ ∃ u v, add'.inputs = [u, v]) := by
      rintro ⟨hop, u, v, hin⟩
      rw [hin] at hinputs
      obtain ⟨u', v', hin', -, -⟩ := forall₂_pair hinputs.flip
      exact hpair ⟨hadd ▸ hop, u', v', hin'⟩
    rw [isBiasOf_of_not hpair, isBiasOf_of_not hpair']
    exact .ok rfl

lemma absorbBias_ok {add : Node} (hb : add.isBiasOf n = .ok true) (h : n.absorbBias add = .ok n') :
    ∃ bias o os y, n.AddsBias add bias ∧ n.outputs = o :: os ∧ add.output 0 = .ok y ∧
      n' = { n with
        inputs := n.inputs ++ [bias], outputs := { o with name := y.name } :: os } := by
  obtain ⟨a, b, o, os, hop, hin, ho, hcase⟩ := isBiasOf_ok hb
  unfold Node.absorbBias at h
  split at h
  · next a' b' o' os' hin' ho' =>
    rw [hin] at hin'
    obtain ⟨rfl, rfl⟩ : a = a' ∧ b = b' := by simpa using hin'
    simp only [Except.bind_eq_ok, Except.pure_eq_ok] at h
    obtain ⟨y, hy, rfl⟩ := h
    have hout : ∃ v ∈ add.inputs, v.name = o.name := by
      rcases hcase with ⟨ha, -⟩ | ⟨-, hb⟩
      · exact ⟨a, by simp [hin], ha⟩
      · exact ⟨b, by simp [hin], hb⟩
    refine ⟨if a.literal.isSome then a else b, o', os', y,
      ⟨hop, ?_, ?_, ⟨o, os, ho, hout⟩, fun v hv => ?_⟩, ho', hy, rfl⟩
    · split
      · assumption
      · next ha => exact (hcase.resolve_right fun h => ha h.1).2
    · split <;> simp [hin]
    · obtain rfl | rfl : v = a ∨ v = b := by simpa [hin] using hv
      · exact hcase.symm.imp And.left fun h => ⟨o, os, ho, h.1⟩
      · exact hcase.imp And.right fun h => ⟨o, os, ho, h.2⟩
  · simp [outOfRange] at h

lemma fuseMatMul_ok (hop : n.operator = .matMul) {next : Option NodeMessage} {consumed : Bool}
    (h : n.fuseMatMul r next = .ok (n', consumed)) : n.Fuses r next n' consumed := by
  unfold Node.fuseMatMul at h
  split at h
  · simp only [Except.pure_eq_ok, Prod.mk.injEq] at h
    obtain ⟨rfl, rfl⟩ := h
    exact .same rfl rfl
  next hlen =>
  have hlen : n.inputs.length = 2 := by
    by_contra h
    exact hlen (.inl h)
  simp only at h
  split at h
  · simp only [Except.pure_eq_ok, Prod.mk.injEq] at h
    obtain ⟨rfl, rfl⟩ := h
    exact .product hop rfl rfl
  next raw =>
  split at h
  · simp only [Except.pure_eq_ok, Prod.mk.injEq] at h
    obtain ⟨rfl, rfl⟩ := h
    exact .product hop rfl rfl
  simp only [Except.bind_eq_ok] at h
  obtain ⟨add, hadd, isBias, hbias, h⟩ := h
  split at h
  · next hb =>
    subst hb
    simp only [Except.bind_eq_ok, Except.pure_eq_ok, Prod.mk.injEq] at h
    obtain ⟨n₁, h, rfl, rfl⟩ := h
    obtain ⟨bias, o, os, y, hadds, ho, hy, rfl⟩ := absorbBias_ok hbias h
    exact .biased hop hlen rfl hadd ⟨hadds.operator, hadds.literal, hadds.bias_mem,
      hadds.output_mem, hadds.covers⟩ ho hy rfl rfl
  · simp only [Except.pure_eq_ok, Prod.mk.injEq] at h
    obtain ⟨rfl, rfl⟩ := h
    exact .product hop rfl rfl

/-- Fusion leaves a node as it is, or makes a linear layer of it. -/
theorem fuse_ok {next : Option NodeMessage} {consumed : Bool}
    (h : n.fuse r next = .ok (n', consumed)) : n.Fuses r next n' consumed := by
  unfold Node.fuse at h
  split at h
  · next hop =>
    simp only [Except.bind_eq_ok, Except.pure_eq_ok, Prod.mk.injEq] at h
    obtain ⟨n₁, h, rfl, rfl⟩ := h
    exact fuseGemm_ok hop h
  · next hop => exact fuseMatMul_ok hop h
  · simp only [Except.ok.injEq, Prod.mk.injEq] at h
    obtain ⟨rfl, rfl⟩ := h
    exact .same rfl rfl

/-- Fusion leaves a node as it is, or makes a layer of a product. -/
lemma Node.Fuses.eq_or_layer {next : Option NodeMessage} {consumed : Bool}
    (h : n.Fuses r next n' consumed) :
    n' = n ∧ consumed = false ∨
      (n.operator = .gemm ∨ n.operator = .matMul) ∧ n'.operator = .linear := by
  cases h with
  | same node kept => exact .inl ⟨node, kept⟩
  | gemm operator operator' => exact .inr ⟨.inl operator, operator'⟩
  | product operator node => exact .inr ⟨.inr operator, by rw [node]⟩
  | biased operator _ _ _ _ _ _ node => exact .inr ⟨.inr operator, by rw [node]⟩

/-- The outcomes of the stage that leaves identities out. -/
inductive ImportState.Elides (s : ImportState) (n : Node) (s' : ImportState) (n' : Node) : Prop where
  | out {x y : Value} {xs ys : List Value} (operator : n.operator = .identity)
      (inputs : n.inputs = x :: xs) (outputs : n.outputs = y :: ys) (bare : x.literal = none)
      (inner : s.registry.isOutput y.name = false) (node : n' = n)
      (state : s' = { s with
        elisions := s.elisions.insert y.name ⟨s.place, s.sourceOf x.name⟩ }.remove s.place)
  | past
      (kept : n.operator = .identity → ∃ x xs, n.inputs = x :: xs ∧ (x.literal.isSome ∨
        ∃ y ys, n.outputs = y :: ys ∧ s.registry.isOutput y.name = true))
      (node : n' = { n with inputs := n.inputs.map fun v => { v with name := s.sourceOf v.name } })
      (state : s' = s)

/-- What is decided of an identity. -/
lemma isElided_ok {b : Bool} (h : s.isElided n = .ok b) (hop : n.operator = .identity) :
    ∃ x xs, n.inputs = x :: xs ∧ (x.literal.isSome ∧ b = false ∨
      x.literal = none ∧ ∃ y ys, n.outputs = y :: ys ∧ b = !s.registry.isOutput y.name) := by
  simp only [ImportState.isElided, hop, ne_eq, not_true_eq_false, if_false, Except.bind_eq_ok,
    Node.input_zero_eq_ok] at h
  obtain ⟨x, ⟨xs, hin⟩, h⟩ := h
  refine ⟨x, xs, hin, ?_⟩
  cases hx : x.literal with
  | some a =>
    simp only [hx, Option.isSome_some, if_true, Except.pure_eq_ok] at h
    exact .inl ⟨rfl, h.symm⟩
  | none =>
    simp only [hx, Option.isSome_none, Bool.false_eq_true, if_false, Except.bind_eq_ok,
      Except.pure_eq_ok, Node.output_zero_eq_ok] at h
    obtain ⟨y, ⟨ys, hy⟩, h⟩ := h
    exact .inr ⟨rfl, y, ys, hy, h.symm⟩

lemma isElided_true (h : s.isElided n = .ok true) : n.operator = .identity := by
  by_contra hop
  simp [ImportState.isElided, hop, pure, Except.pure] at h

theorem elide_ok (h : s.elide n = .ok (s', n')) : s.Elides n s' n' := by
  simp only [ImportState.elide, Except.bind_eq_ok] at h
  obtain ⟨b, hb, h⟩ := h
  cases b with
  | true =>
    have hop := isElided_true hb
    simp only [if_true, Except.bind_eq_ok, Except.pure_eq_ok, Prod.mk.injEq,
      Node.input_zero_eq_ok, Node.output_zero_eq_ok] at h
    obtain ⟨x, ⟨xs, hx⟩, y, ⟨ys, hy⟩, rfl, rfl⟩ := h
    obtain ⟨x', xs', hx', hcase⟩ := isElided_ok hb hop
    obtain ⟨rfl, rfl⟩ : x = x' ∧ xs = xs' := by simpa [hx] using hx'
    rcases hcase with ⟨-, hfalse⟩ | ⟨hbare, y', ys', hy', hout⟩
    · simp at hfalse
    · obtain ⟨rfl, rfl⟩ : y = y' ∧ ys = ys' := by simpa [hy] using hy'
      exact .out hop hx hy hbare (by simpa using hout) rfl rfl
  | false =>
    simp only [Bool.false_eq_true, if_false, Except.pure_eq_ok, Prod.mk.injEq] at h
    obtain ⟨rfl, rfl⟩ := h
    refine .past (fun hop => ?_) rfl rfl
    obtain ⟨x, xs, hx, hcase⟩ := isElided_ok hb hop
    rcases hcase with ⟨hlit, -⟩ | ⟨-, y, ys, hy, hout⟩
    · exact ⟨x, xs, hx, .inl hlit⟩
    · exact ⟨x, xs, hx, .inr ⟨y, ys, hy, by simpa using hout.symm⟩⟩

/-! ## Literals -/

lemma isSome_literal_ofLiteral {name : String} {a : Literal} (h : Value.ofLiteral name a = .ok v) :
    v.literal.isSome := by
  simp only [Value.ofLiteral, Except.bind_eq_ok, Except.pure_eq_ok] at h
  obtain ⟨_, -, rfl⟩ := h
  rfl

lemma isSome_literal_constant (h : n.constant = .ok v) : v.literal.isSome := by
  unfold Node.constant at h
  split at h
  · simp only [Except.bind_eq_ok] at h
    obtain ⟨_, -, h⟩ := h
    exact isSome_literal_ofLiteral h
  · simp at h

lemma isSome_literal_literalOf (h : ImportState.literalOf n = .ok v) : v.literal.isSome := by
  unfold ImportState.literalOf at h
  split at h
  · split at h
    · simp_all
    · exact isSome_literal_constant h
  · exact isSome_literal_constant h

/-- The node writes a literal: it is a Constant, or an identity of a literal. -/
def Node.WritesLiteral (n : Node) : Prop :=
  n.operator = .constant ∨
    n.operator = .identity ∧ ∃ x xs, n.inputs = x :: xs ∧ x.literal.isSome

lemma writesLiteral_ok {b : Bool} (h : ImportState.writesLiteral n = .ok b) :
    b = true ↔ n.WritesLiteral := by
  unfold ImportState.writesLiteral at h
  split at h
  · next hop =>
    have : true = b := by simpa using h
    simp [← this, Node.WritesLiteral, hop]
  · next hop =>
    simp only [Except.bind_eq_ok, Except.pure_eq_ok, Node.input_zero_eq_ok] at h
    obtain ⟨x, ⟨xs, hx⟩, rfl⟩ := h
    simp [Node.WritesLiteral, hop, hx]
  · next hc hi =>
    have : false = b := by simpa using h
    simp only [← this, Bool.false_eq_true, false_iff, Node.WritesLiteral]
    rintro (h | ⟨h, -⟩)
    · exact hc h
    · exact hi h

/-- The operand `w` is `v`, with the literal that the name of `v` stands for if there is one. -/
inductive ImportState.Lifts (s : ImportState) (v w : Value) : Prop where
  | bare (unknown : s.constants.get? v.name = none) (value : w = v)
  | literal {place : Nat} {n : Node} {a : Value} (known : s.constants.get? v.name = some place)
      (node : s.nodes[place]? = some n) (literal : literalOf n = .ok a) (value : w = v.copyFrom a)

lemma ImportState.Lifts.name (h : s.Lifts v w) : w.name = v.name := by
  cases h with
  | bare _ value => rw [value]
  | literal _ _ _ value => rw [value]; rfl

/-- The places of the nodes that wrote the literals of some operands. -/
def ImportState.literalPlaces (s : ImportState) (vs : List Value) : List Nat :=
  vs.filterMap fun v => s.constants.get? v.name

/-- The state `s'` is `s` with the places of some nodes dropped. -/
structure ImportState.Drops (s : ImportState) (places : List Nat) (s' : ImportState) : Prop where
  eq : s' = { s with removed := s'.removed }
  mem_removed : ∀ {i}, i ∈ s'.removed ↔ i ∈ s.removed ∨ i ∈ places

lemma mem_removed_remove {i place : Nat} :
    i ∈ (s.remove place).removed ↔ i = place ∨ i ∈ s.removed := by
  simp only [ImportState.remove]
  split
  · next h => exact ⟨.inr, fun h' => h'.elim (· ▸ h) id⟩
  · exact List.mem_cons

lemma liftOperand_ok (h : s.liftOperand v = .ok (s', w)) :
    s.Drops (s.literalPlaces [v]) s' ∧ s.Lifts v w := by
  unfold ImportState.liftOperand at h
  split at h
  · next hc =>
    simp only [Except.ok.injEq, Prod.mk.injEq] at h
    obtain ⟨rfl, rfl⟩ := h
    exact ⟨⟨rfl, by simp [ImportState.literalPlaces, hc]⟩, .bare hc rfl⟩
  · next place hc =>
    split at h
    · simp [outOfRange] at h
    · next n hn =>
      simp only [Except.bind_eq_ok, Except.pure_eq_ok, Prod.mk.injEq] at h
      obtain ⟨a, ha, rfl, rfl⟩ := h
      refine ⟨⟨rfl, fun {i} => ?_⟩, .literal hc hn ha rfl⟩
      rw [mem_removed_remove, or_comm]
      simp [ImportState.literalPlaces, hc]

lemma liftOperands_ok (h : s.liftOperands vs = .ok (s', ws)) :
    s.Drops (s.literalPlaces vs) s' ∧ List.Forall₂ s.Lifts vs ws := by
  induction vs generalizing s ws with
  | nil =>
    simp only [ImportState.liftOperands, Except.ok.injEq, Prod.mk.injEq] at h
    obtain ⟨rfl, rfl⟩ := h
    exact ⟨⟨rfl, by simp [ImportState.literalPlaces]⟩, .nil⟩
  | cons v vs ih =>
    simp only [ImportState.liftOperands, Except.bind_eq_ok, Except.pure_eq_ok, Prod.exists,
      Prod.mk.injEq] at h
    obtain ⟨s₁, w, h₁, s₂, ws, h₂, rfl, rfl⟩ := h
    obtain ⟨hdrop, hlift⟩ := liftOperand_ok h₁
    obtain ⟨hdrops, hlifts⟩ := ih h₂
    have hconst : s₁.constants = s.constants := by rw [hdrop.eq]
    have hnodes : s₁.nodes = s.nodes := by rw [hdrop.eq]
    refine ⟨⟨?_, fun {i} => ?_⟩, .cons hlift (hlifts.imp fun v w hv => ?_)⟩
    · rw [hdrops.eq, hdrop.eq]
    · rw [hdrops.mem_removed, hdrop.mem_removed, or_assoc]
      cases hv : s.constants.get? v.name <;> simp [ImportState.literalPlaces, hconst, hv]
    · cases hv with
      | bare hc value => exact .bare (hconst ▸ hc) value
      | literal hc hn ha value => exact .literal (hconst ▸ hc) (hnodes ▸ hn) ha value

/-- The outcomes of the stage that lifts literals. -/
inductive ImportState.Lifting (s : ImportState) (n : Node) (s' : ImportState) (n' : Node) : Prop where
  | writes {y : Value} {ys : List Value} (writes : n.WritesLiteral) (outputs : n.outputs = y :: ys)
      (node : n' = n) (state : s' = { s with constants := s.constants.insert y.name s.place })
  | operands {ws : List Value} (reads : ¬ n.WritesLiteral)
      (lifts : liftsConstants n.operator = true)
      (operands : List.Forall₂ s.Lifts (n.inputs.drop 1) ws)
      (node : n' = { n with inputs := n.inputs.take 1 ++ ws })
      (drops : s.Drops (s.literalPlaces (n.inputs.drop 1)) s')
  | same (reads : ¬ n.WritesLiteral) (keeps : liftsConstants n.operator = false) (node : n' = n)
      (state : s' = s)

theorem lift_ok (h : s.lift n = .ok (s', n')) : s.Lifting n s' n' := by
  simp only [ImportState.lift, Except.bind_eq_ok] at h
  obtain ⟨b, hb, h⟩ := h
  have hw := writesLiteral_ok hb
  split at h
  · next hb =>
    simp only [Except.bind_eq_ok, Except.pure_eq_ok, Prod.mk.injEq, Node.output_zero_eq_ok] at h
    obtain ⟨y, ⟨ys, hy⟩, rfl, rfl⟩ := h
    exact .writes (hw.mp hb) hy rfl rfl
  next hb =>
  split at h
  · next hlift =>
    simp only [Except.bind_eq_ok, Except.pure_eq_ok, Prod.exists, Prod.mk.injEq] at h
    obtain ⟨s₁, ws, h₁, rfl, rfl⟩ := h
    obtain ⟨hdrops, hlifts⟩ := liftOperands_ok h₁
    exact .operands (mt hw.mpr hb) hlift hlifts rfl hdrops
  · next hlift =>
    simp only [Except.pure_eq_ok, Prod.mk.injEq] at h
    obtain ⟨rfl, rfl⟩ := h
    exact .same (mt hw.mpr hb) (by simpa using hlift) rfl rfl

/-- Integer sizes that fit words are the words. -/
lemma Size.mapM_toWord_whole {ds target : List Int}
    (h : (ds.map whole).mapM toWord = .ok target) : target = ds := by
  have hword : ∀ d k : Int, (whole d).toWord = .ok k → d = k := by
    intro d k hk
    simp only [toWord, toInt, Except.ok_bind] at hk
    split at hk
    · exact Except.pure_eq_ok.mp hk
    · cases hk
  have hwords := Except.mapM_eq_ok h
  rw [List.forall₂_map_left_iff] at hwords
  have heq := hwords.imp hword
  rw [List.forall₂_eq_eq_eq] at heq
  exact heq.symm

/-- The outcomes of the stage that makes Reshapes of Unsqueezes. -/
inductive Node.Reshapes (r : Registry) (n n' : Node) : Prop where
  | same (node : n' = n)
  | reshape {x axes o : Value} {xs os : List Value} {slot : Slot} {target : List Int}
      (operator : n.operator = .unsqueeze) (inputs : n.inputs = x :: axes :: xs)
      (bare : axes.literal = none) (outputs : n.outputs = o :: os)
      (slot_eq : r.slots.get? o.name = some slot) (outer : ∀ i, slot ≠ .interior i)
      (node : n' = { n with
        operator := .reshape
        inputs := x :: n.shapeOperand target :: xs
        outputs := r.value slot :: os })
      (shape : ∃ sizes, (r.value slot).type.dims? = some sizes ∧ sizes.mapM Size.toWord = .ok target)

lemma boundary?_ok {x : String} {boundary : Value} (h : r.boundary? x = .ok (some boundary)) :
    ∃ slot, r.slots.get? x = some slot ∧ (∀ i, slot ≠ .interior i) ∧ boundary = r.value slot := by
  unfold Registry.boundary? at h
  split at h
  · simp at h
  · simp at h
  · next slot hne hs => exact ⟨slot, hs, fun i e => hne i e, by simpa using h.symm⟩

lemma unsqueezesAtRun_eq_true (h : n.unsqueezesAtRun = true) :
    n.operator = .unsqueeze ∧ ∃ x axes xs, n.inputs = x :: axes :: xs ∧ axes.literal = none := by
  unfold Node.unsqueezesAtRun at h
  split at h
  · next x axes xs hop hin => exact ⟨hop, x, axes, xs, hin, by simpa using h⟩
  · simp at h

lemma reshapeTo?_ok {boundary : Value} (h : n.reshapeTo? boundary = .ok (some n')) :
    ∃ x xs o os target, n.inputs = x :: xs ∧ n.outputs = o :: os ∧
      (∃ sizes, boundary.type.dims? = some sizes ∧ sizes.mapM Size.toWord = .ok target) ∧
      n' = { n with
        operator := .reshape
        inputs := x :: n.shapeOperand target :: n.inputs.drop 2
        outputs := boundary :: os } := by
  simp only [Node.reshapeTo?, Except.bind_eq_ok, Node.output_zero_eq_ok] at h
  obtain ⟨o, ⟨os, ho⟩, h⟩ := h
  split at h
  · next dims _ htype =>
    simp only [Except.bind_eq_ok, Except.pure_eq_ok, Node.input_zero_eq_ok] at h
    obtain ⟨target, htarget, x, ⟨xs, hx⟩, h⟩ := h
    exact ⟨x, xs, o, os, target, hx, ho, ⟨dims, by rw [htype]; rfl, htarget⟩,
      by simpa [ho] using h.symm⟩
  · simp [pure, Except.pure] at h

theorem unsqueezeAsReshape_ok (h : n.unsqueezeAsReshape r = .ok n') : n.Reshapes r n' := by
  unfold Node.unsqueezeAsReshape at h
  split at h
  · obtain rfl := Except.pure_eq_ok.mp h
    exact .same rfl
  next hrun =>
  simp only [Except.bind_eq_ok, Node.output_zero_eq_ok] at h
  obtain ⟨o, ⟨os, ho⟩, b, hb, h⟩ := h
  cases b with
  | none =>
    obtain rfl := Except.pure_eq_ok.mp h
    exact .same rfl
  | some boundary =>
    simp only [Except.bind_eq_ok, Except.pure_eq_ok] at h
    obtain ⟨new, hnew, rfl⟩ := h
    cases new with
    | none => exact .same rfl
    | some n' =>
      obtain ⟨hop, x, axes, xs, hin, hbare⟩ := unsqueezesAtRun_eq_true (by simpa using hrun)
      obtain ⟨slot, hslot, houter, rfl⟩ := boundary?_ok hb
      obtain ⟨x', xs', o', os', target, hin', ho', hshape, rfl⟩ := reshapeTo?_ok hnew
      obtain ⟨rfl, -⟩ : x = x' ∧ axes :: xs = xs' := by simpa [hin] using hin'
      obtain ⟨rfl, rfl⟩ : o = o' ∧ os = os' := by simpa [ho] using ho'
      exact @Node.Reshapes.reshape r n _ x axes o xs os slot target hop hin hbare ho hslot houter
        (by rw [hin]; rfl) hshape

/-! ## Types -/

/-- The value `w` differs from `v` in its type at most. -/
def Value.Retyped (v w : Value) : Prop := ∃ t, w = { v with type := t }

lemma Value.Retyped.name (h : v.Retyped w) : w.name = v.name := by
  obtain ⟨t, rfl⟩ := h
  rfl

lemma Value.Retyped.refl (v : Value) : v.Retyped v := ⟨v.type, rfl⟩

/-- The same outputs that get the same types stay the same. -/
lemma eq_of_retyped {os : List Value} (hv : List.Forall₂ Value.Retyped os vs)
    (hw : List.Forall₂ Value.Retyped os ws)
    (htypes : List.Forall₂ (fun v w => v.type = w.type) vs ws) : ws = vs := by
  induction hv generalizing ws with
  | nil =>
    cases hw
    rfl
  | cons hv _ ih =>
    cases hw with
    | cons hw hws =>
      cases htypes with
      | cons htype htypes =>
        obtain ⟨t, rfl⟩ := hv
        obtain ⟨t', rfl⟩ := hw
        obtain rfl : t = t' := htype
        rw [ih hws htypes]

lemma typedOutputs_ok (h : n.typedOutputs = .ok vs) : List.Forall₂ Value.Retyped n.outputs vs := by
  unfold Node.typedOutputs at h
  split at h
  · obtain rfl : Typing.keepType n = vs := by simpa using h
    unfold Typing.keepType
    split
    · exact List.forall₂_same.mpr fun v _ => .refl v
    · rw [List.forall₂_map_right_iff]
      exact List.forall₂_same.mpr fun v _ => ⟨_, rfl⟩
  · simp only [Except.bind_eq_ok] at h
    obtain ⟨t, -, h⟩ := h
    split at h
    · simp [outOfRange] at h
    · next v os ho =>
      rw [ho, ← Except.pure_eq_ok.mp h]
      exact .cons ⟨t, rfl⟩ (List.forall₂_same.mpr fun v _ => .refl v)

theorem infer_ok (h : n.infer = .ok n') :
    ∃ outputs, List.Forall₂ Value.Retyped n.outputs outputs ∧ n' = { n with outputs } := by
  simp only [Node.infer, Except.bind_eq_ok, Except.pure_eq_ok] at h
  obtain ⟨outputs, h, rfl⟩ := h
  exact ⟨outputs, typedOutputs_ok h, rfl⟩

end TensorGraph
