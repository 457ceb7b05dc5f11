import TensorGraph.Proofs.CoherentTypes
import TensorGraph.Proofs.SizeVectors

/-!
# Contradictory sizes

Operands whose sizes are known contradict each other if their sizes do not fit: the sizes that a
product sums over differ, a convolution gets other channels than its weights have, or a window that
is larger than what it slides over, or a join gets other sizes beside the joined ones. Typing
notices some of these nodes and refuses them, and no others (`Node.Contradictory.refused_iff`).
-/

namespace TensorGraph

open Typing ValueType

/-- All sizes of the type are known, and they are integers. -/
structure ValueType.Sized (t : ValueType) (ds : List Int) : Prop where
  rank : t.rank = .ofNat ds.length
  dims : t.dims? = some (ds.map .whole)

lemma ValueType.sized_tensor {e : ElementType} (ds : List Int) :
    (tensor e (.ofNat ds.length) (some (ds.map .whole))).Sized ds := ⟨rfl, rfl⟩

namespace Node

variable (n : Node)

/-- The number of groups of channels that a node names, if it is an integer. -/
def group? : Option Int :=
  match n.attribute? "group" with
  | none => some 1
  | some (.int g) => some g
  | some _ => none

/-- The attribute is there, and no list of integers. -/
def NoList (key : String) : Prop := ∃ a, n.attribute? key = some a ∧ a.intList? = none

/-- The node convolves `x`, which has sizes `ds`, with the weights `w`, which have sizes `ws`. -/
structure Convolves (x w : Value) (ds ws : List Int) : Prop where
  operator : n.operator ∈ Operator.convolutions
  data : n.input 0 = .ok x
  weights : n.input 1 = .ok w
  dataSizes : x.type.Sized ds
  weightSizes : w.type.Sized ws

/-- The sizes of the node's operands are known and do not fit. -/
inductive Contradictory : Prop where
  /-- A product of matrices sums over different sizes. -/
  | product {v w : Value} {ds es : List Int} {inner inner' : Int} (hop : n.operator = .matMul)
    (hv : n.input 0 = .ok v) (hw : n.input 1 = .ok w) (hds : v.type.Sized ds)
    (hes : w.type.Sized es) (hranks : 2 ≤ ds.length ∧ 2 ≤ es.length)
    (hinner : ds[ds.length - 1]? = some inner) (hinner' : es[es.length - 2]? = some inner')
    (hne : inner ≠ inner')
  /-- So does a product of two matrices, each transposed or not. -/
  | gemm {v w : Value} {a a' b b' : Int} {turned turned' : Bool} (hop : n.operator = .gemm)
    (hv : n.input 0 = .ok v) (hw : n.input 1 = .ok w) (hds : v.type.Sized [a, a'])
    (hes : w.type.Sized [b, b']) (hturned : n.flag "transA" false = .ok turned)
    (hturned' : n.flag "transB" false = .ok turned')
    (hne : (if turned then a else a') ≠ if turned' then b' else b)
  /-- The rows of the operand of a linear layer are not as long as the columns of its weights. -/
  | linear {v w : Value} {ds ws : List Int} {width height : Int} (hop : n.operator = .linear)
    (hv : n.input 0 = .ok v) (hw : n.input 1 = .ok w) (hds : v.type.Sized ds)
    (hws : w.type.Sized ws) (hwidth : ds[ds.length - 1]? = some width)
    (hheight : ws[0]? = some height) (hne : width ≠ height)
  /-- The channels are not those of all groups of weights. -/
  | channels {x w : Value} {ds ws : List Int} {channels each groups : Int}
    (hconv : n.Convolves x w ds ws) (hchannels : ds[1]? = some channels)
    (heach : ws[1]? = some each) (hgroups : n.group? = some groups) (hne : channels ≠ each * groups)
  /-- Along some axis, the window reaches over more than there is with the padding. -/
  | window {x w : Value} {ds ws : List Int} {kernel : List Size} {dilations pads : List Int}
    {i : Nat} {size k dilation before after : Int} (hconv : n.Convolves x w ds ws)
    (hcovers : coversAxes n = .ok false)
    (hkernel : kernelSizes n ((ws.map .whole).drop 2) = .ok kernel)
    (hcount : kernel.length + 2 = ds.length)
    (hdilations : n.intList "dilations" (List.replicate kernel.length 1) = .ok dilations)
    (hpads : n.intList "pads" [] = .ok pads) (hsize : ds[i + 2]? = some size)
    (hk : kernel[i]? = some (.whole k)) (hdilation : dilations[i]? = some dilation)
    (hbefore : (splitPads pads kernel.length).1[i]? = some before)
    (hafter : (splitPads pads kernel.length).2[i]? = some after)
    (hlarge : size + before + after < dilation * (k - 1) + 1)
  /-- Joined operands differ along an axis `i` that is not the joined one. -/
  | join {u v w : Value} {cs ds es : List Int} {axis : Int} {i : Nat} {d e : Int}
    (hop : n.operator = .concat) (hsizes : ∀ v ∈ n.inputs, ∃ sizes, v.type.Sized sizes)
    (hu : n.input 0 = .ok u) (hv : v ∈ n.inputs) (hw : w ∈ n.inputs) (hcs : u.type.Sized cs)
    (hds : v.type.Sized ds) (hes : w.type.Sized es) (haxis : n.axis? = some axis)
    (hrange : -cs.length ≤ axis ∧ axis < cs.length)
    (hi : (i : Int) ≠ if axis < 0 then axis + cs.length else axis)
    (hd : ds[i]? = some d) (he : es[i]? = some e) (hne : d ≠ e)

/-- A check of typing notices that something is wrong. -/
inductive Noticed : Prop where
  /-- The number of operands or of outputs is checked by the rules of products, convolutions and
  joins. -/
  | arity (hop : n.operator ∈ .matMul :: .concat :: Operator.convolutions)
    (harity : n.outputs.length ≠ 1 ∨ n.operator = .matMul ∧ n.inputs.length ≠ 2)
  /-- The rule of products compares the sizes, if it gets past the elements. -/
  | product {v w : Value} {t : ElementType} (hop : n.operator = .matMul) (hv : n.input 0 = .ok v)
    (hw : n.input 1 = .ok w) (helement : v.type.element.promote w.type.element = .ok t)
  /-- Of the weights of a linear layer the rank is checked. -/
  | weights {w : Value} {ws : List Int} (hop : n.operator = .linear) (hw : n.input 1 = .ok w)
    (hws : w.type.Sized ws) (hrank : ws.length ≠ 2)
  /-- A convolution for a number of spatial axes gets an operand of another rank. -/
  | kind {x w : Value} {ds ws : List Int} {k : Nat} (hconv : n.Convolves x w ds ws)
    (hk : n.operator.spatialAxes? = some k) (hrank : ds.length ≠ k + 2)
  /-- The channels do not fall into the groups evenly. -/
  | groups {x w : Value} {ds ws : List Int} {channels : Int} (hconv : n.Convolves x w ds ws)
    (hchannels : ds[1]? = some channels) (hdivide : groupsDivide n (.whole channels) = .ok false)
  /-- They do, but an attribute of the window is no list of integers. -/
  | list {x w : Value} {ds ws : List Int} {channels : Int} {key : String}
    (hconv : n.Convolves x w ds ws) (hchannels : ds[1]? = some channels)
    (hdivide : groupsDivide n (.whole channels) = .ok true)
    (hkey : key ∈ ["kernel_shape", "strides", "dilations", "pads"]) (hlist : n.NoList key)
  /-- Joined operands have different ranks. -/
  | ranks {v w : Value} {ds es : List Int} (hop : n.operator = .concat) (hv : n.input 0 = .ok v)
    (hw : w ∈ n.inputs) (hds : v.type.Sized ds) (hes : w.type.Sized es)
    (hne : ds.length ≠ es.length)

end Node

/-! ## How computations fail -/

/-- The computation fails with errors of which `P` holds, if it fails. -/
def FailsOnly {α : Type} (P : Error → Prop) (x : Except Error α) : Prop :=
  ∀ e, x = .error e → P e

/-- The error is a fault, which bears no code. -/
def Error.IsFault (e : Error) : Prop := ∃ f, e = .fault f

/-- The error is one of typing. -/
def Error.IsTyping (e : Error) : Prop := ∃ f, e = .typing f

@[simp] lemma Error.isFault_fault (f : Fault) : (Error.fault f).IsFault := ⟨f, rfl⟩

@[simp] lemma Error.isTyping_typing (e : TypingError) : (Error.typing e).IsTyping := ⟨e, rfl⟩

section Computations

variable {α β : Type} {P : Error → Prop} {x : Except Error α}

@[simp] lemma failsOnly_ok (a : α) : FailsOnly P (.ok a) := by simp [FailsOnly]

@[simp] lemma failsOnly_pure (a : α) : FailsOnly P (pure a) := failsOnly_ok a

@[simp] lemma failsOnly_error {e : Error} : FailsOnly P (.error e : Except Error α) ↔ P e := by
  simp [FailsOnly]

@[simp] lemma failsOnly_throw {e : Error} : FailsOnly P (throw e : Except Error α) ↔ P e :=
  failsOnly_error

@[simp] lemma failsOnly_bind {f : α → Except Error β} :
    FailsOnly P (x >>= f) ↔ FailsOnly P x ∧ ∀ a, x = .ok a → FailsOnly P (f a) := by
  cases x <;> simp [FailsOnly, Bind.bind, Except.bind]

@[simp] lemma failsOnly_map {f : α → β} : FailsOnly P (x.map f) ↔ FailsOnly P x := by
  cases x <;> simp [FailsOnly, Except.map]

@[simp] lemma failsOnly_functor_map {f : α → β} : FailsOnly P (f <$> x) ↔ FailsOnly P x :=
  failsOnly_map

@[simp] lemma failsOnly_ite {c : Prop} [Decidable c] {y : Except Error α} :
    FailsOnly P (if c then x else y) ↔ (c → FailsOnly P x) ∧ (¬ c → FailsOnly P y) := by
  split <;> simp_all

@[simp] lemma failsOnly_mapM {f : α → Except Error β} {as : List α}
    (h : ∀ a ∈ as, FailsOnly P (f a)) : FailsOnly P (as.mapM f) := by
  induction as with
  | nil => simp
  | cons a as ih =>
    have hrest := ih fun b hb => h b (by simp [hb])
    simp [List.mapM_cons, h a, hrest]

@[simp] lemma failsOnly_foldlM {f : β → α → Except Error β} {as : List α} {b : β}
    (h : ∀ b, ∀ a ∈ as, FailsOnly P (f b a)) : FailsOnly P (as.foldlM f b) := by
  induction as generalizing b with
  | nil => simp
  | cons a as ih =>
    have hrest : ∀ b, FailsOnly P (as.foldlM f b) := fun b => ih fun b a ha => h b a (by simp [ha])
    simp [List.foldlM_cons, h b a, hrest]

/-- A computation that fails with faults only does not fail with an error of typing. -/
lemma FailsOnly.not_typing (h : FailsOnly Error.IsFault x) : ¬ ∃ e, x = .error (.typing e) := by
  rintro ⟨e, he⟩
  obtain ⟨f, hf⟩ := h _ he
  cases hf

end Computations

namespace Size

variable (a b : Size)

@[simp] lemma failsOnly_toDouble : FailsOnly Error.IsFault a.toDouble := by
  unfold toDouble
  split <;> simp

@[simp] lemma failsOnly_combine (f : Int → Int → Int) (g : Double → Double → Double) :
    FailsOnly Error.IsFault (a.combine f g b) := by
  unfold combine
  split <;> simp

@[simp] lemma failsOnly_add : FailsOnly Error.IsFault (a.add b) := failsOnly_combine a b _ _

@[simp] lemma failsOnly_sub : FailsOnly Error.IsFault (a.sub b) := failsOnly_combine a b _ _

@[simp] lemma failsOnly_mul : FailsOnly Error.IsFault (a.mul b) := failsOnly_combine a b _ _

@[simp] lemma failsOnly_neg : FailsOnly Error.IsFault a.neg := by
  unfold neg
  split <;> simp

@[simp] lemma failsOnly_floorDiv : FailsOnly Error.IsFault (a.floorDiv b) := by
  unfold floorDiv
  split <;> simp

@[simp] lemma failsOnly_isMultipleOf : FailsOnly Error.IsFault (a.isMultipleOf b) := by
  unfold isMultipleOf
  split <;> simp

@[simp] lemma failsOnly_sum (sizes : List Size) : FailsOnly Error.IsFault (sum sizes) := by
  simp [sum]

end Size

@[simp] lemma Place.failsOnly_get {α : Type} (xs : List α) (i : Int) :
    FailsOnly Error.IsFault (get xs i) := by
  simp only [get, failsOnly_ite, failsOnly_error, Error.isFault_fault, implies_true, true_and]
  intro _
  split <;> simp

@[simp] lemma Attribute.failsOnly_isText (a : Attribute) (s : String) :
    FailsOnly Error.IsFault (a.isText s) := by
  unfold isText
  repeat' split
  all_goals simp

@[simp] lemma Quantity.failsOnly_divides (q : Quantity) (s : Size) :
    FailsOnly Error.IsFault (q.divides s) := by
  unfold divides
  repeat' split
  all_goals simp [inFormat]

@[simp] lemma Node.failsOnly_quantity (n : Node) (key : String) (default : Size) :
    FailsOnly Error.IsFault (n.quantity key default) := by
  unfold quantity Quantity.ofAttribute
  repeat' split
  all_goals simp

@[simp] lemma Node.failsOnly_input (n : Node) (i : Nat) :
    FailsOnly Error.IsFault (n.input i) := by
  unfold input
  split <;> simp

@[simp] lemma Node.failsOnly_flag (n : Node) (key : String) (default : Bool) :
    FailsOnly Error.IsFault (n.flag key default) := by
  unfold flag Attribute.isTrue
  repeat' split
  all_goals simp

section Convolutions

variable {n : Node} {t : ValueType} {v w x : Value} {ds es ws : List Int} {sizes : List Size}

lemma failsOnly_groupsDivide (s : Size) : FailsOnly Error.IsFault (groupsDivide n s) := by
  simp [groupsDivide]

lemma failsOnly_coversAxes : FailsOnly Error.IsFault (coversAxes n) := by
  unfold coversAxes
  split <;> simp

lemma intList_of_noList {key : String} (h : n.NoList key) (default : List Int) :
    n.intList key default = .error (.typing (.listAttribute key)) := by
  obtain ⟨a, ha, hlist⟩ := h
  simp [Node.intList, ha, hlist]

lemma exists_intList {key : String} (h : ¬ n.NoList key) (default : List Int) :
    ∃ is, n.intList key default = .ok is := by
  unfold Node.intList
  cases ha : n.attribute? key with
  | none => exact ⟨default, rfl⟩
  | some a =>
    cases hlist : a.intList? with
    | none => exact absurd ⟨a, ha, hlist⟩ h
    | some is => exact ⟨is, by simp [hlist]⟩

lemma failsOnly_spatialDims {kernel : List Size} (hstrides : ¬ n.NoList "strides")
    (hdilations : ¬ n.NoList "dilations") (hpads : ¬ n.NoList "pads") :
    FailsOnly Error.IsFault (spatialDims n sizes kernel) := by
  obtain ⟨strides, hstrides⟩ := exists_intList hstrides (List.replicate kernel.length 1)
  obtain ⟨dilations, hdilations⟩ := exists_intList hdilations (List.replicate kernel.length 1)
  obtain ⟨pads, hpads⟩ := exists_intList hpads []
  simp only [spatialDims, hstrides, hdilations, hpads, Except.ok_bind, failsOnly_bind]
  refine ⟨failsOnly_coversAxes, fun covers _ => ?_⟩
  simp [coverCount, windowCount]

/-- Which attributes of a window are no lists of integers decides whether its sizes are refused. -/
lemma window_refused_iff {default : List Size} {f : List Size → List Size → Except Error ValueType}
    (hf : ∀ kernel spatial, FailsOnly Error.IsFault (f kernel spatial)) :
    (∃ e, (do
      let kernel ← kernelSizes n default
      let spatial ← spatialDims n sizes kernel
      f kernel spatial) = .error (.typing e)) ↔
      ∃ key ∈ ["kernel_shape", "strides", "dilations", "pads"], n.NoList key := by
  by_cases hkernel : n.NoList "kernel_shape"
  · refine iff_of_true ⟨.listAttribute "kernel_shape", ?_⟩ ⟨_, by simp, hkernel⟩
    have hlist := intList_of_noList hkernel []
    obtain ⟨a, ha, -⟩ := hkernel
    simp only [kernelSizes, ha, hlist]
    rfl
  obtain ⟨kernel, hk⟩ : ∃ kernel, kernelSizes n default = .ok kernel := by
    unfold kernelSizes
    split
    · exact ⟨default, rfl⟩
    · obtain ⟨is, his⟩ := exists_intList hkernel []
      exact ⟨is.map .whole, by rw [his]; rfl⟩
  rw [hk, Except.ok_bind]
  by_cases hstrides : n.NoList "strides"
  · refine iff_of_true ⟨.listAttribute "strides", ?_⟩ ⟨_, by simp, hstrides⟩
    simp only [spatialDims, intList_of_noList hstrides]
    rfl
  by_cases hdilations : n.NoList "dilations"
  · refine iff_of_true ⟨.listAttribute "dilations", ?_⟩ ⟨_, by simp, hdilations⟩
    obtain ⟨strides, hs⟩ := exists_intList hstrides (List.replicate kernel.length 1)
    simp only [spatialDims, hs, intList_of_noList hdilations]
    rfl
  by_cases hpads : n.NoList "pads"
  · refine iff_of_true ⟨.listAttribute "pads", ?_⟩ ⟨_, by simp, hpads⟩
    obtain ⟨strides, hs⟩ := exists_intList hstrides (List.replicate kernel.length 1)
    obtain ⟨dilations, hd⟩ := exists_intList hdilations (List.replicate kernel.length 1)
    simp only [spatialDims, hs, hd, intList_of_noList hpads]
    rfl
  refine iff_of_false (FailsOnly.not_typing ?_) (by simp [*])
  exact failsOnly_bind.mpr
    ⟨failsOnly_spatialDims hstrides hdilations hpads, fun spatial _ => hf kernel spatial⟩

lemma get_map_whole {i : Nat} {d : Int} (hd : ds[i]? = some d) :
    Place.get (ds.map Size.whole) i = .ok (.whole d) := by
  have hi : ¬ (i : Int) < 0 := by omega
  simp [Place.get, hi, hd]

/-- The rank that a kind of convolution asks for is an integer. -/
lemma exists_expectedRank (o : Operator) (r : Nat) : ∃ expected : Int,
    (do (← spatialCount o (.ofNat r)).add 2) = .ok (.whole expected) ∧
      ((∃ k, o.spatialAxes? = some k ∧ r ≠ k + 2) ↔ (r : Int) ≠ expected) := by
  rw [spatialCount]
  cases o.spatialAxes? with
  | none => exact ⟨r - 2 + 2, rfl, by simp⟩
  | some k =>
    refine ⟨k + 2, rfl, ?_⟩
    simp only [Option.some.injEq, exists_eq_left']
    omega

/-- Once the rank is right, the groups are looked at, and then the attributes of the window. -/
lemma groups_refused_iff {α : Type} {next : Except Error α}
    (hnext : (∃ e, next = .error (.typing e)) ↔
      ∃ key ∈ ["kernel_shape", "strides", "dilations", "pads"], n.NoList key) :
    (∃ e, (do
      if ! (← groupsDivide n (← Place.get (ds.map Size.whole) 1)) then
        throw (Error.typing .convGroups)
      next) = .error (.typing e)) ↔
      ∃ channels, ds[1]? = some channels ∧
        (groupsDivide n (.whole channels) = .ok false ∨
          groupsDivide n (.whole channels) = .ok true ∧
            ∃ key ∈ ["kernel_shape", "strides", "dilations", "pads"], n.NoList key) := by
  cases hchannels : ds[1]? with
  | none =>
    have hget : Place.get (ds.map Size.whole) 1 = outOfRange := by simp [Place.get, hchannels]
    rw [hget]
    refine iff_of_false (FailsOnly.not_typing ?_) (by simp)
    simp [Bind.bind, Except.bind]
  | some channels =>
    have hget : Place.get (ds.map Size.whole) 1 = .ok (.whole channels) := get_map_whole hchannels
    simp only [hget, Except.ok_bind, Option.some.injEq, exists_eq_left']
    cases hdivide : groupsDivide n (.whole channels) with
    | error e =>
      refine iff_of_false (FailsOnly.not_typing ?_) (by simp)
      have hfault := failsOnly_groupsDivide (n := n) (.whole channels) e hdivide
      simpa [Bind.bind, Except.bind] using hfault
    | ok divide =>
      cases divide with
      | false => exact iff_of_true ⟨.convGroups, rfl⟩ (.inl rfl)
      | true =>
        simp only [Except.ok_bind, Bool.not_true, Bool.false_eq_true, if_false, Except.ok.injEq,
          reduceCtorEq, false_or, true_and]
        exact hnext

/-- A convolution is refused for its kind, for its groups, or for the attributes of its window. -/
lemma conv_refused_iff (hconv : n.Convolves x w ds ws) (hout : n.outputs.length = 1) :
    (∃ e, conv n = .error (.typing e)) ↔
      (∃ k, n.operator.spatialAxes? = some k ∧ ds.length ≠ k + 2) ∨
      ∃ channels, ds[1]? = some channels ∧
        (groupsDivide n (.whole channels) = .ok false ∨
          groupsDivide n (.whole channels) = .ok true ∧
            ∃ key ∈ ["kernel_shape", "strides", "dilations", "pads"], n.NoList key) := by
  obtain ⟨y, hy⟩ := List.length_eq_one_iff.mp hout
  obtain ⟨us, hin⟩ := Node.inputs_eq_cons_cons hconv.data hconv.weights
  obtain ⟨expected, hexpected, hkind⟩ := exists_expectedRank n.operator ds.length
  obtain ⟨count, hcount, hsum⟩ := Except.bind_eq_ok.mp hexpected
  rw [hkind]
  simp only [conv, hin, hy, hconv.dataSizes.rank, hconv.dataSizes.dims, hconv.weightSizes.dims,
    hcount, hsum, Except.ok_bind]
  have hequals : (Size.ofNat ds.length).equals (.whole expected) =
      decide ((ds.length : Int) = expected) := Size.equals_whole _ _
  rw [hequals]
  by_cases hrank : (ds.length : Int) = expected
  · rw [if_neg (by simpa using hrank)]
    simp only [hrank, ne_eq, not_true_eq_false, false_or]
    exact groups_refused_iff (window_refused_iff fun kernel spatial => by simp)
  · rw [if_pos (by simpa using hrank)]
    exact iff_of_true ⟨_, rfl⟩ (.inl hrank)

end Convolutions

section Products

variable {n : Node} {v w : Value} {ds es : List Int}

lemma Size.exists_larger (a b : Int) : ∃ c, (whole a).larger (whole b) = .ok c := by
  unfold larger
  rw [less_whole, Except.ok_bind]
  split
  · exact ⟨_, rfl⟩
  · exact ⟨_, rfl⟩

lemma failsOnly_meetDim (clash : TypingError) (a b : Int) :
    FailsOnly Error.IsTyping (meetDim (.typing clash) (.whole a) (.whole b)) := by
  obtain ⟨c, hc⟩ := Size.exists_larger a b
  simp [meetDim, hc]

lemma failsOnly_meetReversed (clash : TypingError) (as bs : List Int) :
    FailsOnly Error.IsTyping (meetReversed (.typing clash) (as.map .whole) (bs.map .whole)) := by
  induction as generalizing bs with
  | nil =>
    rw [List.map_nil, meetReversed]
    refine failsOnly_mapM fun b hb => ?_
    obtain ⟨b, -, rfl⟩ := List.mem_map.mp hb
    exact failsOnly_meetDim clash 1 b
  | cons a as ih =>
    cases bs with
    | nil =>
      rw [List.map_nil, meetReversed]
      · refine failsOnly_mapM fun b hb => ?_
        obtain ⟨b, -, rfl⟩ := List.mem_map.mp hb
        exact failsOnly_meetDim clash b 1
      · simp
    | cons b bs => simp [meetReversed, failsOnly_meetDim, ih]

/-- Integer sizes that cannot be broadcast are refused as such. -/
lemma failsOnly_broadcastDims (as bs : List Int) :
    FailsOnly Error.IsTyping (broadcastDims (as.map .whole) (bs.map .whole)) := by
  simp only [broadcastDims, ← List.map_reverse, failsOnly_map]
  exact failsOnly_meetReversed _ _ _

lemma before_map_whole (ds : List Int) (i : Int) :
    Place.before (ds.map Size.whole) i = (Place.before ds i).map Size.whole := by
  simp [Place.before, List.map_take]

lemma get_end_map_whole {k : Nat} {d : Int} (hk : 0 < k) (hle : k ≤ ds.length)
    (hd : ds[ds.length - k]? = some d) : Place.get (ds.map Size.whole) (-k) = .ok (.whole d) := by
  have hneg : (-(k : Int)) < 0 := by omega
  have hplace : (-(k : Int) + ds.length).toNat = ds.length - k := by omega
  have hpos : ¬ (-(k : Int) + ds.length) < 0 := by omega
  simp only [Place.get, List.length_map, if_pos hneg, if_neg hpos, hplace, List.getElem?_map, hd,
    Option.map_some]

lemma promote_ne_typing {a b : ElementType} (f : TypingError) :
    a.promote b ≠ .error (.typing f) := by
  unfold ElementType.promote Layout.element
  repeat' split
  all_goals simp

/-- A product whose elements have a product is refused if it sums over different sizes. -/
lemma matMul_typing_of_promote {y : Value} {t : ElementType} {inner inner' : Int}
    (hin : n.inputs = [v, w]) (hy : n.outputs = [y]) (hds : v.type.Sized ds) (hes : w.type.Sized es)
    (hranks : 2 ≤ ds.length ∧ 2 ≤ es.length) (hinner : ds[ds.length - 1]? = some inner)
    (hinner' : es[es.length - 2]? = some inner') (hne : inner ≠ inner')
    (hpromote : v.type.element.promote w.type.element = .ok t) :
    ∃ e, matMul n = .error (.typing e) := by
  have hless : ∀ {r : Nat}, 2 ≤ r → (Size.ofNat r).less 2 = .ok false := by
    intro r hr
    rw [show (2 : Size) = .ofNat 2 from rfl, Size.less_ofNat, decide_eq_false (by omega)]
  have hget : Place.get (ds.map Size.whole) (-1) = .ok (.whole inner) :=
    get_end_map_whole (k := 1) (by omega) (by omega) hinner
  have hget' : Place.get (es.map Size.whole) (-2) = .ok (.whole inner') :=
    get_end_map_whole (k := 2) (by omega) (by omega) hinner'
  simp only [matMul, hin, hy, hpromote, Except.ok_bind, hds.rank, hes.rank, hds.dims, hes.dims,
    productRank_eq, hless hranks.1, hless hranks.2, Bool.or_self, Bool.false_eq_true, if_false,
    before_map_whole, hget, hget', Size.equals_whole, decide_eq_false hne, Bool.not_false, if_true]
  cases hbatch : broadcastDims ((Place.before ds (-2)).map .whole)
    ((Place.before es (-2)).map .whole) with
  | error e =>
    obtain ⟨f, rfl⟩ := failsOnly_broadcastDims _ _ e hbatch
    exact ⟨f, rfl⟩
  | ok batch => exact ⟨_, rfl⟩

/-- A product that sums over different sizes is refused as soon as its elements have a product. -/
lemma matMul_refused_iff {inner inner' : Int} (hv : n.input 0 = .ok v) (hw : n.input 1 = .ok w)
    (hds : v.type.Sized ds) (hes : w.type.Sized es) (hranks : 2 ≤ ds.length ∧ 2 ≤ es.length)
    (hinner : ds[ds.length - 1]? = some inner) (hinner' : es[es.length - 2]? = some inner')
    (hne : inner ≠ inner') : (∃ e, matMul n = .error (.typing e)) ↔
      (n.outputs.length ≠ 1 ∨ n.inputs.length ≠ 2) ∨
        ∃ t, v.type.element.promote w.type.element = .ok t := by
  by_cases harity : n.outputs.length = 1 ∧ n.inputs.length = 2
  swap
  · refine iff_of_true ⟨.matMulArity, ?_⟩ (.inl (by omega))
    unfold matMul
    split
    · next hinputs houtputs => exact absurd ⟨by simp [houtputs], by simp [hinputs]⟩ harity
    · rfl
  obtain ⟨y, hy⟩ := List.length_eq_one_iff.mp harity.1
  obtain ⟨us, hin⟩ := Node.inputs_eq_cons_cons hv hw
  obtain rfl : us = [] := by simpa [hin] using harity.2
  rw [or_iff_right (by omega)]
  constructor
  · rintro ⟨f, hf⟩
    cases hpromote : v.type.element.promote w.type.element with
    | error e =>
      simp only [matMul, hin, hy, hpromote] at hf
      obtain rfl := Except.error.inj hf
      exact (promote_ne_typing f hpromote).elim
    | ok t => exact ⟨t, rfl⟩
  · rintro ⟨t, hpromote⟩
    exact matMul_typing_of_promote hin hy hds hes hranks hinner hinner' hne hpromote

lemma linear_refused_iff (hv : n.input 0 = .ok v) (hw : n.input 1 = .ok w)
    (hes : w.type.Sized es) : (∃ e, linear n = .error (.typing e)) ↔ es.length ≠ 2 := by
  have hrank : w.type.rank.equals 2 = decide (es.length = 2) := by
    rw [hes.rank]
    exact Size.equals_ofNat es.length 2
  simp only [linear, hv, hw, Except.ok_bind, hrank]
  by_cases htwo : es.length = 2
  · refine iff_of_false ?_ (by simpa using htwo)
    rw [if_neg (by simpa using htwo)]
    refine FailsOnly.not_typing ?_
    split <;> simp
  · rw [if_pos (by simpa using htwo)]
    exact iff_of_true ⟨_, rfl⟩ htwo

lemma gemm_not_refused : ¬ ∃ e, gemm n = .error (.typing e) := by
  refine FailsOnly.not_typing ?_
  simp only [gemm, failsOnly_bind, Node.failsOnly_input, true_and]
  intro v _ w _
  split <;> simp

end Products

section Joins

variable {n : Node} {u v w : Value} {cs ds es : List Int} {axis : Int} {i : Nat}

lemma joinAxis_of_range {r : Nat} (haxis : n.axis? = some axis)
    (hrange : -r ≤ axis ∧ axis < r) : ∃ q, joinAxis n (.ofNat r) = .ok q := by
  have hnormal : (Quantity.number (.whole axis)).normalize (.ofNat r) = _ :=
    Quantity.normalize_whole axis r
  unfold joinAxis
  rw [quantity_axis haxis, Except.ok_bind, hnormal, Except.ok_bind]
  generalize hp : (if axis < 0 then axis + (r : Int) else axis) = p
  have hreaches : (Quantity.number (.whole p)).reaches (.ofNat r) = _ :=
    Quantity.reaches_whole p r
  rw [Quantity.isNegative_whole, hreaches, Except.ok_bind, Except.ok_bind]
  have hin : ¬ (decide (p < 0) || decide ((r : Int) ≤ p)) = true := by
    rw [Bool.or_eq_true, decide_eq_true_iff, decide_eq_true_iff]
    split at hp <;> omega
  rw [if_neg hin]
  exact ⟨_, rfl⟩

lemma failsOnly_joinedShape (axis : Quantity) (shapes : List (List Size)) :
    FailsOnly Error.IsFault (joinedShape axis shapes) := by
  have hindex : FailsOnly Error.IsFault axis.index := by
    unfold Quantity.index Size.index
    repeat' split
    all_goals simp
  simp [joinedShape, hindex]

/-- Vectors of sizes have one axis, along which they are joined. -/
lemma sizeCounts?_eq_none_of_join (hu : n.input 0 = .ok u) (hv : v ∈ n.inputs)
    (hcs : u.type.Sized cs) (hds : v.type.Sized ds)
    (hrange : -cs.length ≤ axis ∧ axis < cs.length)
    (hi : (i : Int) ≠ if axis < 0 then axis + cs.length else axis) (hlength : i < ds.length) :
    sizeCounts? n.inputs = none := by
  rw [Option.eq_none_iff_forall_ne_some]
  intro counts hcounts
  have htypes := sizeCounts?_eq_some.mp hcounts
  have hone : ∀ {x : Value} {xs : List Int}, x ∈ n.inputs → x.type.Sized xs → xs.length = 1 := by
    intro x xs hx hxs
    obtain ⟨rank, hrank⟩ := exists_shape_of_types htypes hx
    have hdims := hxs.dims
    rw [hrank] at hdims
    simpa using (congrArg List.length (Option.some.inj hdims)).symm
  have hc := hone (List.mem_of_getElem? (Node.input_eq_ok.mp hu)) hcs
  have hd := hone hv hds
  split at hi <;> omega

/-- A join is refused for the ranks of its operands only. -/
lemma concat_refused_iff (hsizes : ∀ v ∈ n.inputs, ∃ sizes, v.type.Sized sizes)
    (hcounts : sizeCounts? n.inputs = none) (hu : n.input 0 = .ok u) (hcs : u.type.Sized cs)
    (haxis : n.axis? = some axis) (hrange : -cs.length ≤ axis ∧ axis < cs.length) :
    (∃ e, concat n = .error (.typing e)) ↔ n.outputs.length ≠ 1 ∨
      ∃ w ∈ n.inputs, ∃ es, w.type.Sized es ∧ cs.length ≠ es.length := by
  have hne : n.inputs ≠ [] := by
    intro hnil
    simp [Node.input, hnil, outOfRange] at hu
  by_cases hout : n.outputs.length = 1
  swap
  · refine iff_of_true ⟨.concatArity, ?_⟩ (.inl hout)
    simp [concat, hout]
    rfl
  simp only [concat, hout, ne_eq, not_true_eq_false, hne, or_self, if_false, hcounts, hu,
    Except.ok_bind, false_or]
  have hany : (n.inputs.any fun w => ! w.type.rank.equals u.type.rank) = true ↔
      ∃ w ∈ n.inputs, ∃ es, w.type.Sized es ∧ cs.length ≠ es.length := by
    rw [List.any_eq_true]
    refine exists_congr fun w => and_congr_right fun hw => ?_
    obtain ⟨es, hes⟩ := hsizes w hw
    have hequals : w.type.rank.equals u.type.rank = decide (es.length = cs.length) := by
      rw [hes.rank, hcs.rank, Size.equals_ofNat]
    rw [hequals, Bool.not_eq_true', decide_eq_false_iff_not]
    refine ⟨fun h => ⟨es, hes, fun heq => h heq.symm⟩, ?_⟩
    rintro ⟨es', hes', h⟩ heq
    exact h (heq.symm.trans (Size.ofNat_inj.mp (hes.rank.symm.trans hes'.rank)))
  rw [← hany]
  by_cases hmixed : (n.inputs.any fun w => ! w.type.rank.equals u.type.rank) = true
  · rw [if_pos hmixed]
    exact iff_of_true ⟨.concatRank, rfl⟩ hmixed
  · rw [if_neg hmixed]
    refine iff_of_false (FailsOnly.not_typing ?_) hmixed
    obtain ⟨q, hq⟩ := joinAxis_of_range haxis hrange
    rw [hcs.rank, hq, Except.ok_bind]
    split <;> simp [failsOnly_joinedShape]

end Joins

/-! ## Nodes -/

variable {n : Node}

lemma infer_refused_iff {rule : Node → Except Error ValueType}
    (hrule : rule? n.operator = some rule) :
    (∃ e, n.infer = .error (.typing e)) ↔ ∃ e, rule n = .error (.typing e) := by
  simp only [Node.infer, Node.typedOutputs, hrule]
  cases hr : rule n with
  | error e => simp [Bind.bind, Except.bind]
  | ok t =>
    refine iff_of_false (FailsOnly.not_typing ?_) (by simp)
    simp only [Except.ok_bind]
    split <;> simp [Bind.bind, Except.bind, Pure.pure, Except.pure]

lemma ValueType.Sized.eq {t : ValueType} {ds es : List Int} (h : t.Sized ds) (h' : t.Sized es) :
    ds = es := by
  have hmap : ds.map Size.whole = es.map .whole := Option.some.inj (h.dims.symm.trans h'.dims)
  exact List.map_injective_iff.mpr (fun _ _ => Size.whole.inj) hmap

lemma Node.Convolves.eq {x w x' w' : Value} {ds ws ds' ws' : List Int}
    (h : n.Convolves x w ds ws) (h' : n.Convolves x' w' ds' ws') : ds = ds' := by
  obtain rfl := Except.ok.inj (h.data.symm.trans h'.data)
  exact h.dataSizes.eq h'.dataSizes

lemma Node.Convolves.operator_notMem {x w : Value} {ds ws : List Int}
    (h : n.Convolves x w ds ws) : n.operator ∉ [.matMul, .gemm, .linear, .concat] := by
  have hop := h.operator
  simp only [Operator.convolutions, List.mem_cons, List.not_mem_nil, or_false] at hop
  rcases hop with hop | hop | hop | hop <;> simp [hop]

/-- What a convolution is refused for is noticed. -/
lemma Node.Convolves.noticed_iff {x w : Value} {ds ws : List Int} (hconv : n.Convolves x w ds ws) :
    (∃ e, n.infer = .error (.typing e)) ↔ n.Noticed := by
  have hother := hconv.operator_notMem
  rw [infer_refused_iff (rule?_convolutions hconv.operator)]
  by_cases hout : n.outputs.length = 1
  swap
  · refine iff_of_true ⟨.convArity, ?_⟩ (.arity (by simp [hconv.operator]) (.inl hout))
    unfold conv
    split
    · next houtputs => exact absurd (by simp [houtputs]) hout
    · rfl
  rw [conv_refused_iff hconv hout]
  constructor
  · rintro (⟨k, hk, hrank⟩ | ⟨channels, hchannels, hdivide | ⟨hdivide, key, hkey, hlist⟩⟩)
    · exact .kind hconv hk hrank
    · exact .groups hconv hchannels hdivide
    · exact .list hconv hchannels hdivide hkey hlist
  · intro hnoticed
    cases hnoticed with
    | arity _ harity =>
      rcases harity with harity | ⟨hop, -⟩
      · exact absurd hout harity
      · simp [hop] at hother
    | product hop | weights hop | ranks hop => simp [hop] at hother
    | kind hconv' hk hrank => exact .inl ⟨_, hk, hconv'.eq hconv ▸ hrank⟩
    | groups hconv' hchannels hdivide =>
      exact .inr ⟨_, hconv'.eq hconv ▸ hchannels, .inl hdivide⟩
    | list hconv' hchannels hdivide hkey hlist =>
      exact .inr ⟨_, hconv'.eq hconv ▸ hchannels, .inr ⟨hdivide, _, hkey, hlist⟩⟩

namespace Node

variable {u v w : Value} {cs ws : List Int}

/-- What is noticed of a product of matrices. -/
lemma noticed_iff_of_matMul (hop : n.operator = .matMul) (hv : n.input 0 = .ok v)
    (hw : n.input 1 = .ok w) : n.Noticed ↔ (n.outputs.length ≠ 1 ∨ n.inputs.length ≠ 2) ∨
      ∃ t, v.type.element.promote w.type.element = .ok t := by
  constructor
  · intro hnoticed
    cases hnoticed with
    | arity _ harity => exact .inl (harity.imp_right And.right)
    | product _ hv' hw' ht =>
      obtain rfl := Except.ok.inj (hv.symm.trans hv')
      obtain rfl := Except.ok.inj (hw.symm.trans hw')
      exact .inr ⟨_, ht⟩
    | weights hop' | ranks hop' => simp [hop] at hop'
    | kind hconv | groups hconv | list hconv => exact (hconv.operator_notMem (by simp [hop])).elim
  · rintro (harity | ⟨t, ht⟩)
    · exact .arity (by simp [hop]) (harity.imp_right fun h => ⟨hop, h⟩)
    · exact .product hop hv hw ht

lemma not_noticed_of_gemm (hop : n.operator = .gemm) : ¬ n.Noticed := by
  intro hnoticed
  cases hnoticed with
  | arity hop' => simp [hop, Operator.convolutions] at hop'
  | product hop' | weights hop' | ranks hop' => simp [hop] at hop'
  | kind hconv | groups hconv | list hconv => exact hconv.operator_notMem (by simp [hop])

/-- What is noticed of a linear layer. -/
lemma noticed_iff_of_linear (hop : n.operator = .linear) (hw : n.input 1 = .ok w)
    (hws : w.type.Sized ws) : n.Noticed ↔ ws.length ≠ 2 := by
  constructor
  · intro hnoticed
    cases hnoticed with
    | arity hop' => simp [hop, Operator.convolutions] at hop'
    | product hop' | ranks hop' => simp [hop] at hop'
    | weights _ hw' hws' hrank =>
      obtain rfl := Except.ok.inj (hw.symm.trans hw')
      exact hws.eq hws' ▸ hrank
    | kind hconv | groups hconv | list hconv => exact (hconv.operator_notMem (by simp [hop])).elim
  · exact fun hrank => .weights hop hw hws hrank

/-- What is noticed of a join. -/
lemma noticed_iff_of_concat (hop : n.operator = .concat) (hu : n.input 0 = .ok u)
    (hcs : u.type.Sized cs) : n.Noticed ↔ n.outputs.length ≠ 1 ∨
      ∃ w ∈ n.inputs, ∃ es, w.type.Sized es ∧ cs.length ≠ es.length := by
  constructor
  · intro hnoticed
    cases hnoticed with
    | arity _ harity => exact .inl (harity.resolve_right fun h => by simp [hop] at h)
    | product hop' | weights hop' => simp [hop] at hop'
    | ranks _ hu' hw hds hes hne =>
      obtain rfl := Except.ok.inj (hu.symm.trans hu')
      exact .inr ⟨_, hw, _, hes, hcs.eq hds ▸ hne⟩
    | kind hconv | groups hconv | list hconv => exact (hconv.operator_notMem (by simp [hop])).elim
  · rintro (hout | ⟨w, hw, es, hes, hne⟩)
    · exact .arity (by simp [hop]) (.inl hout)
    · exact .ranks hop hu hw hcs hes hne

end Node

/-- Of the nodes whose operands contradict each other, exactly those are refused of which a check of
typing notices something. -/
theorem Node.Contradictory.refused_iff (h : n.Contradictory) :
    (∃ e, n.infer = .error (.typing e)) ↔ n.Noticed := by
  cases h with
  | product hop hv hw hds hes hranks hinner hinner' hne =>
    have hrule : rule? n.operator = some matMul := by rw [hop]; rfl
    rw [infer_refused_iff hrule, noticed_iff_of_matMul hop hv hw]
    exact matMul_refused_iff hv hw hds hes hranks hinner hinner' hne
  | gemm hop =>
    have hrule : rule? n.operator = some Typing.gemm := by rw [hop]; rfl
    rw [infer_refused_iff hrule]
    exact iff_of_false gemm_not_refused (not_noticed_of_gemm hop)
  | linear hop hv hw hds hws =>
    have hrule : rule? n.operator = some Typing.linear := by rw [hop]; rfl
    rw [infer_refused_iff hrule, noticed_iff_of_linear hop hw hws]
    exact linear_refused_iff hv hw hws
  | channels hconv => exact hconv.noticed_iff
  | window hconv => exact hconv.noticed_iff
  | join hop hsizes hu hv _ hcs hds _ haxis hrange hi hd =>
    have hrule : rule? n.operator = some concat := by rw [hop]; rfl
    have hcounts := sizeCounts?_eq_none_of_join hu hv hcs hds hrange hi
      (List.getElem?_eq_some_iff.mp hd).1
    rw [infer_refused_iff hrule, noticed_iff_of_concat hop hu hcs]
    exact concat_refused_iff hsizes hcounts hu hcs haxis hrange

/-- A product of matrices, or a linear layer: the rows of the first operand have three entries, the
columns of the second have four. -/
def mismatched (o : Operator) : Node where
  operator := o
  name := "node1"
  inputs := [{ name := "x", type := .tensor .float32 2 (some [2, 3]) },
    { name := "w", type := .tensor .float32 2 (some [4, 5]) }]
  outputs := [{ name := "y" }]

theorem Node.Contradictory.refused_iff_mismatched : (mismatched .matMul).Contradictory ∧
    (mismatched .matMul).infer = .error (.typing (.matMulDims "3" "4")) ∧
    ((∃ e, (mismatched .matMul).infer = .error (.typing e)) ↔ (mismatched .matMul).Noticed) := by
  have hcontra : (mismatched .matMul).Contradictory :=
    .product rfl rfl rfl (sized_tensor [2, 3]) (sized_tensor [4, 5]) (by decide) rfl rfl (by decide)
  exact ⟨hcontra, by decide +kernel, Node.Contradictory.refused_iff hcontra⟩

/-- What is refused as a product of matrices passes as a linear layer. -/
theorem mismatched_layer_accepted : (mismatched .linear).Contradictory ∧
    (mismatched .linear).infer.map (·.outputs.map Value.type) =
      .ok [.tensor .float32 2 (some [2, 5])] :=
  ⟨.linear rfl rfl rfl (sized_tensor [2, 3]) (sized_tensor [4, 5]) rfl rfl (by decide),
    by decide +kernel⟩

end TensorGraph
