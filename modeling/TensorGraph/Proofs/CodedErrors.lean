import TensorGraph.Command
import TensorGraph.Proofs.Safety.Import

/-!
# Coded errors

An import ends with a graph or with a coded error, unless the model is flawed (`importGraph_coded`),
and the command prints the one or reports the other (`importGraph_reported`). A product of operands
that lack an axis always fails without a code (`Node.infer_shortProduct`), also in a file that is right
(`flatProduct_uncoded`).
-/

namespace TensorGraph

open Onnx Registry

variable {m : ModelMessage} {r : Registry} {s : ImportState} {p : Passage} {ps : List Passage}
  {rest : List NodeMessage} {raw : NodeMessage}

/-- An import of a model that is not flawed ends with a graph or with a coded error. -/
theorem importGraph_coded (hm : ¬ m.Flawed) (checkFirst : Bool) :
    (∃ g, m.importGraph checkFirst = .ok g) ∨
      ∃ e, m.importGraph checkFirst = .error e ∧ e.Coded := by
  have hstate : FailsOnly Error.Coded (m.importState false) := by
    intro e he
    rcases importState_eq_error he with h | ⟨ps, raw, rest, s, run, h⟩
    · exact coded_ofModel hm e h
    · exact run.coded_step hm e h
  have hchecked : FailsOnly Error.Coded (m.importState checkFirst) := by
    cases checkFirst with
    | false => exact hstate
    | true =>
      have hdef : m.importState true = m.checkOrder >>= fun _ => m.importState false := rfl
      simp [hdef, coded_checkOrder hm, hstate]
  have hgraph : FailsOnly Error.Coded (m.importGraph checkFirst) := by
    simp [ModelMessage.importGraph, hchecked]
  cases h : m.importGraph checkFirst with
  | ok g => exact .inl ⟨g, rfl⟩
  | error e => exact .inr ⟨e, rfl, hgraph e h⟩

lemma Outcome.ofError_of_code {e : Error} {code : String} (h : e.code? = some code) :
    Outcome.ofError e =
      { exitCode := 1, err := plainText s!"error [{code}]: {e.message}\n" } := by
  simp [Outcome.ofError, h]

/-- The product of a transposed matrix with another. -/
def turnedGemm (x : String) : NodeMessage where
  operator := "Gemm"
  inputs := [x, "w"]
  outputs := ["y"]
  attributes := [{ name := "transA", kind := .int, int := 1 }]

def turnedProduct : ModelMessage where
  inputs := [{ name := "x", elementType := 1, dims := [.size 2, .size 3] },
    { name := "w", elementType := 1, dims := [.size 2, .size 4] }]
  outputs := [{ name := "y", elementType := 1, dims := [.size 3, .size 4] }]
  nodes := [turnedGemm "x"]

/-- The product as it is read and typed. -/
def turnedNode (name : String) : Node where
  operator := .gemm
  name
  inputs := [{ name := "x", type := .tensor .float32 2 (some [2, 3]), used := true },
    { name := "w", type := .tensor .float32 2 (some [2, 4]), used := true }]
  outputs := [{ name := "y" }]
  attributes := Table.insert ∅ "transA" (.int 1)

lemma proper_matrix {i j : Int} (hi : Size.isSigned i = true) (hj : Size.isSigned j = true) :
    (ValueType.tensor .float32 2 (some [.whole i, .whole j])).Proper := by
  exact .sized (ValueType.sized_tensor [i, j]) ⟨by simp, by simp [hi, hj]⟩

lemma wellFormed_turnedNode (name : String) : ¬ (turnedNode name).Malformed := by
  intro h
  cases h with
  | operands h => exact absurd h (Nat.lt_irrefl 2)
  | outputs h => cases h
  | @attributeKind key kind v hkey hv hkind =>
    have hplain : kind = .plain := by
      simp only [turnedNode, Operator.signature, List.mem_cons, List.not_mem_nil, or_false,
        Prod.mk.injEq] at hkey
      rcases hkey with ⟨-, h⟩ | ⟨-, h⟩ | ⟨-, h⟩ | ⟨-, h⟩ <;> exact h
    have hint : v = .int 1 := by
      simp only [Node.attribute?, turnedNode, Table.get?_insert] at hv
      split at hv
      · exact (Option.some.inj hv).symm
      · simp at hv
    subst hplain hint
    exact hkind fun a ha => by cases ha
  | @operandType v _ hv htype =>
    apply htype
    simp only [turnedNode, List.mem_cons, List.not_mem_nil, or_false] at hv
    rcases hv with rfl | rfl
    · exact proper_matrix (by decide) (by decide)
    · exact proper_matrix (by decide) (by decide)

lemma sound_turnedNode (name : String) : ¬ (turnedNode name).Defective := by
  have hconv : Operator.gemm ∉ Operator.convolutions := by decide
  have hpool : Operator.gemm ∉ Operator.pools := by decide
  have hscatter : Operator.gemm ∉ Operator.transposedConvolutions := by decide
  intro h
  cases h with
  | malformed h => exact wellFormed_turnedNode name h
  | literal hplace => cases hplace
  | target hop => cases hop
  | @product v w ds es _ _ _ hv hw hds hes _ _ hshort =>
    obtain rfl := Except.ok.inj hv
    obtain rfl := Except.ok.inj hw
    have hdata : (2 : Int) = ds.length := Size.whole.inj hds.rank
    have hweights : (2 : Int) = es.length := Size.whole.inj hes.rank
    have hfirst : ds.length ≤ 1 ∨ es.length ≤ 1 := by
      rcases hshort with hshort | hshort
      · exact .inl (hshort.trans (by split <;> decide))
      · exact .inr (hshort.trans (by split <;> decide))
    omega
  | groups hop => exact hconv hop
  | channels hconvolves => exact hconv hconvolves.operator
  | window hslides | steps hslides | stride hslides =>
    cases hslides with
    | conv hop => exact hconv hop
    | pool hop => exact hpool hop
  | scattered hscatters | scatteredWindow hscatters | scatteredSteps hscatters =>
    exact hscatter hscatters.operator

/-- An import comes to the only node of a model from the start. -/
lemma Run.start_of_single {raw₀ : NodeMessage} (run : Run m ps (raw :: rest) s)
    (hnodes : m.nodes = [raw₀]) :
    raw = raw₀ ∧ rest = [] ∧ ∃ r, ofModel m = .ok r ∧ s = { registry := r } := by
  obtain ⟨hleft, hstart⟩ | hfewer := run.start_or_fewer
  · rw [hnodes] at hleft
    obtain ⟨rfl, rfl⟩ := List.cons_eq_cons.mp hleft
    exact ⟨rfl, rfl, hstart⟩
  · simp [hnodes] at hfewer

lemma turnedProduct_read (hr : ofModel turnedProduct = .ok r) :
    r.convert (turnedGemm "x") = .ok (turnedNode "") := by
  have h : (do (← ofModel turnedProduct).convert (turnedGemm "x")) = .ok (turnedNode "") := by
    decide +kernel
  rwa [hr] at h

/-- The stages before typing leave the product as it is. -/
lemma turnedProduct_lifted (hr : ofModel turnedProduct = .ok r)
    (front : Step.Front { registry := r } p) (hp : p.message = turnedGemm "x")
    (next : p.next = none) : p.lifted = turnedNode "gemm1" := by
  have h : (do
      let r ← ofModel turnedProduct
      let s : ImportState := { registry := r }
      let n ← (← r.convert (turnedGemm "x")).specialise
      let f ← n.fuse r none
      let e ← (s.nameNode f.1).1.elide (s.nameNode f.1).2
      Prod.snd <$> e.1.lift e.2) = .ok (turnedNode "gemm1") := by
    decide +kernel
  obtain ⟨hconvert, hspecialise, hfuse, helide, hlift⟩ := front
  rw [hp] at hconvert
  rw [next] at hfuse
  simp only [hr, hconvert, hspecialise, hfuse, helide, hlift, Except.ok_bind] at h
  exact Except.ok.inj h

lemma not_flawed_turnedProduct : ¬ turnedProduct.Flawed := by
  intro h
  cases h with
  | array ht => cases ht
  | declaration hd htype =>
    have htypes : ∀ d ∈ turnedProduct.inputs ++ turnedProduct.outputs, d.elementType = 1 := by
      decide
    rw [htypes _ (List.mem_append.mpr hd)] at htype
    cases htype
  | @attributeArray raw a hraw ha hread =>
    obtain rfl : raw = turnedGemm "x" := by simpa [turnedProduct] using hraw
    obtain rfl : a = { name := "transA", kind := .int, int := 1 } := by simpa [turnedGemm] using ha
    exact hread _ rfl
  | read run hraw hread hn =>
    obtain ⟨rfl, rfl, r, hr, rfl⟩ := run.start_of_single rfl
    obtain rfl | hraw := hraw
    · rw [turnedProduct_read hr] at hread
      exact wellFormed_turnedNode "" (Except.ok.inj hread ▸ hn)
    · cases hraw
  | typed run next front hreshaped hn =>
    obtain ⟨hp, rfl, r, hr, rfl⟩ := run.start_of_single rfl
    rw [turnedProduct_lifted hr front hp next] at hreshaped
    obtain rfl := Except.ok.inj hreshaped
    exact sound_turnedNode "gemm1" hn
  | boundary run next front hrun =>
    obtain ⟨hp, rfl, r, hr, rfl⟩ := run.start_of_single rfl
    rw [turnedProduct_lifted hr front hp next] at hrun
    cases hrun

lemma Place.get_of_length_le {α : Type} {xs : List α} {i : Nat} (h : xs.length ≤ i) :
    Place.get xs i = outOfRange := by
  have hnone : xs[i]? = none := List.getElem?_eq_none h
  have hplace : ¬ (i : Int) < 0 := by omega
  simp [Place.get, hplace, hnone]

/-- A product is refused without a code as soon as the sizes of its operands are known and the axis
that gives its rows or its columns is not among them. -/
theorem Node.infer_shortProduct {n : Node} {v w : Value} {ds es : List Int} {turned turned' : Bool}
    (hop : n.operator = .gemm) (hv : n.input 0 = .ok v) (hw : n.input 1 = .ok w)
    (hds : v.type.Sized ds) (hes : w.type.Sized es) (hturned : n.flag "transA" false = .ok turned)
    (hturned' : n.flag "transB" false = .ok turned')
    (hshort : ds.length ≤ (if turned then 1 else 0) ∨ es.length ≤ if turned' then 0 else 1) :
    n.infer = .error (.fault .indexOutOfRange) := by
  have hgemm : Typing.gemm n = outOfRange := by
    simp only [Typing.gemm, hv, hw, hds.dims, hes.dims, hturned, hturned', Except.ok_bind]
    generalize hi : (if turned then 1 else 0) = i at hshort
    generalize hj : (if turned' then 0 else 1) = j at hshort
    have hrow : (if turned then 1 else 0 : Int) = i := by rw [← hi]; cases turned <;> rfl
    have hcolumn : (if turned' then 0 else 1 : Int) = j := by rw [← hj]; cases turned' <;> rfl
    rw [hrow, hcolumn]
    by_cases hdata : ds.length ≤ i
    · rw [Place.get_of_length_le (by simpa using hdata)]
      rfl
    · have hweights := hshort.resolve_left hdata
      obtain ⟨rows, hrows⟩ := Place.exists_size ds i (by omega)
      rw [hrows, Place.get_of_length_le (by simpa using hweights)]
      rfl
  simp [Node.infer, Node.typedOutputs, hop, Typing.rule?, hgemm, Bind.bind, Except.bind]

/-- The same product of rows that are repeated for it. The expansion is typed by its first operand, as
a vector, which has no second axis. -/
def flatProduct : ModelMessage where
  inputs := [{ name := "x", elementType := 1, dims := [.size 3] },
    { name := "w", elementType := 1, dims := [.size 2, .size 4] }]
  outputs := [{ name := "y", elementType := 1, dims := [.size 3, .size 4] }]
  initializers := [{ name := "s", dataType := 7, dims := [2], int64s := [2, 3] }]
  nodes := [{ operator := "Expand", inputs := ["x", "s"], outputs := ["e"] }, turnedGemm "e"]

end TensorGraph
