import TensorGraph.Proofs.ListedEdges

/-!
# Executable orders

Nodes can be executed in their order if each name that one of them reads and one of them writes is
written strictly before every reader. The check of the order sees every reader that stands before its
writer, but not a node that reads what it writes itself, and where it fails it names the first reader
(`executable_iff`).
-/

namespace TensorGraph

variable {nodes : List Node} {n : Node} {x : String} {e : Error} {is : List Nat} {i j k : Nat}

/-- The node at position `i` reads the name `x`. -/
def ReadAt (nodes : List Node) (x : String) (i : Nat) : Prop :=
  ∃ n, nodes[i]? = some n ∧ ∃ v ∈ n.inputs, v.name = x

/-- The node at position `j` writes the name `x`. -/
def WrittenAt (nodes : List Node) (x : String) (j : Nat) : Prop :=
  ∃ n, nodes[j]? = some n ∧ ∃ v ∈ n.outputs, v.name = x

/-- Every name that a node reads and a node writes is written strictly before the reader. -/
def Executable (nodes : List Node) : Prop :=
  ∀ x i, x ≠ "" → ReadAt nodes x i → (∃ j, WrittenAt nodes x j) → ∃ j < i, WrittenAt nodes x j

/-- The node reads a name that it writes itself. -/
def Node.ReadsOwn (n : Node) : Prop :=
  ∃ v ∈ n.inputs, v.name ≠ "" ∧ ∃ w ∈ n.outputs, w.name = v.name

instance : DecidablePred Node.ReadsOwn := fun _ => by
  unfold Node.ReadsOwn
  infer_instance

/-- The positions of the readers of a name are noted in order. -/
lemma pairwise_readers (hx : x ≠ "") : (((readers nodes).get? x).getD []).Pairwise (· ≤ ·) := by
  have hplaces : (nodes.zipIdx.map Prod.snd).Pairwise (· < ·) := by
    rw [List.zipIdx_map_snd]
    exact List.pairwise_lt_range'
  rw [getD_readers hx, List.pairwise_flatMap]
  refine ⟨fun e _ => List.pairwise_replicate.mpr (.inr (Nat.le_refl _)), ?_⟩
  refine (List.pairwise_map.mp hplaces).imp fun hlt a ha b hb => ?_
  rw [List.eq_of_mem_replicate ha, List.eq_of_mem_replicate hb]
  exact Nat.le_of_lt hlt

/-- In a list in order, what is found below a bound is the least. -/
lemma le_of_find? (hsorted : is.Pairwise (· ≤ ·)) (hfind : is.find? (· < j) = some i) (hk : k ∈ is) :
    i ≤ k := by
  obtain ⟨hlt, before, after, rfl, hbefore⟩ := List.find?_eq_some_iff_append.mp hfind
  have hlt : i < j := of_decide_eq_true hlt
  rcases List.mem_append.mp hk with hk | hk
  · have hge : ¬ k < j := by simpa using hbefore k hk
    omega
  · rcases List.mem_cons.mp hk with rfl | hk
    · exact Nat.le_refl _
    · exact (List.pairwise_cons.mp (List.pairwise_append.mp hsorted).2.1).1 k hk

/-- Where no name is written twice, a name has one writer. -/
lemma WrittenAt.unique (hnodup : (writtenNames nodes).Nodup) (hx : x ≠ "")
    (h : WrittenAt nodes x i) (h' : WrittenAt nodes x j) : i = j := by
  obtain ⟨-, hdisjoint⟩ := List.nodup_flatMap.mp hnodup
  have hordered : ∀ {i j}, WrittenAt nodes x i → WrittenAt nodes x j → ¬ i < j := by
    rintro i j ⟨n, hn, hwrites⟩ ⟨n', hn', hwrites'⟩ hlt
    obtain ⟨hi, rfl⟩ := List.getElem?_eq_some_iff.mp hn
    obtain ⟨hj, rfl⟩ := List.getElem?_eq_some_iff.mp hn'
    exact List.pairwise_iff_getElem.mp hdisjoint i j hi hj hlt (mem_namesOf.mpr ⟨hx, hwrites⟩)
      (mem_namesOf.mpr ⟨hx, hwrites'⟩)
  exact Nat.le_antisymm (Nat.not_lt.mp (hordered h' h)) (Nat.not_lt.mp (hordered h h'))

/-- Where no name is written twice, the order is executable exactly if the check accepts it and no node
reads what it writes itself. Where the check fails, its error is that of a wrong order, and points at
the first reader of a name that a later node writes. -/
theorem executable_iff (hnodup : (writtenNames nodes).Nodup) :
    (Executable nodes ↔ checkOrder nodes = .ok () ∧ ∀ n ∈ nodes, ¬ n.ReadsOwn) ∧
      ∀ e, checkOrder nodes = .error e → ∃ x i j, e = .structural (.outOfOrder x j i) ∧
        e.code? = some "ETOPO_ORDER" ∧ (StructureError.outOfOrder x j i).nodeIndex? = some i ∧
          x ≠ "" ∧ ReadAt nodes x i ∧ (∀ k < i, ¬ ReadAt nodes x k) ∧ i < j ∧
            ∀ k, WrittenAt nodes x k ↔ k = j := by
  refine ⟨⟨fun hexec => ⟨checkOrder_eq_ok_iff.mpr fun x i j hahead => ?_, fun n hn hown => ?_⟩, ?_⟩,
    fun e he => ?_⟩
  · obtain ⟨k, hlt, hk⟩ := hexec x i hahead.named hahead.reads ⟨j, hahead.writes⟩
    have hij := hahead.lt
    obtain rfl := WrittenAt.unique hnodup hahead.named hk hahead.writes
    omega
  · obtain ⟨v, hv, hx, hwrites⟩ := hown
    obtain ⟨i, hi⟩ := List.getElem?_of_mem hn
    have hown : WrittenAt nodes v.name i := ⟨n, hi, hwrites⟩
    obtain ⟨k, hlt, hk⟩ := hexec v.name i hx ⟨n, hi, v, hv, rfl⟩ ⟨i, hown⟩
    exact Nat.ne_of_lt hlt (WrittenAt.unique hnodup hx hk hown)
  · rintro ⟨hcheck, hown⟩ x i hx hreads ⟨j, hwrites⟩
    rcases Nat.lt_trichotomy j i with hlt | rfl | hgt
    · exact ⟨j, hlt, hwrites⟩
    · obtain ⟨n, hn, v, hv, rfl⟩ := hreads
      obtain ⟨n', hn', hwrite⟩ := hwrites
      obtain rfl := Option.some.inj (hn.symm.trans hn')
      exact absurd ⟨v, hv, hx, hwrite⟩ (hown n (List.mem_of_getElem? hn))
    · exact absurd ⟨hx, hgt, hreads, hwrites⟩ (checkOrder_eq_ok_iff.mp hcheck x i j)
  · obtain ⟨x, j, i, hx, hwrites, hfind, rfl⟩ := checkOrder_eq_error_find he
    obtain ⟨-, hreads⟩ := mem_readers.mp (List.mem_of_find?_eq_some hfind)
    refine ⟨x, i, j, rfl, rfl, rfl, hx, hreads, fun k hlt hk => ?_, ?_, fun k => ?_⟩
    · have hle := le_of_find? (pairwise_readers hx) hfind (mem_readers.mpr ⟨hx, hk⟩)
      omega
    · simpa using List.find?_some hfind
    · exact ⟨fun hk => WrittenAt.unique hnodup hx hk hwrites, fun hk => hk ▸ hwrites⟩

/-- A Relu that reads the given names and writes the name `output`, and leaves out a second output. -/
def reluOf (operands : List String) (output : String) : Node where
  operator := .relu
  name := output
  inputs := operands.map Onnx.bareValue
  outputs := [output, ""].map Onnx.bareValue

/-- Three nodes, the first of which reads what the second writes. -/
def readsLater : List Node := [reluOf ["x", "b", ""] "a", reluOf ["x"] "b", reluOf ["a", "b"] "c"]

theorem executable_iff_readsLater :
    (writtenNames readsLater).Nodup ∧ ¬ Executable readsLater ∧ Executable readsLater.tail ∧
      ∃ e, checkOrder readsLater = .error e ∧ e.code? = some "ETOPO_ORDER" := by
  have hnodup : (writtenNames readsLater).Nodup := by decide
  have hcheck : checkOrder readsLater = .error (.structural (.outOfOrder "b" 1 0)) := by
    decide +kernel
  obtain ⟨hiff, herror⟩ := executable_iff hnodup
  obtain ⟨-, -, -, -, hcode, -⟩ := herror _ hcheck
  refine ⟨hnodup, fun hexec => ?_, ?_, _, hcheck, hcode⟩
  · rw [hcheck] at hiff
    cases (hiff.mp hexec).1
  · exact (executable_iff (by decide)).1.mpr ⟨by decide +kernel, by decide⟩

/-- A node that reads what it writes itself is accepted, and cannot be executed. -/
theorem not_executable_ownReader :
    (writtenNames [reluOf ["x"] "x"]).Nodup ∧ checkOrder [reluOf ["x"] "x"] = .ok () ∧
      ¬ Executable [reluOf ["x"] "x"] := by
  refine ⟨by decide, by decide +kernel, fun hexec => ?_⟩
  have hreads : ReadAt [reluOf ["x"] "x"] "x" 0 := ⟨_, rfl, Onnx.bareValue "x", by decide, rfl⟩
  have hwrites : WrittenAt [reluOf ["x"] "x"] "x" 0 := ⟨_, rfl, Onnx.bareValue "x", by decide, rfl⟩
  obtain ⟨j, hlt, -⟩ := hexec "x" 0 (by decide) hreads ⟨0, hwrites⟩
  exact Nat.not_lt_zero j hlt

end TensorGraph
