import TensorGraph.Proofs.Import.Messages
import TensorGraph.Proofs.Order

/-!
# Early reads

Where the order of a model's nodes is wrong, an import without a check beforehand fails, unless every
message that reads ahead of a writer does so unseen (`importGraph_of_outOfOrder`).
-/

namespace TensorGraph

open Onnx ModelMessage Registry

variable {m : ModelMessage} {s : ImportState} {p q : Passage} {ps : List Passage} {x : String}
  {a b i j k : Nat}

/-- Why an import with the passages `ps` does not see that the message at position `i` reads, as its
operand `k`, what the message at position `j` writes later. -/
inductive EarlyUnseen (m : ModelMessage) (ps : List Passage) (i k j : Nat) (x : String) : Prop where
  | array (mem : x ∈ m.initializerNames)
  | together {a : Nat} {p : Passage} (reader : Handles ps i a p) (writer : Handles ps j a p)
  | retired {l a : Nat} {p : Passage} (place : l = i ∨ l = j) (handles : Handles ps l a p)
      (retired : x ∈ p.retired)
  | reshaped {a : Nat} {p : Passage} (reader : Handles ps i a p) (place : k = 1)
      (reshaped : p.Reshaped)
  | input {b : Nat} {q : Passage} (mem : x ∈ m.inputNames) (writer : Handles ps j b q)
      (overwrites : q.Overwrites x)

/-- Whatever a message reads ahead of a writer, it reads unseen in an import that succeeds. -/
theorem Run.earlyUnseen (run : Run m ps [] s) (h : m.ReadsAhead i k j x) :
    EarlyUnseen m ps i k j x := by
  obtain ⟨raw, hraw, hread⟩ := h.reads
  obtain ⟨raw', hraw', hwrite⟩ := h.writes
  rw [← run.messages, List.append_nil] at hraw hraw'
  obtain ⟨a, p, hi⟩ := exists_handles (List.getElem?_eq_some_iff.mp hraw).1
  obtain ⟨b, q, hj⟩ := exists_handles (List.getElem?_eq_some_iff.mp hraw').1
  rcases Nat.eq_or_lt_of_le (hi.mono hj (Nat.le_of_lt h.lt)) with rfl | hab
  · obtain rfl : p = q := Option.some.inj (hi.passage.symm.trans hj.passage)
    exact .together hi hj
  by_cases hret : x ∈ q.retired
  · exact .retired (.inr rfl) hj hret
  obtain ⟨_, s₁, s₂, _, s₃, s₄, run₁, step₁, hg, run₃, step₃⟩ :=
    run.split_pair hi.passage hj.passage hab
  have hwritten := ModelMessage.mem_written.mpr ⟨h.named, raw', hj.mem hraw', hwrite⟩
  obtain ⟨hopen, hcases⟩ := step₃.writes run₃.sound hwritten hret
  rcases run₁.reads step₁ (hi.mem hraw) hread h.named with
    hc | ⟨l, hl⟩ | hmem | hret' | ⟨hk, hreshaped⟩
  · exact absurd (hc.grows hg) hopen
  · have hl' := (hg.outer (by simp)).mpr hl
    rcases hcases with hc | ⟨l', hl''⟩ | ⟨-, hover⟩
    · obtain ⟨l', hl''⟩ := hc.not_outer (((step₃.grows run₃.sound).outer (by simp)).mpr hl')
      simp at hl''
    · simp [hl'] at hl''
    · exact .input (run₃.mem_inputNames hl') hj hover
  · exact .array hmem
  · exact .retired (.inl rfl) hi hret'
  · exact .reshaped hi hk hreshaped

/-- Where the check of the order finds a message that reads ahead of a writer, the import without it
fails, unless every message that reads ahead does so unseen. -/
theorem importGraph_of_outOfOrder
    (h : m.checkOrder = .error (.structural (.outOfOrder x j i))) :
    (∃ e, m.importGraph false = .error e) ∨ ∃ ps s, Run m ps [] s ∧
      m.importGraph false = .ok (s.graph m.name) ∧ (∃ k, m.ReadsAhead i k j x) ∧
        ∀ i k j x, m.ReadsAhead i k j x → EarlyUnseen m ps i k j x := by
  cases hg : m.importGraph false with
  | error e => exact .inl ⟨e, rfl⟩
  | ok g =>
    right
    simp only [importGraph, Except.bind_eq_ok, Except.pure_eq_ok] at hg
    obtain ⟨s, hs, rfl⟩ := hg
    obtain ⟨ps, run⟩ := importState_eq_ok.mp hs
    obtain ⟨i', k, j', x', hahead, he⟩ := ModelMessage.checkOrder_eq_error (fun _ => run.attributes) h
    obtain ⟨rfl, rfl, rfl⟩ : x = x' ∧ j = j' ∧ i = i' := by simpa using he
    exact ⟨ps, s, run, rfl, ⟨k, hahead⟩, fun _ _ _ _ => run.earlyUnseen⟩

/-- A Relu that stands before the product whose result it reads, and that an Add follows. -/
def earlyRelu : ModelMessage where
  inputs := [{ name := "x", elementType := 7, dims := [.size 2, .size 3] }]
  outputs := [{ name := "y", elementType := 7, dims := [.size 2, .size 2] },
    { name := "z", elementType := 7, dims := [.size 2, .size 2] }]
  initializers := [
    { name := "w", dataType := 7, dims := [3, 2], int64s := [1, 2, 3, 4, 5, 6] },
    { name := "b", dataType := 7, dims := [2], int64s := [7, 8] }]
  nodes := [
    { operator := "Relu", inputs := ["p"], outputs := ["z"] },
    { operator := "MatMul", inputs := ["x", "w"], outputs := ["p"] },
    { operator := "Add", inputs := ["p", "b"], outputs := ["y"] }]

theorem importGraph_of_outOfOrder_earlyRelu :
    earlyRelu.checkOrder = .error (.structural (.outOfOrder "p" 1 0)) ∧
      ((∃ e, earlyRelu.importGraph false = .error e) ∨ ∃ ps s, Run earlyRelu ps [] s ∧
        earlyRelu.importGraph false = .ok (s.graph earlyRelu.name) ∧
          (∃ k, earlyRelu.ReadsAhead 0 k 1 "p") ∧
            ∀ i k j x, earlyRelu.ReadsAhead i k j x → EarlyUnseen earlyRelu ps i k j x) :=
  have hcheck : earlyRelu.checkOrder = .error (.structural (.outOfOrder "p" 1 0)) := by
    decide +kernel
  ⟨hcheck, importGraph_of_outOfOrder hcheck⟩

/-- The order is wrong, and the model is imported. -/
theorem earlyRelu_imported :
    earlyRelu.checkOrder = .error (.structural (.outOfOrder "p" 1 0)) ∧
      ∃ g, earlyRelu.importGraph false = .ok g ∧ g.nodes.length = 2 :=
  ⟨by decide +kernel, Except.exists_ok (by decide +kernel)⟩

end TensorGraph
