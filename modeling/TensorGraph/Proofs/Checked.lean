import Mathlib.Data.List.Forall2
import Mathlib.Tactic.Lemma

/-!
# Checked computations

What the success of a checked computation says about its parts (`Except.bind_eq_ok`,
`Except.mapM_eq_ok`, `Except.foldlM_prefix`).
-/

namespace TensorGraph

section Lists

variable {α β γ : Type} {R : α → β → Prop} {as : List α} {bs : List β}

lemma forall₂_trans {S : β → γ → Prop} {T : α → γ → Prop} {cs : List γ}
    (trans : ∀ a b c, R a b → S b c → T a c) (h : List.Forall₂ R as bs)
    (h' : List.Forall₂ S bs cs) : List.Forall₂ T as cs := by
  induction h generalizing cs with
  | nil =>
    cases h'
    exact .nil
  | cons hab _ ih =>
    cases h' with
    | cons hbc hrest => exact .cons (trans _ _ _ hab hbc) (ih hrest)

lemma forall₂_getElem? (h : List.Forall₂ R as bs) {i : Nat} {b : β} (hb : bs[i]? = some b) :
    ∃ a, as[i]? = some a ∧ R a b := by
  induction h generalizing i with
  | nil => simp at hb
  | cons hab _ ih =>
    cases i with
    | zero =>
      obtain rfl := Option.some.inj hb
      exact ⟨_, rfl, hab⟩
    | succ i => exact ih (by simpa using hb)

lemma forall₂_exists_of_mem (h : List.Forall₂ R as bs) {a : α} (ha : a ∈ as) :
    ∃ b ∈ bs, R a b := by
  obtain ⟨i, hi⟩ := List.getElem?_of_mem ha
  obtain ⟨b, hb, hab⟩ := forall₂_getElem? h.flip hi
  exact ⟨b, List.mem_of_getElem? hb, hab⟩

lemma forall₂_pair {a b : α} (h : List.Forall₂ R [a, b] bs) :
    ∃ a' b', bs = [a', b'] ∧ R a a' ∧ R b b' := by
  obtain ⟨a', _, ha, hrest, rfl⟩ := List.forall₂_cons_left_iff.mp h
  obtain ⟨b', _, hb, hnil, rfl⟩ := List.forall₂_cons_left_iff.mp hrest
  obtain rfl := List.forall₂_nil_left_iff.mp hnil
  exact ⟨a', b', rfl, ha, hb⟩

lemma map_eq_map_of_forall₂ {f : α → γ} {g : β → γ} (h : List.Forall₂ R as bs)
    (hfg : ∀ a b, R a b → g b = f a) : bs.map g = as.map f := by
  induction h with
  | nil => rfl
  | cons hab _ ih => rw [List.map_cons, List.map_cons, hfg _ _ hab, ih]

lemma map_eq_of_forall₂ {g : β → α} (h : List.Forall₂ R as bs) (hg : ∀ a b, R a b → g b = a) :
    bs.map g = as := by
  have hmap : bs.map g = as.map id := map_eq_map_of_forall₂ h hg
  rw [hmap, List.map_id]

lemma forall₂_modify {f : α → α} {g : β → β} (h : List.Forall₂ R as bs) (i : Nat)
    (hfg : ∀ a b, as[i]? = some a → R a b → R (f a) (g b)) :
    List.Forall₂ R (as.modify i f) (bs.modify i g) := by
  induction h generalizing i with
  | nil => cases i <;> exact .nil
  | cons hab hrest ih =>
    cases i with
    | zero => exact .cons (hfg _ _ rfl hab) hrest
    | succ i => exact .cons hab (ih i fun a b ha => hfg a b (by simpa using ha))

lemma forall₂_filter {S : α → β → Prop} {p : α → Bool} {q : β → Bool}
    (h : List.Forall₂ (fun a b => p a = q b ∧ (p a = true → S a b)) as bs) :
    List.Forall₂ S (as.filter p) (bs.filter q) := by
  induction h with
  | nil => exact .nil
  | @cons a b as bs hab _ ih =>
    rw [List.filter_cons, List.filter_cons, ← hab.1]
    split
    · next ha => exact .cons (hab.2 ha) ih
    · exact ih

lemma getElem?_append_of_some {i : Nat} {a : α} {as' : List α} (h : as[i]? = some a) :
    (as ++ as')[i]? = some a :=
  (List.getElem?_append_left (List.getElem?_eq_some_iff.mp h).1).trans h

/-- What stands in a list with one element more stood there before, or is the new one. -/
lemma getElem?_concat_eq_some {i : Nat} {a b : α} :
    (as ++ [a])[i]? = some b ↔ as[i]? = some b ∨ i = as.length ∧ a = b := by
  rw [List.getElem?_append]
  split
  · next hi => simp [Nat.ne_of_lt hi]
  · next hi =>
    have hlast : i - as.length = 0 ↔ i = as.length := by omega
    simp [List.getElem?_eq_none (Nat.not_lt.mp hi), List.getElem?_singleton, hlast]

lemma split_of_getElem? {i : Nat} {a : α} (h : as[i]? = some a) :
    ∃ before after, as = before ++ a :: after ∧ before.length = i := by
  obtain ⟨hi, rfl⟩ := List.getElem?_eq_some_iff.mp h
  refine ⟨as.take i, as.drop (i + 1), ?_, by simp; omega⟩
  rw [← List.drop_eq_getElem_cons, List.take_append_drop]

/-- A list is read off place by place. -/
lemma map_getD_range [Inhabited α] (as : List α) :
    (List.range as.length).map (as.getD · default) = as := by
  refine List.ext_getElem (by simp) fun i hi hi' => ?_
  simp [List.getD_eq_getElem?_getD, List.getElem?_eq_getElem hi']

lemma forall₂_modify_self {R : α → α → Prop} {f : α → α} (hrefl : ∀ a, R a a)
    (hf : ∀ a, R a (f a)) (i : Nat) (as : List α) : List.Forall₂ R as (as.modify i f) := by
  induction as generalizing i with
  | nil => cases i <;> exact .nil
  | cons a as ih =>
    cases i with
    | zero => exact .cons (hf a) (List.forall₂_same.mpr fun a _ => hrefl a)
    | succ i => exact .cons (hrefl a) (ih i)

lemma forall₂_set {R : α → α → Prop} (hrefl : ∀ a, R a a) {i : Nat} {a b : α} (ha : as[i]? = some a)
    (hab : R a b) : List.Forall₂ R as (as.set i b) := by
  obtain ⟨before, after, rfl, rfl⟩ := split_of_getElem? ha
  rw [List.set_append_right _ _ (Nat.le_refl _), Nat.sub_self, List.set_cons_zero]
  exact List.rel_append (List.forall₂_same.mpr fun a _ => hrefl a)
    (.cons hab (List.forall₂_same.mpr fun a _ => hrefl a))

end Lists

namespace Except

variable {ε α β : Type}

lemma ok_bind (a : α) (f : α → Except ε β) : Except.ok a >>= f = f a := rfl

lemma bind_eq_ok {x : Except ε α} {f : α → Except ε β} {b : β} :
    x >>= f = .ok b ↔ ∃ a, x = .ok a ∧ f a = .ok b := by
  cases x <;> simp [bind, Except.bind]

lemma bind_eq_error {x : Except ε α} {f : α → Except ε β} {e : ε} :
    x >>= f = .error e ↔ x = .error e ∨ ∃ a, x = .ok a ∧ f a = .error e := by
  cases x <;> simp [bind, Except.bind]

lemma pure_eq_ok {a b : α} : (pure a : Except ε α) = .ok b ↔ a = b := by
  simp [pure, Except.pure]

lemma map_eq_ok {x : Except ε α} {f : α → β} {b : β} :
    x.map f = .ok b ↔ ∃ a, x = .ok a ∧ f a = b := by
  cases x <;> simp [Except.map]

lemma mapM_eq_ok {f : α → Except ε β} {as : List α} {bs : List β} (h : as.mapM f = .ok bs) :
    List.Forall₂ (fun a b => f a = .ok b) as bs := by
  induction as generalizing bs with
  | nil =>
    rw [List.mapM_nil, pure_eq_ok] at h
    exact h ▸ .nil
  | cons a as ih =>
    simp only [List.mapM_cons, bind_eq_ok, pure_eq_ok] at h
    obtain ⟨b, hb, bs', hbs, rfl⟩ := h
    exact .cons hb (ih hbs)

lemma exists_mapM_eq_ok {f : α → Except ε β} {as : List α} (h : ∀ a ∈ as, ∃ b, f a = .ok b) :
    ∃ bs, as.mapM f = .ok bs := by
  induction as with
  | nil => exact ⟨[], rfl⟩
  | cons a as ih =>
    obtain ⟨b, hb⟩ := h a (by simp)
    obtain ⟨bs, hbs⟩ := ih fun a ha => h a (by simp [ha])
    exact ⟨b :: bs, by rw [List.mapM_cons, hb, hbs]; rfl⟩

lemma mapM_eq_ok_map {f : α → Except ε β} {g : α → β} {as : List α}
    (h : ∀ a ∈ as, f a = .ok (g a)) : as.mapM f = .ok (as.map g) := by
  induction as with
  | nil => rfl
  | cons a as ih =>
    rw [List.mapM_cons, h a (by simp), ih fun b hb => h b (by simp [hb])]
    rfl

lemma forM_eq_ok {f : α → Except ε Unit} {as : List α} (h : as.forM f = .ok ()) :
    ∀ a ∈ as, f a = .ok () := by
  induction as with
  | nil => simp
  | cons a as ih =>
    rw [List.forM_eq_forM, List.forM_cons, bind_eq_ok] at h
    obtain ⟨⟨⟩, ha, h⟩ := h
    simpa [ha] using ih h

lemma forM_eq_error {f : α → Except ε Unit} {as : List α} {e : ε} (h : as.forM f = .error e) :
    ∃ a ∈ as, f a = .error e := by
  induction as with
  | nil => simp [pure, Except.pure] at h
  | cons a as ih =>
    rw [List.forM_eq_forM, List.forM_cons] at h
    cases ha : f a with
    | error e' =>
      obtain rfl : e' = e := by simpa [ha, bind, Except.bind] using h
      exact ⟨a, by simp, ha⟩
    | ok =>
      obtain ⟨b, hb, hf⟩ := ih (by simpa [ha, bind, Except.bind] using h)
      exact ⟨b, List.mem_cons_of_mem a hb, hf⟩

/-- A property of what has been folded so far and of the state, which every step keeps, holds at the
end of a fold. -/
lemma foldlM_prefix {f : β → α → Except ε β} (P : List α → β → Prop)
    (step : ∀ seen b b' a, f b a = .ok b' → P seen b → P (seen ++ [a]) b')
    {as seen : List α} {b c : β} (h : as.foldlM f b = .ok c) (hb : P seen b) :
    P (seen ++ as) c := by
  induction as generalizing b seen with
  | nil =>
    rw [List.foldlM_nil, pure_eq_ok] at h
    rw [List.append_nil]
    exact h ▸ hb
  | cons a as ih =>
    rw [List.foldlM_cons, bind_eq_ok] at h
    obtain ⟨b', hb', h⟩ := h
    have := ih h (step seen b b' a hb' hb)
    rwa [List.append_assoc] at this

/-- A property of the state that every step keeps holds at the end of a fold. -/
lemma foldlM_invariant {f : β → α → Except ε β} (P : β → Prop)
    (step : ∀ b a b', f b a = .ok b' → P b → P b') {as : List α} {b c : β}
    (h : as.foldlM f b = .ok c) (hb : P b) : P c := by
  induction as generalizing b with
  | nil =>
    rw [List.foldlM_nil, pure_eq_ok] at h
    exact h ▸ hb
  | cons a as ih =>
    rw [List.foldlM_cons, bind_eq_ok] at h
    obtain ⟨b', hb', h⟩ := h
    exact ih h (step b a b' hb' hb)

/-- What can be computed to hold of the result of a computation. -/
lemma exists_ok {x : Except ε α} {P : α → Prop} [DecidablePred P]
    (h : x.toOption.any (P ·) = true) : ∃ a, x = .ok a ∧ P a := by
  cases x with
  | error e => simp [Except.toOption] at h
  | ok a => exact ⟨a, rfl, by simpa [Except.toOption] using h⟩

end Except

end TensorGraph
