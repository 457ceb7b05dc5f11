import TensorGraph.Error
import TensorGraph.Proofs.Checked

/-!
# Computations that agree

Two checked computations agree if both succeed, with related results, or both fail, with errors of one
class and one code. Agreement goes through the steps of a computation (`Agree.bind`).
-/

namespace TensorGraph

/-- The classes of errors. Every fault is a class of its own. -/
inductive ErrorClass where
  | type
  | operator
  | typing
  | naming
  | structural
  | loading
  | fault (f : Fault)
deriving DecidableEq, Repr

namespace Error

/-- The class of an error. -/
def kind : Error → ErrorClass
  | unsupportedLayout _ | unsupportedElement _ => .type
  | unsupportedOperator _ => .operator
  | typing _ => .typing
  | naming _ => .naming
  | structural _ => .structural
  | loading _ => .loading
  | fault f => .fault f

/-- The errors are of one class and have one code. -/
def Alike (e e' : Error) : Prop := e.kind = e'.kind ∧ e.code? = e'.code?

lemma Alike.refl (e : Error) : e.Alike e := ⟨rfl, rfl⟩

lemma alike_naming (e e' : NamingError) : (Error.naming e).Alike (.naming e') := ⟨rfl, rfl⟩

lemma Alike.symm {e e' : Error} (h : e.Alike e') : e'.Alike e := ⟨h.1.symm, h.2.symm⟩

/-- An error that is like a naming error is one. -/
lemma Alike.naming {a : NamingError} {e : Error} (h : (Error.naming a).Alike e) :
    ∃ a', e = .naming a' := by
  cases e with
  | naming a' => exact ⟨a', rfl⟩
  | _ => simp [Alike, kind] at h

end Error

variable {α β γ δ : Type} {R S : α → β → Prop} {T : γ → δ → Prop} {x : Except Error α}
  {y : Except Error β}

/-- Both computations succeed, with related results, or both fail, with errors that are alike. -/
def Agree (R : α → β → Prop) : Except Error α → Except Error β → Prop
  | .ok a, .ok b => R a b
  | .error e, .error e' => e.Alike e'
  | _, _ => False

namespace Agree

lemma ok {a : α} {b : β} (h : R a b) : Agree R (.ok a) (.ok b) := h

lemma error {e e' : Error} (h : e.Alike e') : Agree R (.error e) (.error e') := h

lemma refl (x : Except Error α) : Agree (· = ·) x x := by
  cases x with
  | ok a => exact ok rfl
  | error e => exact error (.refl e)

lemma of_eq {x y : Except Error α} (h : x = y) : Agree (· = ·) x y := h ▸ refl x

lemma imp (h : Agree R x y) (hRS : ∀ a b, R a b → S a b) : Agree S x y := by
  cases x <;> cases y
  · exact h
  · exact h.elim
  · exact h.elim
  · exact hRS _ _ h

/-- The relation of the results may use that they are results. -/
lemma imp_ok (h : Agree R x y) (hRS : ∀ a b, x = .ok a → y = .ok b → R a b → S a b) :
    Agree S x y := by
  cases x <;> cases y
  · exact h
  · exact h.elim
  · exact h.elim
  · exact hRS _ _ rfl rfl h

/-- Agreement goes through a step: what follows may use what the step has led to. -/
lemma bind {f : α → Except Error γ} {f' : β → Except Error δ} (h : Agree R x y)
    (hf : ∀ a b, x = .ok a → y = .ok b → R a b → Agree T (f a) (f' b)) :
    Agree T (x >>= f) (y >>= f') := by
  cases x <;> cases y
  · exact h
  · exact h.elim
  · exact h.elim
  · exact hf _ _ rfl rfl h

lemma pure {a : α} {b : β} (h : R a b) : Agree R (Pure.pure a) (Pure.pure b) := h

lemma mapM {f : α → Except Error γ} {f' : β → Except Error δ} {as : List α} {bs : List β}
    (h : List.Forall₂ R as bs) (hf : ∀ a b, R a b → Agree T (f a) (f' b)) :
    Agree (List.Forall₂ T) (as.mapM f) (bs.mapM f') := by
  induction h with
  | nil => exact pure .nil
  | cons hab _ ih =>
    rw [List.mapM_cons, List.mapM_cons]
    refine (hf _ _ hab).bind fun c d _ _ hcd => ih.bind fun cs ds _ _ hcds => ?_
    exact pure (.cons hcd hcds)

lemma foldlM {f : γ → α → Except Error γ} {f' : δ → β → Except Error δ} {as : List α}
    {bs : List β} (h : List.Forall₂ R as bs)
    (hf : ∀ c d a b, T c d → R a b → Agree T (f c a) (f' d b)) {c : γ} {d : δ} (hcd : T c d) :
    Agree T (as.foldlM f c) (bs.foldlM f' d) := by
  induction h generalizing c d with
  | nil => exact pure hcd
  | cons hab _ ih =>
    rw [List.foldlM_cons, List.foldlM_cons]
    exact (hf _ _ _ _ hcd hab).bind fun c d _ _ hcd => ih hcd

lemma forM {f : α → Except Error Unit} {f' : β → Except Error Unit} {as : List α} {bs : List β}
    (h : List.Forall₂ R as bs) (hf : ∀ a b, R a b → Agree (· = ·) (f a) (f' b)) :
    Agree (· = ·) (as.forM f) (bs.forM f') := by
  induction h with
  | nil => exact pure rfl
  | cons hab _ ih => exact (hf _ _ hab).bind fun _ _ _ _ _ => ih

lemma eq_ok {a : α} (h : Agree R x y) (hx : x = .ok a) : ∃ b, y = .ok b ∧ R a b := by
  subst hx
  cases y with
  | error e => exact h.elim
  | ok b => exact ⟨b, rfl, h⟩

end Agree

end TensorGraph
