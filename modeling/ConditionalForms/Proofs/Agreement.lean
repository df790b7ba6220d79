import ConditionalForms.Proofs.Sequence

/-!
# Agreement of computations that may fail

Two computations agree if they give related results or end at the same fault.  Passes over lists
whose items are related agree if they do the same with related items.

**Definitions.**
* `Agree`: related results or the same fault.

**Results.**
* `Agree.bind`, `Agree.mapM`, `Agree.keep`: agreement passes through the ways of computing.
* `Agree.map_eq`: what related results have in common is the same.
-/

namespace ConditionalForms

variable {α β γ δ : Type}

/-- The two computations give related results, or the same fault. -/
inductive Agree (R : α → β → Prop) : Except Fault α → Except Fault β → Prop where
  | ok {a : α} {b : β} (h : R a b) : Agree R (.ok a) (.ok b)
  | error (e : Fault) : Agree R (.error e) (.error e)

namespace Agree

variable {R : α → β → Prop} {S : γ → δ → Prop} {x : Except Fault α} {y : Except Fault β}

theorem of_eq {x y : Except Fault α} (h : x = y) : Agree Eq x y := by
  subst h
  cases x with
  | error e => exact .error e
  | ok a => exact .ok rfl

theorem eq {x y : Except Fault α} (h : Agree Eq x y) : x = y := by
  cases h with
  | ok hab => rw [hab]
  | error e => rfl

theorem imp {T : α → β → Prop} (h : Agree R x y) (hT : ∀ a b, R a b → T a b) : Agree T x y := by
  cases h with
  | ok hab => exact .ok (hT _ _ hab)
  | error e => exact .error e

theorem ite {c : Prop} [Decidable c] {x' : Except Fault α} {y' : Except Fault β}
    (h : Agree R x y) (h' : Agree R x' y') :
    Agree R (if c then x else x') (if c then y else y') := by
  split
  · exact h
  · exact h'

theorem bind {f : α → Except Fault γ} {g : β → Except Fault δ} (h : Agree R x y)
    (hf : ∀ a b, R a b → Agree S (f a) (g b)) : Agree S (x >>= f) (y >>= g) := by
  cases h with
  | ok hab => exact hf _ _ hab
  | error e => exact .error e

/-- The same computation goes on in two ways that agree. -/
theorem bind_same {x : Except Fault α} {f : α → Except Fault γ} {g : α → Except Fault δ}
    (hf : ∀ a, Agree S (f a) (g a)) : Agree S (x >>= f) (x >>= g) := by
  refine (of_eq rfl).bind ?_
  rintro a _ rfl
  exact hf a

theorem trans {ε : Type} {T : β → ε → Prop} {U : α → ε → Prop} {z : Except Fault ε}
    (h : Agree R x y) (hz : Agree T y z) (hU : ∀ a b c, R a b → T b c → U a c) : Agree U x z := by
  cases h with
  | ok hab => cases hz with
    | ok hbc => exact .ok (hU _ _ _ hab hbc)
  | error e => cases hz with
    | error _ => exact .error e

theorem map_eq {f : α → γ} {g : β → γ} (h : Agree R x y) (hf : ∀ a b, R a b → f a = g b) :
    f <$> x = g <$> y := by
  cases h with
  | ok hab => exact congrArg Except.ok (hf _ _ hab)
  | error e => rfl

theorem mapM {f : α → Except Fault γ} {g : β → Except Fault δ} {xs : List α} {ys : List β}
    (h : List.Forall₂ R xs ys) (hf : ∀ a b, R a b → Agree S (f a) (g b)) :
    Agree (List.Forall₂ S) (xs.mapM f) (ys.mapM g) := by
  induction h with
  | nil => exact .ok .nil
  | cons hab _ ih =>
      rw [List.mapM_cons, List.mapM_cons]
      refine (hf _ _ hab).bind fun c d hcd => ih.bind fun cs ds hall => ?_
      exact .ok (.cons hcd hall)

theorem keep {test : α → Except Fault Bool} {other : β → Except Fault Bool} {xs : List α}
    {ys : List β} (h : List.Forall₂ R xs ys) (htest : ∀ a b, R a b → test a = other b) :
    Agree (List.Forall₂ R) (ConditionalForms.keep test xs) (ConditionalForms.keep other ys) := by
  induction h with
  | nil => exact .ok .nil
  | cons hab _ ih =>
      rw [ConditionalForms.keep, ConditionalForms.keep, htest _ _ hab]
      refine bind_same fun passes => ih.bind fun cs ds hall => ?_
      cases passes with
      | true => exact .ok (.cons hab hall)
      | false => exact .ok hall

end Agree

theorem anyOf_congr {R : α → β → Prop} {test : α → Except Fault Bool}
    {other : β → Except Fault Bool} {xs : List α} {ys : List β} (h : List.Forall₂ R xs ys)
    (htest : ∀ a b, R a b → test a = other b) : anyOf test xs = anyOf other ys := by
  induction h with
  | nil => rfl
  | cons hab _ ih => rw [anyOf, anyOf, htest _ _ hab, ih]

end ConditionalForms
