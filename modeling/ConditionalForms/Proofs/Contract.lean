import ConditionalForms.Proofs.Sequence

/-!
# What a computation comes to

A computation comes to something or ends at a fault.  A contract says at once what holds of the one
and of the other, and contracts of the parts of a computation make one of the whole.

**Definitions.**
* `Contract`: what a computation gives, if it does not fail, and how it fails otherwise.
* `FailsOnly`: a contract that leaves open what is given.

**Results.**
* `Contract.bind`: the contract of a sequence of two computations.
* `Contract.eq_ok_iff`, `Contract.eq_error_iff`: a contract that leaves nothing open is exact.
* `contract_mapM`, `contract_forall₂_mapM`, `contract_mapFrom`, `contract_collect`: the contracts
  of passes over lists.
-/

namespace ConditionalForms

variable {α β : Type} {P : Fault → Prop} {Q R : α → Prop} {S : β → Prop} {x : Except Fault α}

/-- A computation gives something that `Q` holds of, or fails with a fault that `P` holds of. -/
def Contract (P : Fault → Prop) (Q : α → Prop) : Except Fault α → Prop
  | .ok a => Q a
  | .error e => P e

/-- A computation fails only with faults that `P` holds of. -/
def FailsOnly (P : Fault → Prop) (x : Except Fault α) : Prop := Contract P (fun _ => True) x

namespace Contract

theorem pure {a : α} (h : Q a) : Contract P Q (Pure.pure a) := h

theorem bind {f : α → Except Fault β} (hx : Contract P Q x)
    (hf : ∀ a, Q a → Contract P S (f a)) : Contract P S (x >>= f) := by
  cases x with
  | error e => exact hx
  | ok a => exact hf a hx

theorem imp (hx : Contract P Q x) (h : ∀ a, Q a → R a) : Contract P R x := by
  cases x with
  | error e => exact hx
  | ok a => exact h a hx

theorem mono {P' : Fault → Prop} (hx : Contract P Q x) (h : ∀ e, P e → P' e) :
    Contract P' Q x := by
  cases x with
  | error e => exact h e hx
  | ok a => exact hx

theorem cases_eq (hx : Contract P Q x) : (∃ a, x = .ok a ∧ Q a) ∨ ∃ e, x = .error e ∧ P e := by
  cases x with
  | error e => exact Or.inr ⟨e, rfl, hx⟩
  | ok a => exact Or.inl ⟨a, rfl, hx⟩

theorem map {f : α → β} (hx : Contract P Q x) (hf : ∀ a, Q a → S (f a)) :
    Contract P S (f <$> x) := by
  cases x with
  | error e => exact hx
  | ok a => exact hf a hx

theorem of_map {f : α → β} (hx : Contract P S (f <$> x)) : Contract P (fun a => S (f a)) x := by
  cases x with
  | error e => exact hx
  | ok a => exact hx

theorem of_ok {a : α} (hx : Contract P Q x) (h : x = .ok a) : Q a := by
  rw [h] at hx
  exact hx

theorem of_error {e : Fault} (hx : Contract P Q x) (h : x = .error e) : P e := by
  rw [h] at hx
  exact hx

section Exact

variable (hx : Contract P Q x) (hsound : ∀ a, Q a → ∀ e, ¬ P e)
include hx hsound

/-- With nothing to fail with where something is given, the one thing that can be given is. -/
theorem eq_ok_iff (hunique : ∀ a b, Q a → Q b → a = b) {a : α} : x = .ok a ↔ Q a := by
  refine ⟨hx.of_ok, fun ha => ?_⟩
  cases x with
  | error e => exact absurd hx (hsound a ha e)
  | ok b => rw [hunique b a hx ha]

/-- With nothing to fail with where something is given, the one fault that there can be is met. -/
theorem eq_error_iff (hunique : ∀ e f, P e → P f → e = f) {e : Fault} : x = .error e ↔ P e := by
  refine ⟨hx.of_error, fun he => ?_⟩
  cases x with
  | error f => rw [hunique f e hx he]
  | ok a => exact absurd he (hsound a hx e)

end Exact

end Contract

namespace FailsOnly

theorem pure (a : α) : FailsOnly P (Pure.pure a) := trivial

theorem ok (a : α) : FailsOnly P (.ok a) := trivial

theorem bind {f : α → Except Fault β} (hx : FailsOnly P x) (hf : ∀ a, FailsOnly P (f a)) :
    FailsOnly P (x >>= f) :=
  Contract.bind hx fun a _ => hf a

theorem mono {P' : Fault → Prop} (hx : FailsOnly P x) (h : ∀ e, P e → P' e) : FailsOnly P' x :=
  Contract.mono hx h

/-- Whatever a computation gives, it is what it gives. -/
theorem contract (hx : FailsOnly P x) (h : ∀ a, x = .ok a → Q a) : Contract P Q x := by
  cases x with
  | error e => exact hx
  | ok a => exact h a rfl

end FailsOnly

theorem Contract.failsOnly (hx : Contract P Q x) : FailsOnly P x := hx.imp fun _ _ => trivial

theorem contract_mapM {g : α → Except Fault β} :
    ∀ {xs : List α}, (∀ x ∈ xs, Contract P S (g x)) →
      Contract P (fun ys => ∀ y ∈ ys, S y) (xs.mapM g)
  | [], _ => .pure (by simp)
  | x :: xs, h => by
      obtain ⟨hx, hxs⟩ := List.forall_mem_cons.mp h
      rw [List.mapM_cons]
      refine hx.bind fun y hy => (contract_mapM hxs).bind fun ys hys => ?_
      exact .pure (List.forall_mem_cons.mpr ⟨hy, hys⟩)

/-- What a pass gives stands beside the items, and it fails as it does for one of them. -/
theorem contract_forall₂_mapM {γ : Type} {P : γ → Fault → Prop} {R : γ → β → Prop}
    {g : γ → Except Fault β} :
    ∀ {xs : List γ}, (∀ x ∈ xs, Contract (P x) (R x) (g x)) →
      Contract (fun e => ∃ x ∈ xs, P x e) (List.Forall₂ R xs) (xs.mapM g)
  | [], _ => .pure .nil
  | x :: xs, h => by
      obtain ⟨hx, hxs⟩ := List.forall_mem_cons.mp h
      rw [List.mapM_cons]
      refine (hx.mono ?_).bind fun y hy =>
        ((contract_forall₂_mapM hxs).mono ?_).bind fun ys hys => .pure (.cons hy hys)
      · intro e he
        exact ⟨x, List.mem_cons_self, he⟩
      · rintro e ⟨z, hz, he⟩
        exact ⟨z, List.mem_cons_of_mem x hz, he⟩

theorem contract_mapFrom {g : Nat → α → Except Fault β} :
    ∀ {xs : List α} {start : Nat}, (∀ i, ∀ x ∈ xs, Contract P S (g i x)) →
      Contract P (fun ys => ∀ y ∈ ys, S y) (mapFrom g start xs)
  | [], _, _ => .pure (by simp)
  | x :: xs, start, h => by
      rw [mapFrom]
      refine (h start x List.mem_cons_self).bind fun y hy => ?_
      have hxs : Contract P (fun ys => ∀ y ∈ ys, S y) (mapFrom g (start + 1) xs) :=
        contract_mapFrom fun i z hz => h i z (List.mem_cons_of_mem x hz)
      refine hxs.bind fun ys hys => ?_
      exact .pure (List.forall_mem_cons.mpr ⟨hy, hys⟩)

theorem contract_collect {g : α → Except Fault (Option β)} :
    ∀ {xs : List α}, (∀ x ∈ xs, Contract P (fun y? => ∀ y ∈ y?, S y) (g x)) →
      Contract P (fun ys => ∀ y ∈ ys, S y) (collect g xs)
  | [], _ => .pure (by simp)
  | x :: xs, h => by
      obtain ⟨hx, hxs⟩ := List.forall_mem_cons.mp h
      rw [collect]
      refine hx.bind fun y? hy => (contract_collect hxs).bind fun ys hys => .pure ?_
      refine List.forall_mem_append.mpr ⟨?_, hys⟩
      intro y hmem
      exact hy y (by simpa using hmem)

end ConditionalForms
