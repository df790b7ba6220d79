import ConditionalForms.Form.Normal
import ConditionalForms.Proofs.Form.Name
import Mathlib.Data.List.Nodup
import Mathlib.Data.List.Perm.Subperm
import Mathlib.Order.Bounds.Basic

/-!
# Free names

A name that is taken gets the least number from two on that makes it free.  Different numbers make
different names, so among more numbers than names are taken one is free, and the search always ends
with a free name.  The search itself knows no bound: it counts up as long as the name is taken.

**Definitions.**
* `Name.IsSlug`: a name that is not empty and made of the characters of slugs.
* `Name.StopsAt`: where counting up comes to a stop.
* `Name.IsFirstFree`: the stem if it is free, and otherwise the stem with the least number that is.

**Results.**
* `Name.numbered_injective`: different numbers make different names.
* `Name.firstFree_not_mem`: the name that is found is free.
* `Name.IsSlug.firstFree`: a free name for a slug is a slug.
* `Name.StopsAt.isLeast`: counting up stops at the least number that is free.
* `Name.exists_stopsAt`: it does so within as many steps as the search takes.
* `Name.firstFree_eq_iff`: the name that is found is the first free one.
-/

namespace ConditionalForms
namespace Name

/-- The name is not empty and made of the characters of slugs. -/
def IsSlug (name : String) : Prop := name ≠ "" ∧ ∀ c ∈ name.toList, isSlugChar c = true

variable {stem : String} {taken : List String}

theorem numbered_injective (stem : String) : Function.Injective (numbered stem) := by
  intro m n h
  have hlists := congrArg String.toList h
  simp only [numbered, String.toList_append, String.toList_ofList, List.append_assoc,
    List.append_cancel_left_eq] at hlists
  have hread := congrArg (fun ds => Nat.ofDigitChars 10 ds 0) hlists
  simpa only [Nat.ofDigitChars_ten_toDigits] using hread

/-- A search that ends at a taken name found all numbers taken that it looked at. -/
theorem numbered_mem_of_freeFrom_mem {fuel n : Nat} (h : freeFrom stem taken fuel n ∈ taken) :
    ∀ k, k ≤ fuel → numbered stem (n + k) ∈ taken := by
  induction fuel generalizing n with
  | zero =>
      intro k hk
      obtain rfl : k = 0 := by omega
      exact h
  | succ fuel ih =>
      rw [freeFrom] at h
      split at h
      · rename_i hfirst
        intro k hk
        cases k with
        | zero => simpa using hfirst
        | succ k =>
            have hrest := ih h k (by omega)
            rwa [show n + (k + 1) = n + 1 + k by omega]
      · rename_i hfirst
        simp [h] at hfirst

/-- Names with different numbers are different, so no more of them are taken than names are. -/
theorem le_length_of_numbered_mem {n m : Nat} (h : ∀ k, k < m → numbered stem (n + k) ∈ taken) :
    m ≤ taken.length := by
  let names := (List.range m).map fun k => numbered stem (n + k)
  have hdistinct : names.Nodup := by
    refine List.nodup_range.map fun a b hab => ?_
    have := numbered_injective stem hab
    omega
  have htaken : names ⊆ taken := by
    intro name hname
    obtain ⟨k, hk, rfl⟩ := List.mem_map.mp hname
    exact h k (List.mem_range.mp hk)
  have hlength := (hdistinct.subperm htaken).length_le
  simpa only [names, List.length_map, List.length_range] using hlength

theorem freeFrom_not_mem (stem : String) (taken : List String) (n : Nat) :
    freeFrom stem taken taken.length n ∉ taken := by
  intro h
  have hlength : taken.length + 1 ≤ taken.length :=
    le_length_of_numbered_mem fun k hk => numbered_mem_of_freeFrom_mem h k (by omega)
  omega

/-- The name that is found is free. -/
theorem firstFree_not_mem (stem : String) (taken : List String) :
    firstFree stem taken ∉ taken := by
  unfold firstFree
  split
  · exact freeFrom_not_mem stem taken 2
  · rename_i hfree
    simpa using hfree

theorem IsSlug.numbered (h : IsSlug stem) (n : Nat) : IsSlug (numbered stem n) := by
  constructor
  · simp [Name.numbered]
  · intro c hc
    simp only [Name.numbered, String.toList_append, List.mem_append, String.toList_ofList] at hc
    rcases hc with (hc | hc) | hc
    · exact h.2 c hc
    · obtain rfl : c = '-' := by simpa using hc
      decide
    · exact isSlugChar_of_isDigit (Nat.isDigit_of_mem_toDigits (by decide) (by decide) hc)

theorem IsSlug.freeFrom (h : IsSlug stem) (taken : List String) (fuel n : Nat) :
    IsSlug (freeFrom stem taken fuel n) := by
  induction fuel generalizing n with
  | zero => exact h.numbered n
  | succ fuel ih =>
      rw [Name.freeFrom]
      split
      · exact ih (n + 1)
      · exact h.numbered n

theorem IsSlug.firstFree (h : IsSlug stem) (taken : List String) :
    IsSlug (firstFree stem taken) := by
  unfold Name.firstFree
  split
  · exact h.freeFrom taken _ 2
  · exact h

theorem isSlug_slug {label : String} (h : slug label ≠ "") : IsSlug (slug label) :=
  ⟨h, fun _ hc => isSlugChar_of_mem_slug hc⟩

theorem isSlug_placeholder (n : Int) : IsSlug (placeholder n) :=
  ⟨placeholder_ne_empty n, fun _ hc => isSlugChar_of_mem_placeholder hc⟩

/-- The name that a label gives, or else a number, is a slug. -/
theorem isSlug_orElse (label : String) (n : Int) :
    IsSlug (orElseText (slug label) (placeholder n)) := by
  unfold orElseText
  split
  · exact isSlug_placeholder n
  · rename_i hslug
    exact isSlug_slug hslug

theorem IsSlug.trim_eq {name : String} (h : IsSlug name) : Text.trim name = name :=
  Text.trim_eq_self fun c hc => isBlank_of_isSlugChar (h.2 c hc)

/-! ### Counting up -/

/-- Counting up from a number as long as the stem with this number is taken, one stops at a number
that is free. -/
inductive StopsAt (stem : String) (taken : List String) : Nat → Nat → Prop where
  | stop {n : Nat} (free : numbered stem n ∉ taken) : StopsAt stem taken n n
  | count {n k : Nat} (used : numbered stem n ∈ taken) (later : StopsAt stem taken (n + 1) k) :
      StopsAt stem taken n k

/-- The name is not taken.  It is the stem if that is free, and otherwise the stem with the least
number from two on with which it is free.  Counting up stops at this number, which is at most one
more than the number of taken names. -/
structure IsFirstFree (stem : String) (taken : List String) (name : String) : Prop where
  notMem : name ∉ taken
  eq_stem : stem ∉ taken → name = stem
  exists_numbered : stem ∈ taken → ∃ k, name = numbered stem k ∧ StopsAt stem taken 2 k ∧
    IsLeast {n | 2 ≤ n ∧ numbered stem n ∉ taken} k ∧ k ≤ taken.length + 1

theorem StopsAt.isLeast {n k : Nat} (h : StopsAt stem taken n k) :
    IsLeast {m | n ≤ m ∧ numbered stem m ∉ taken} k := by
  induction h with
  | stop free => exact ⟨⟨Nat.le_refl _, free⟩, fun m hm => hm.1⟩
  | @count n k used later ih =>
      obtain ⟨⟨hle, hfree⟩, hleast⟩ := ih
      refine ⟨⟨by omega, hfree⟩, ?_⟩
      rintro m ⟨hm, hfreeM⟩
      have hne : m ≠ n := by
        rintro rfl
        exact hfreeM used
      exact hleast ⟨by omega, hfreeM⟩

/-- A search that ends at a free name has counted up to its number. -/
theorem exists_stopsAt {fuel n : Nat} (h : freeFrom stem taken fuel n ∉ taken) :
    ∃ k, StopsAt stem taken n k ∧ freeFrom stem taken fuel n = numbered stem k := by
  induction fuel generalizing n with
  | zero => exact ⟨n, .stop h, rfl⟩
  | succ fuel ih =>
      rw [freeFrom] at h ⊢
      by_cases hused : numbered stem n ∈ taken
      · have hcontains : taken.contains (numbered stem n) = true := by simpa using hused
        rw [if_pos hcontains] at h ⊢
        obtain ⟨k, hstops, heq⟩ := ih h
        exact ⟨k, .count hused hstops, heq⟩
      · rw [if_neg (by simpa using hused)]
        exact ⟨n, .stop hused, rfl⟩

theorem numbered_ne_self (stem : String) (n : Nat) : numbered stem n ≠ stem := by
  intro h
  have hlength := congrArg String.length h
  simp only [numbered, String.length_append] at hlength
  have hdash : "-".length = 1 := rfl
  omega

/-- The numbers below the one at which counting up stops stand for taken names other than the
stem. -/
theorem StopsAt.le_length {k : Nat} (h : StopsAt stem taken 2 k) (hstem : stem ∈ taken) :
    k ≤ taken.length + 1 := by
  obtain ⟨⟨htwo, -⟩, hleast⟩ := h.isLeast
  have hused : ∀ j, j < k - 2 → numbered stem (2 + j) ∈ taken.erase stem := by
    intro j hj
    refine (List.mem_erase_of_ne (numbered_ne_self stem _)).mpr ?_
    by_contra hfree
    have := hleast ⟨by omega, hfree⟩
    omega
  have hcount := le_length_of_numbered_mem hused
  have hpos := List.length_pos_of_mem hstem
  rw [List.length_erase_of_mem hstem] at hcount
  omega

theorem isFirstFree_firstFree (stem : String) (taken : List String) :
    IsFirstFree stem taken (firstFree stem taken) := by
  refine ⟨firstFree_not_mem stem taken, fun hfree => ?_, fun hused => ?_⟩
  · rw [firstFree, if_neg (by simpa using hfree)]
  · obtain ⟨k, hstops, heq⟩ := exists_stopsAt (freeFrom_not_mem stem taken 2)
    rw [firstFree, if_pos (by simpa using hused)]
    exact ⟨k, heq, hstops, hstops.isLeast, hstops.le_length hused⟩

theorem IsFirstFree.unique {name other : String} (h : IsFirstFree stem taken name)
    (hother : IsFirstFree stem taken other) : name = other := by
  by_cases hstem : stem ∈ taken
  · obtain ⟨k, rfl, -, hleast, -⟩ := h.exists_numbered hstem
    obtain ⟨j, rfl, -, hleast', -⟩ := hother.exists_numbered hstem
    rw [hleast.unique hleast']
  · exact (h.eq_stem hstem).trans (hother.eq_stem hstem).symm

/-- The name that is found is the first free one, and there is no other. -/
theorem firstFree_eq_iff (stem : String) (taken : List String) (name : String) :
    firstFree stem taken = name ↔ IsFirstFree stem taken name := by
  constructor
  · rintro rfl
    exact isFirstFree_firstFree stem taken
  · intro h
    exact (isFirstFree_firstFree stem taken).unique h

example : firstFree "age" ["age-2", "age", "age-4"] = "age-3" := by decide +kernel

end Name
end ConditionalForms
