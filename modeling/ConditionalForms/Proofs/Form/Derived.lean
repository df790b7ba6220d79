import ConditionalForms.Proofs.Form.FreeName
import ConditionalForms.Proofs.Number.Numeral

/-!
# Names that look derived

A form does not keep where the name of a field comes from.  Whether it was derived from the label
of the field is read off the name: placeholders look derived from every label, and so does a name
that is the slug of the label, with or without a number.  This recognizes every name that is derived
from a label, but for one: a placeholder that was taken gets a second number, and then it is no
placeholder any more.

**Definitions.**
* `Name.HasNumber`: a stem with a number behind a dash.
* `Name.LooksDerived`: a name as it could have been derived from a label.
* `Name.IsNumberedTwice`: a label gives a placeholder that is taken.

**Results.**
* `Name.isDerived_iff`: slugs are taken for derived exactly if they look so.
* `Name.looksDerived_firstFree_iff`: which names that a label gives look derived from it.
* `Name.slug_trim`: blanks at the ends of a label do not count.
-/

namespace ConditionalForms
namespace Name

/-- The name is a stem with a number behind a dash, in digits of any script. -/
def HasNumber (stem name : String) : Prop :=
  ∃ digits : List Char, isNumber digits = true ∧ name = stem ++ "-" ++ String.ofList digits

theorem after?_eq_some_iff {bs cs rest : List Char} :
    after? bs cs = some rest ↔ cs = bs ++ rest := by
  induction bs generalizing cs with
  | nil => simp [after?]
  | cons b bs ih => cases cs with
    | nil => simp [after?]
    | cons c cs =>
        by_cases hbc : b = c
        · simp [after?, hbc, ih]
        · simp [after?, hbc, Ne.symm hbc]

theorem isNumbered_iff {stem name : String} :
    isNumbered stem name = true ↔ HasNumber stem name := by
  unfold isNumbered
  constructor
  · intro h
    split at h
    · rename_i rest hrest
      refine ⟨rest, h, String.toList_inj.mp ?_⟩
      rw [after?_eq_some_iff.mp hrest]
      simp
    · cases h
  · rintro ⟨digits, hdigits, rfl⟩
    have hafter : after? (stem ++ "-").toList (stem ++ "-" ++ String.ofList digits).toList =
        some digits := by
      rw [after?_eq_some_iff, String.toList_append, String.toList_ofList]
    rw [hafter]
    exact hdigits

instance (stem name : String) : Decidable (HasNumber stem name) :=
  decidable_of_iff _ isNumbered_iff

/-- The name is as it could have been derived from the label: a placeholder, or the slug of the
label, with or without a number. -/
def LooksDerived (name label : String) : Prop :=
  HasNumber placeholderStem name ∨
    slug label ≠ "" ∧ (name = slug label ∨ HasNumber (slug label) name)

instance (name label : String) : Decidable (LooksDerived name label) :=
  inferInstanceAs (Decidable (_ ∨ _ ∧ (_ ∨ _)))

section Slugs

variable {name label : String}

theorem IsSlug.isAllBlank_eq (h : IsSlug name) : Text.isAllBlank name = false := by
  obtain ⟨c, hc⟩ := List.exists_mem_of_ne_nil name.toList (by simpa using h.1)
  rw [Text.isAllBlank, List.all_eq_false]
  exact ⟨c, hc, by simp [isBlank_of_isSlugChar (h.2 c hc)]⟩

theorem IsSlug.dropLineEnd_eq (h : IsSlug name) : dropLineEnd name = name := by
  unfold dropLineEnd
  split
  · rename_i hlast
    have hfeed := h.2 '\n' (List.mem_of_getLast? hlast)
    exact absurd hfeed (by decide)
  · rfl

/-- A slug is taken for derived from a label exactly if it looks so. -/
theorem isDerived_iff (h : IsSlug name) :
    isDerived name label = true ↔ LooksDerived name label := by
  unfold isDerived
  rw [h.isAllBlank_eq, if_neg (by simp), isPlaceholder, h.dropLineEnd_eq]
  by_cases hplaceholder : isNumbered placeholderStem name = true
  · rw [if_pos hplaceholder]
    exact iff_of_true rfl (Or.inl (isNumbered_iff.mp hplaceholder))
  · rw [if_neg hplaceholder]
    simp only [LooksDerived, ← isNumbered_iff, hplaceholder, Bool.false_eq_true, false_or,
      Bool.and_eq_true, decide_eq_true_eq, Bool.or_eq_true]

end Slugs

section FirstFree

variable (stem : String) (taken : List String)

theorem isNumber_toDigits (n : Nat) : isNumber (Nat.toDigits 10 n) = true := by
  have hdecimal : (Nat.toDigits 10 n).all Text.isDecimal = true := by
    rw [List.all_eq_true]
    intro c hc
    rw [Text.isDecimal, Text.decimalValue?_of_isDigit (Text.isDigit_of_mem_toDigits hc)]
    rfl
  rw [isNumber, hdecimal, Bool.and_true, Bool.not_eq_true', List.isEmpty_eq_false_iff]
  exact Nat.toDigits_ne_nil

theorem hasNumber_numbered (n : Nat) : HasNumber stem (numbered stem n) :=
  ⟨Nat.toDigits 10 n, isNumber_toDigits n, rfl⟩

/-- A stem that is taken gets a number. -/
theorem exists_numbered_of_mem (h : stem ∈ taken) :
    ∃ k, firstFree stem taken = numbered stem k := by
  obtain ⟨k, hname, -⟩ := (isFirstFree_firstFree stem taken).exists_numbered h
  exact ⟨k, hname⟩

theorem firstFree_of_notMem (h : stem ∉ taken) : firstFree stem taken = stem :=
  (isFirstFree_firstFree stem taken).eq_stem h

end FirstFree

theorem hasNumber_placeholder (n : Nat) : HasNumber placeholderStem (placeholder n) :=
  ⟨Nat.toDigits 10 n, isNumber_toDigits n, by rw [placeholder, ← Integer.toList_decimalText,
    String.ofList_toList]⟩

/-- A placeholder with a second number is no placeholder: there is a dash among its digits. -/
theorem not_hasNumber_numbered_placeholder (n k : Nat) :
    ¬ HasNumber placeholderStem (numbered (placeholder n) k) := by
  rintro ⟨digits, hdigits, heq⟩
  have hlists := congrArg String.toList heq
  simp only [numbered, placeholder, String.toList_append, String.toList_ofList, List.append_assoc,
    List.append_cancel_left_eq] at hlists
  have hdash : '-' ∈ digits := by
    rw [← hlists]
    simp
  simp only [isNumber, Bool.and_eq_true, List.all_eq_true] at hdigits
  exact absurd (hdigits.2 '-' hdash) (by decide)

/-- The label has no slug, and the placeholder of a number, which stands for it, is taken. -/
def IsNumberedTwice (label : String) (n : Nat) (taken : List String) : Prop :=
  slug label = "" ∧ placeholder n ∈ taken

instance (label : String) (n : Nat) (taken : List String) :
    Decidable (IsNumberedTwice label n taken) :=
  inferInstanceAs (Decidable (_ ∧ _))

/-- The name that a label gives looks derived from it, unless it is a placeholder with a second
number. -/
theorem looksDerived_firstFree_iff (label : String) (n : Nat) (taken : List String) :
    LooksDerived (firstFree (orElseText (slug label) (placeholder n)) taken) label ↔
      ¬ IsNumberedTwice label n taken := by
  by_cases hslug : slug label = ""
  · rw [orElseText, if_pos hslug]
    by_cases htaken : placeholder n ∈ taken
    · obtain ⟨k, hk⟩ := exists_numbered_of_mem _ _ htaken
      rw [hk]
      refine iff_of_false ?_ (not_not.mpr ⟨hslug, htaken⟩)
      rintro (hnumber | ⟨hne, -⟩)
      · exact not_hasNumber_numbered_placeholder n k hnumber
      · exact hne hslug
    · rw [firstFree_of_notMem _ _ htaken]
      exact iff_of_true (Or.inl (hasNumber_placeholder n)) fun h => htaken h.2
  · rw [orElseText, if_neg hslug]
    refine iff_of_true (Or.inr ⟨hslug, ?_⟩) fun h => hslug h.1
    by_cases htaken : slug label ∈ taken
    · obtain ⟨k, hk⟩ := exists_numbered_of_mem _ _ htaken
      rw [hk]
      exact Or.inr (hasNumber_numbered _ k)
    · exact Or.inl (firstFree_of_notMem _ _ htaken)

/-! ### Blanks around a label -/

section Blanks

theorem isBlank_toLower (c : Char) : Text.isBlank c.toLower = Text.isBlank c := by
  rcases toLower_cases c with hsame | ⟨hlow, hhigh, hcode⟩
  · rw [hsame]
  · rw [isBlank_of_toNat (c := c) (by omega) (by omega)]
    exact isBlank_of_toNat (by omega) (by omega)

/-- Lower case keeps blanks apart from other characters. -/
theorem isBlank_of_mem_lower {c d : Char} (h : d ∈ lower c) : Text.isBlank d = Text.isBlank c := by
  unfold lower at h
  split at h
  · rename_i hc
    subst hc
    rcases List.mem_pair.mp h with rfl | rfl <;> decide
  · split at h
    · rename_i hc
      subst hc
      rw [List.mem_singleton.mp h]
      decide
    · rw [List.mem_singleton.mp h]
      exact isBlank_toLower c

theorem lower_ne_nil (c : Char) : lower c ≠ [] := by
  unfold lower
  split
  · simp
  · split <;> simp

variable {p : Char → Bool} {g : Char → List Char} (hp : ∀ c, ∀ d ∈ g c, p d = p c)

include hp

theorem dropEndWhile_part (c : Char) :
    Text.dropEndWhile p (g c) = if p c then [] else g c := by
  cases hc : p c with
  | true =>
      have hall : ∀ cs : List Char, (∀ d ∈ cs, p d = true) → Text.dropEndWhile p cs = [] := by
        intro cs hcs
        induction cs with
        | nil => rfl
        | cons d cs ih =>
            obtain ⟨hd, hcs⟩ := List.forall_mem_cons.mp hcs
            rw [Text.dropEndWhile, ih hcs]
            exact if_pos hd
      exact hall _ fun d hd => (hp c d hd).trans hc
  | false => exact Text.dropEndWhile_eq_self fun d hd => (hp c d hd).trans hc

variable (hne : ∀ c, g c ≠ [])

include hne

theorem dropWhile_flatMap (cs : List Char) :
    (cs.flatMap g).dropWhile p = (cs.dropWhile p).flatMap g := by
  induction cs with
  | nil => rfl
  | cons c cs ih =>
      rw [List.flatMap_cons]
      cases hc : p c with
      | true =>
          rw [List.dropWhile_append_of_pos fun d hd => (hp c d hd).trans hc, ih,
            List.dropWhile_cons_of_pos hc]
      | false =>
          obtain ⟨d, rest, hrest⟩ := List.exists_cons_of_ne_nil (hne c)
          have hd : p d = false := (hp c d (by simp [hrest])).trans hc
          rw [List.dropWhile_cons_of_neg (by simp [hc]), List.flatMap_cons, hrest,
            List.cons_append, List.dropWhile_cons_of_neg (by simp [hd])]

theorem dropEndWhile_flatMap (cs : List Char) :
    Text.dropEndWhile p (cs.flatMap g) = (Text.dropEndWhile p cs).flatMap g := by
  induction cs with
  | nil => rfl
  | cons c cs ih =>
      rw [List.flatMap_cons, Text.dropEndWhile_append, ih, dropEndWhile_part hp, Text.dropEndWhile]
      cases hrest : Text.dropEndWhile p cs with
      | nil => cases p c <;> simp
      | cons d rest => simp [hne d]

/-- Trimming commutes with a translation of characters that keeps blanks apart from the others. -/
theorem trimList_flatMap (cs : List Char) :
    Text.trimList p (cs.flatMap g) = (Text.trimList p cs).flatMap g := by
  rw [Text.trimList, dropWhile_flatMap hp hne, dropEndWhile_flatMap hp hne, Text.trimList]

end Blanks

/-- Blanks at the ends of a label do not count. -/
theorem slug_trim (label : String) : slug (Text.trim label) = slug label := by
  have hlower := trimList_flatMap (fun c d hd => isBlank_of_mem_lower hd) lower_ne_nil
  have hletters : Text.trimList Text.isBlank ((Text.trim label).toList.flatMap lower) =
      Text.trimList Text.isBlank (label.toList.flatMap lower) := by
    rw [hlower, hlower, Text.trim, String.toList_ofList, Text.trimList_idem]
  rw [slug, hletters, slug]

end Name
end ConditionalForms
