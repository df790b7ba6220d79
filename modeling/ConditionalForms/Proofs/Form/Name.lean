import ConditionalForms.Form.Name

/-!
# Names without blanks

A text is its own trimmed form if it holds no blank.  The names that are derived for fields, slugs
and placeholders, are made of the characters of slugs, none of which is blank.

**Results.**
* `Text.trim_eq_self`: a text without blanks is trimmed.
* `Name.trim_slug`, `Name.trim_placeholder`: derived names are trimmed.
-/

namespace ConditionalForms

namespace Text

theorem dropEndWhile_eq_self {p : Char → Bool} :
    ∀ {cs : List Char}, (∀ c ∈ cs, p c = false) → dropEndWhile p cs = cs
  | [], _ => rfl
  | c :: cs, h => by
      have ih : dropEndWhile p cs = cs :=
        dropEndWhile_eq_self fun d hd => h d (List.mem_cons_of_mem _ hd)
      have hc : p c = false := h c List.mem_cons_self
      rw [dropEndWhile, ih]
      cases cs with
      | nil => simp [hc]
      | cons d ds => rfl

theorem trimList_eq_self {cs : List Char} (h : ∀ c ∈ cs, isBlank c = false) :
    trimList isBlank cs = cs := by
  have hfront : cs.dropWhile isBlank = cs := by
    cases cs with
    | nil => rfl
    | cons c cs =>
        have hc : isBlank c = false := h c List.mem_cons_self
        simp [hc]
  rw [trimList, hfront, dropEndWhile_eq_self h]

theorem trim_eq_self {s : String} (h : ∀ c ∈ s.toList, isBlank c = false) : trim s = s := by
  rw [trim, trimList_eq_self h, String.ofList_toList]

end Text

namespace Name

/-- From the dash to the last small letter of ASCII there is no blank. -/
theorem isBlank_of_toNat {c : Char} (hlow : 45 ≤ c.toNat) (hhigh : c.toNat ≤ 122) :
    Text.isBlank c = false := by
  simp only [Text.isBlank, Text.blankRanges, Ranges.contains, List.any_cons, List.any_nil,
    Bool.or_false, Bool.or_eq_false_iff, Bool.and_eq_false_iff, decide_eq_false_iff_not]
  omega

theorem isSlugChar_iff {c : Char} :
    isSlugChar c = true ↔ ('a' ≤ c ∧ c ≤ 'z') ∨ ('0' ≤ c ∧ c ≤ '9') ∨ c = '-' := by
  simp only [isSlugChar, Bool.or_eq_true, Bool.and_eq_true, decide_eq_true_eq, beq_iff_eq, or_assoc]
  exact Iff.rfl

theorem isBlank_of_isSlugChar {c : Char} (h : isSlugChar c = true) : Text.isBlank c = false := by
  have hcode : 45 ≤ c.toNat ∧ c.toNat ≤ 122 := by
    rcases isSlugChar_iff.mp h with ⟨hlow, hhigh⟩ | ⟨hlow, hhigh⟩ | rfl
    · exact ⟨Nat.le_trans (by decide) hlow, hhigh⟩
    · exact ⟨Nat.le_trans (by decide) hlow, Nat.le_trans hhigh (by decide)⟩
    · decide
  exact isBlank_of_toNat hcode.1 hcode.2

/-- Only the capital letters of ASCII, with the codes 65 to 90, have another lower case. -/
theorem toLower_cases (c : Char) :
    c.toLower = c ∨ 65 ≤ c.toNat ∧ c.toNat ≤ 90 ∧ c.toLower.toNat = c.toNat + 32 := by
  delta Char.toLower
  split
  · rename_i hcapital
    have hlow : 65 ≤ c.toNat := hcapital.1
    have hhigh : c.toNat ≤ 90 := hcapital.2
    have hcode : (c.val + ('a'.val - 'A'.val)).toNat = c.toNat + 32 := by
      rw [UInt32.toNat_add]
      exact Nat.mod_eq_of_lt (by simp; omega)
    exact Or.inr ⟨hlow, hhigh, hcode⟩
  · exact Or.inl rfl

theorem mem_singleDashes {c : Char} : ∀ {cs : List Char}, c ∈ singleDashes cs → c ∈ cs
  | [], h => by simp [singleDashes] at h
  | d :: ds, h => by
      rw [singleDashes] at h
      split at h
      · exact List.mem_cons_of_mem _ (mem_singleDashes h)
      · rcases List.mem_cons.mp h with rfl | h
        · exact List.mem_cons_self
        · exact List.mem_cons_of_mem _ (mem_singleDashes h)

theorem isSlugChar_of_mem_slugPart {c d : Char} (h : c ∈ slugPart d) : isSlugChar c = true := by
  unfold slugPart at h
  split at h
  · rw [List.mem_singleton.mp h]
    decide
  · split at h
    · rename_i hd
      rwa [List.mem_singleton.mp h]
    · simp at h

theorem isSlugChar_of_mem_slug {label : String} {c : Char} (h : c ∈ (slug label).toList) :
    isSlugChar c = true := by
  rw [slug, String.toList_ofList] at h
  obtain ⟨d, _, hc⟩ := List.mem_flatMap.mp (mem_singleDashes h)
  exact isSlugChar_of_mem_slugPart hc

theorem trim_slug (label : String) : Text.trim (slug label) = slug label :=
  Text.trim_eq_self fun _ hc => isBlank_of_isSlugChar (isSlugChar_of_mem_slug hc)

theorem isSlugChar_of_isDigit {c : Char} (h : c.isDigit = true) : isSlugChar c = true := by
  simp only [Char.isDigit, Bool.and_eq_true, decide_eq_true_eq] at h
  have hlow : '0'.toNat ≤ c.toNat := h.1
  have hhigh : c.toNat ≤ '9'.toNat := h.2
  simp only [isSlugChar, hlow, hhigh, decide_true, Bool.and_self, Bool.or_true, Bool.true_or]

theorem isSlugChar_of_mem_decimalText {n : Int} {c : Char}
    (h : c ∈ (Integer.decimalText n).toList) : isSlugChar c = true := by
  have digit : ∀ d ∈ Nat.toDigits 10 n.natAbs, isSlugChar d = true := fun d hd =>
    isSlugChar_of_isDigit (Nat.isDigit_of_mem_toDigits (by decide) (by decide) hd)
  simp only [Integer.decimalText, String.toList_ofList] at h
  split at h
  · rcases List.mem_cons.mp h with rfl | h
    · decide
    · exact digit c h
  · exact digit c h

theorem isSlugChar_of_mem_placeholder {n : Int} {c : Char} (h : c ∈ (placeholder n).toList) :
    isSlugChar c = true := by
  simp only [placeholder, String.toList_append, List.mem_append] at h
  rcases h with hc | hc
  · have stem : (placeholderStem ++ "-").toList.all isSlugChar = true := by decide +kernel
    exact List.all_eq_true.mp stem c (by simpa using hc)
  · exact isSlugChar_of_mem_decimalText hc

theorem trim_placeholder (n : Int) : Text.trim (placeholder n) = placeholder n :=
  Text.trim_eq_self fun _ hc => isBlank_of_isSlugChar (isSlugChar_of_mem_placeholder hc)

theorem placeholder_ne_empty (n : Int) : placeholder n ≠ "" := by
  simp [placeholder, placeholderStem]

end Name

end ConditionalForms
