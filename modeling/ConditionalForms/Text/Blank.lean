import ConditionalForms.Text.Ranges

/-!
# White space

The blank characters are those with the Unicode property White_Space together with the four
information separators U+001C to U+001F, 29 in all (Unicode 14).  `trim` drops them from both ends
of a text.

**Results.**
* `trim_idem`: trimming twice is trimming once.
* `trim_append`: a trimmed text is trimmed also behind a text that starts with no blank.
-/

namespace ConditionalForms
namespace Text

/-- The ranges of blank characters. -/
def blankRanges : Ranges :=
  [(0x09, 0x0D), (0x1C, 0x20), (0x85, 0x85), (0xA0, 0xA0), (0x1680, 0x1680), (0x2000, 0x200A),
   (0x2028, 0x2029), (0x202F, 0x202F), (0x205F, 0x205F), (0x3000, 0x3000)]

/-- A blank character. -/
def isBlank (c : Char) : Bool := blankRanges.contains c.toNat

/-- Drops the longest run of characters in `p` from the end. -/
def dropEndWhile (p : Char → Bool) : List Char → List Char
  | [] => []
  | c :: cs => match dropEndWhile p cs with
    | [] => if p c then [] else [c]
    | rest => c :: rest

/-- Drops the longest runs of characters in `p` from both ends. -/
def trimList (p : Char → Bool) (cs : List Char) : List Char :=
  dropEndWhile p (cs.dropWhile p)

/-- A text without the blanks at its ends. -/
def trim (s : String) : String := String.ofList (trimList isBlank s.toList)

/-- A text that holds nothing but blanks. -/
def isAllBlank (s : String) : Bool := s.toList.all isBlank

example : blankRanges.count = 29 := by decide

theorem dropEndWhile_idem (p : Char → Bool) (cs : List Char) :
    dropEndWhile p (dropEndWhile p cs) = dropEndWhile p cs := by
  induction cs with
  | nil => rfl
  | cons c cs ih =>
    cases h : dropEndWhile p cs with
    | nil =>
      by_cases hp : p c = true <;> simp [dropEndWhile, h, hp]
    | cons d ds =>
      have e : dropEndWhile p (c :: cs) = c :: d :: ds := by simp [dropEndWhile, h]
      rw [e]
      rw [h] at ih
      rw [show dropEndWhile p (c :: d :: ds) =
        (match dropEndWhile p (d :: ds) with
          | [] => if p c then [] else [c]
          | rest => c :: rest) from rfl, ih]

/-- A list whose first character is not in `p` keeps that first character. -/
theorem dropWhile_dropEndWhile (p : Char → Bool) (cs : List Char) (h : cs.dropWhile p = cs) :
    (dropEndWhile p cs).dropWhile p = dropEndWhile p cs := by
  cases cs with
  | nil => rfl
  | cons c cs =>
    have hc : p c = false := by
      cases hp : p c with
      | false => rfl
      | true =>
        rw [List.dropWhile_cons_of_pos hp] at h
        have shorter := (List.dropWhile_suffix (l := cs) p).length_le
        rw [h, List.length_cons] at shorter
        omega
    cases e : dropEndWhile p cs with
    | nil => simp [dropEndWhile, e, hc]
    | cons d ds => simp [dropEndWhile, e, hc]

theorem dropWhile_dropWhile (p : Char → Bool) (cs : List Char) :
    (cs.dropWhile p).dropWhile p = cs.dropWhile p := by
  induction cs with
  | nil => rfl
  | cons c cs ih => by_cases h : p c = true <;> simp_all

theorem trimList_idem (p : Char → Bool) (cs : List Char) :
    trimList p (trimList p cs) = trimList p cs := by
  unfold trimList
  rw [dropWhile_dropEndWhile p _ (dropWhile_dropWhile p cs), dropEndWhile_idem]

theorem trim_idem (s : String) : trim (trim s) = trim s := by
  simp [trim, trimList_idem]

theorem dropEndWhile_append {p : Char → Bool} (cs ds : List Char) :
    dropEndWhile p (cs ++ ds) =
      if dropEndWhile p ds = [] then dropEndWhile p cs else cs ++ dropEndWhile p ds := by
  by_cases hds : dropEndWhile p ds = []
  · rw [if_pos hds]
    induction cs with
    | nil => exact hds
    | cons c cs ih => rw [List.cons_append, dropEndWhile, ih, dropEndWhile]
  · rw [if_neg hds]
    induction cs with
    | nil => rfl
    | cons c cs ih =>
        obtain ⟨d, rest, hrest⟩ :=
          List.exists_cons_of_ne_nil (List.append_ne_nil_of_right_ne_nil cs hds)
        rw [List.cons_append, dropEndWhile, ih, List.cons_append, hrest]

theorem dropEndWhile_of_trim {s : String} (h : trim s = s) :
    dropEndWhile isBlank s.toList = s.toList := by
  have hlist : dropEndWhile isBlank (s.toList.dropWhile isBlank) = s.toList := by
    rw [← String.toList_ofList (l := dropEndWhile _ _)]
    exact congrArg String.toList h
  rw [← hlist, dropEndWhile_idem]

/-- A text that starts with no blank and ends with a trimmed one is trimmed. -/
theorem trim_append {s t : String} {c : Char} {cs : List Char} (hs : s.toList = c :: cs)
    (hc : isBlank c = false) (ht : trim t = t) (hne : t ≠ "") : trim (s ++ t) = s ++ t := by
  have hend : dropEndWhile isBlank t.toList = t.toList := dropEndWhile_of_trim ht
  have hkept : dropEndWhile isBlank t.toList ≠ [] := by
    rw [hend]
    exact fun hnil => hne (String.toList_eq_nil_iff.mp hnil)
  have hfront : (s ++ t).toList.dropWhile isBlank = (s ++ t).toList := by
    rw [String.toList_append, hs, List.cons_append, List.dropWhile_cons_of_neg (by simp [hc])]
  rw [trim, trimList, hfront, String.toList_append, dropEndWhile_append, if_neg hkept, hend,
    ← String.toList_append, String.ofList_toList]

end Text
end ConditionalForms
