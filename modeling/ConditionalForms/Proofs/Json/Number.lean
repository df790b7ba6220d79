import ConditionalForms.Json.Read
import ConditionalForms.Proofs.Number.Spelling

/-!
# Reading written numbers

Numbers are written without leading zeros and end in front of a comma, a closing bracket or the end
of the text, so that reading finds exactly their parts.  Integers come back as integers and doubles
as doubles, the infinite ones and NaN by their names.

**Definitions.**
* `Json.Ends`: what may follow a value.
* `Json.signedChars`: a text with its sign.
* `Json.spelled`: the number that a literal is.

**Results.**
* `Json.readAtom_spelling`: a literal is read as its number.
* `Json.readAtom_write`: an integer is read back from its decimal text.
* `Json.readAtom_write_double`: a double is read back from its shortest decimal.
-/

namespace ConditionalForms
namespace Json

/-- What may follow a value: nothing, a comma or a closing bracket. -/
def Ends (rest : List Char) : Prop := ∀ c ∈ rest.head?, c = ',' ∨ c = ']' ∨ c = '\x7d'

theorem ends_nil : Ends [] := nofun

variable {s : Spelling} {rest : List Char}

theorem Ends.not_digit (h : Ends rest) : ∀ c ∈ rest.head?, Literal.isAsciiDigit c = false := by
  intro c hc
  rcases h c hc with rfl | rfl | rfl <;> decide

theorem head?_append_exponentChars (s : Spelling) (h : Ends rest) :
    ∀ c ∈ (s.exponentChars ++ rest).head?, c ≠ '.' ∧ Literal.isAsciiDigit c = false := by
  intro c hc
  unfold Spelling.exponentChars at hc
  split at hc
  · rcases h c hc with rfl | rfl | rfl <;> decide
  · obtain rfl : 'e' = c := by simpa using hc
    decide

theorem spanDigits_append {ds more : List Char} (hds : ∀ c ∈ ds, c.isDigit = true)
    (hmore : ∀ c ∈ more.head?, Literal.isAsciiDigit c = false) :
    spanDigits (ds ++ more) = (ds, more) := by
  obtain ⟨htake, hdrop⟩ := Literal.takeWhile_digits hds hmore
  rw [spanDigits, htake, hdrop]

theorem wholePart_append (h : s.IsPlain) {more : List Char}
    (hmore : ∀ c ∈ more.head?, Literal.isAsciiDigit c = false) :
    wholePart (s.whole ++ more) = (s.whole, more) := by
  rcases h.leading with hzero | ⟨-, hfirst⟩
  · rw [hzero]
    rfl
  · rw [← spanDigits_append h.whole hmore]
    cases hwhole : s.whole with
    | nil => exact absurd hwhole h.whole_ne
    | cons c cs =>
        rw [hwhole] at hfirst
        have hc : c ≠ '0' := by simpa using hfirst
        rw [List.cons_append]
        unfold wholePart
        split
        · rename_i heq
          exact absurd (List.cons.inj heq).1 hc
        · rfl

theorem fractionPart_append (h : s.IsPlain) (hrest : Ends rest) :
    fractionPart (s.fractionChars ++ (s.exponentChars ++ rest)) =
      (s.fractionChars, s.exponentChars ++ rest) := by
  have hafter := head?_append_exponentChars s hrest
  unfold Spelling.fractionChars
  split
  · rw [List.nil_append]
    cases hchars : s.exponentChars ++ rest with
    | nil => rfl
    | cons c cs =>
        rw [hchars] at hafter
        have hc : c ≠ '.' := (hafter c rfl).1
        unfold fractionPart
        split
        · rename_i heq
          exact absurd (List.cons.inj heq).1 hc
        · rfl
  · rename_i hne
    have hspan := spanDigits_append h.fraction fun c hc => (hafter c hc).2
    rw [List.cons_append, fractionPart, hspan]
    cases hf : s.fraction with
    | nil => exact absurd hf hne
    | cons c cs => rfl

theorem exponentPart_append (h : s.IsPlain) (hrest : Ends rest) :
    exponentPart (s.exponentChars ++ rest) = (s.exponentChars, rest) := by
  unfold Spelling.exponentChars
  split
  · cases rest with
    | nil => rfl
    | cons c cs =>
        have hc : ¬(c = 'e' ∨ c = 'E') := by
          rcases hrest c rfl with rfl | rfl | rfl <;> decide
        simp [exponentPart, hc]
  · rename_i negative ds he
    obtain ⟨hne, hdigits⟩ := h.exponent _ he
    have hspan := spanDigits_append hdigits hrest.not_digit
    cases ds with
    | nil => exact absurd rfl hne
    | cons d ds =>
        rw [List.cons_append] at hspan
        cases negative <;> simp [exponentPart, hspan]

/-- A text with its sign in front of it. -/
def signedChars (negative : Bool) (cs : List Char) : List Char :=
  if negative then '-' :: cs else cs

theorem head?_append_fractionChars (s : Spelling) (h : Ends rest) :
    ∀ c ∈ (s.fractionChars ++ (s.exponentChars ++ rest)).head?,
      Literal.isAsciiDigit c = false := by
  intro c hc
  unfold Spelling.fractionChars at hc
  split at hc
  · exact (head?_append_exponentChars s h c hc).2
  · obtain rfl : '.' = c := by simpa using hc
    decide

/-- The number that a literal with its sign is: an integer, or a double when there is a fraction or
an exponent. -/
def spelled (negative : Bool) (s : Spelling) : Except Stop Value :=
  if s.fraction = [] ∧ s.exponent = none then
    if Integer.digitLimit < s.whole.length then
      .error (.fault (.integerTooLongToRead s.whole.length))
    else .ok (.int (Double.signed negative (Literal.natOf s.whole)))
  else .ok (.float (Double.ofDecimal negative s.decimal))

/-- A literal with its sign is read as its number. -/
theorem readNumber_spelling (h : s.IsPlain) (hrest : Ends rest) (start : Nat) (negative : Bool) :
    readNumber start (signedChars negative s.chars ++ rest) =
      (spelled negative s).map fun v => (v, rest) := by
  have hchars : s.chars ++ rest =
      s.whole ++ (s.fractionChars ++ (s.exponentChars ++ rest)) := by
    simp [Spelling.chars]
  have hwhole := wholePart_append h (head?_append_fractionChars s hrest)
  have hdecimal : Literal.decimal? (s.whole ++ (s.fractionChars ++ s.exponentChars)) =
      some s.decimal := Spelling.decimal?_chars h
  have hnone : (s.fractionChars = [] ∧ s.exponentChars = []) ↔
      (s.fraction = [] ∧ s.exponent = none) := by
    unfold Spelling.fractionChars Spelling.exponentChars
    cases s.exponent <;> simp
  rw [← hchars] at hwhole
  unfold spelled
  rw [apply_ite (Except.map fun v => (v, rest)), apply_ite (Except.map fun v => (v, rest))]
  cases negative with
  | false =>
      obtain ⟨c, cs, hcons, hdigit⟩ := h.exists_chars_eq
      have hminus : c ≠ '-' := by
        rintro rfl
        contradiction
      rw [signedChars, if_neg Bool.false_ne_true, hcons, List.cons_append]
      rw [hcons, List.cons_append] at hwhole
      simp [readNumber, hminus, hwhole, h.whole_ne, fractionPart_append h hrest,
        exponentPart_append h hrest, hdecimal, hnone, Except.map]
  | true =>
      rw [signedChars, if_pos rfl, List.cons_append]
      simp [readNumber, hwhole, h.whole_ne, fractionPart_append h hrest,
        exponentPart_append h hrest, hdecimal, hnone, Except.map]

/-- A text that starts with a digit, behind its sign, is no name. -/
theorem readAtom_signedChars {c : Char} (hc : c.isDigit = true) (negative : Bool)
    (cs : List Char) :
    readAtom (signedChars negative (c :: cs)) =
      readNumber (signedChars negative (c :: cs)).length (signedChars negative (c :: cs)) := by
  have hletter : ∀ d : Char, d.isDigit = false → d ≠ c := by
    rintro d hd rfl
    rw [hc] at hd
    contradiction
  have hnone : (names.findSome? fun n =>
      (behind? n.1 (signedChars negative (c :: cs))).map fun left => (n.2, left)) = none := by
    cases negative <;>
      simp [names, signedChars, behind?, hletter 'n' rfl, hletter 't' rfl, hletter 'f' rfl,
        hletter 'N' rfl, hletter 'I' rfl, hletter '-' rfl]
  rw [readAtom, hnone]

theorem readAtom_spelling (h : s.IsPlain) (hrest : Ends rest) (negative : Bool) :
    readAtom (signedChars negative s.chars ++ rest) =
      (spelled negative s).map fun v => (v, rest) := by
  obtain ⟨c, cs, hchars, hdigit⟩ := h.exists_chars_eq
  have hcons : signedChars negative s.chars ++ rest = signedChars negative (c :: (cs ++ rest)) := by
    cases negative <;> simp [signedChars, hchars]
  rw [← readNumber_spelling h hrest (signedChars negative s.chars ++ rest).length, hcons,
    readAtom_signedChars hdigit]

/-- An integer is read back from its decimal text. -/
theorem readAtom_write {n : Int} {t : String} (h : Integer.write n = .ok t)
    (hrest : Ends rest) : readAtom (t.toList ++ rest) = .ok (.int n, rest) := by
  have hlimit := (Integer.write_eq_ok_iff n).mp ⟨t, h⟩
  unfold Integer.write at h
  rw [if_neg (by omega), Except.ok.injEq] at h
  subst h
  have hplain : Spelling.IsPlain ⟨Nat.toDigits 10 n.natAbs, [], none⟩ := by
    refine ⟨fun c hc => Text.isDigit_of_mem_toDigits hc, nofun, nofun, ?_⟩
    rcases Nat.eq_zero_or_pos n.natAbs with hzero | hpos
    · exact Or.inl (by simp [hzero])
    · exact Or.inr ⟨Nat.toDigits_ne_nil, Layout.head?_toDigits hpos.ne'⟩
  have hchars : (Integer.decimalText n).toList =
      signedChars (decide (n < 0)) (Spelling.chars ⟨Nat.toDigits 10 n.natAbs, [], none⟩) := by
    simp [Integer.decimalText, signedChars, Spelling.chars, Spelling.fractionChars,
      Spelling.exponentChars]
  rw [hchars, readAtom_spelling hplain hrest, spelled, if_pos ⟨rfl, rfl⟩,
    if_neg (by simpa using hlimit), Literal.natOf_toDigits, Double.signed_natAbs]
  rfl

/-- A double is read back from its shortest decimal. -/
theorem readAtom_write_double (x : Double) (hrest : Ends rest) :
    readAtom ((Layout.json.write x).toList ++ rest) = .ok (.float x, rest) := by
  cases x with
  | nan => rfl
  | infinite negative => cases negative <;> rfl
  | finite negative r =>
      obtain ⟨s, hs, hchars, hpart, hvalue⟩ := Layout.spells_magnitude r.isLt
      have hrank : s.decimal.rank = r := by
        rw [Decimal.rank_congr hvalue, Decimal.rank_shortest r.isLt]
      have hwritten : (Layout.json.write (.finite negative r)).toList =
          signedChars negative s.chars := by
        rw [← hchars]
        exact String.toList_ofList
      have hdouble : Double.ofDecimal negative s.decimal = .finite negative r := by
        rw [Double.ofDecimal, hrank, Double.ofRank, dif_pos r.isLt]
      rw [hwritten, readAtom_spelling hs hrest, spelled, if_neg (by tauto), hdouble]
      rfl

end Json
end ConditionalForms
