import ConditionalForms.Number.Layout
import ConditionalForms.Number.Literal
import ConditionalForms.Proofs.Number.Numeral
import ConditionalForms.Proofs.Number.Shortest

/-!
# Spellings of decimals

A decimal literal has a whole part, a fraction that may be missing and an exponent that may be
missing.  Every layout of a magnitude is the spelling of a decimal with the value of its shortest
one: positionally or with an exponent, with zeros in front, behind or not at all.

**Definitions.**
* `Spelling`: the parts of a literal, with its characters and the decimal that it stands for.
* `Spelling.IsPlain`: the parts are digits, without a leading zero.
* `Layout.Spells`: a text is a literal of a value.

**Results.**
* `Spelling.decimal?_chars`: a literal is read as its decimal.
* `Layout.spells_magnitude`: what is written for a magnitude is a literal of its value.
-/

namespace ConditionalForms

/-- The parts of a decimal literal: digits in front of the point and behind it, and an exponent with
its sign. -/
structure Spelling where
  whole : List Char
  fraction : List Char
  exponent : Option (Bool × List Char)

namespace Spelling

/-- The point and what follows it. -/
def fractionChars (s : Spelling) : List Char :=
  if s.fraction = [] then [] else '.' :: s.fraction

/-- The exponent with its letter and its sign. -/
def exponentChars (s : Spelling) : List Char :=
  match s.exponent with
  | none => []
  | some (negative, ds) => 'e' :: (if negative then '-' else '+') :: ds

/-- The characters of a literal. -/
def chars (s : Spelling) : List Char := s.whole ++ (s.fractionChars ++ s.exponentChars)

/-- The exponent of a literal, zero when there is none. -/
def exponentValue (s : Spelling) : Int :=
  match s.exponent with
  | none => 0
  | some (negative, ds) => Double.signed negative (Literal.natOf ds)

/-- The decimal that a literal stands for. -/
def decimal (s : Spelling) : Decimal :=
  ⟨Literal.natOf (s.whole ++ s.fraction), s.exponentValue - s.fraction.length⟩

/-- The parts are digits; the whole part is a lone zero or does not start with one. -/
structure IsPlain (s : Spelling) : Prop where
  whole : ∀ c ∈ s.whole, c.isDigit = true
  fraction : ∀ c ∈ s.fraction, c.isDigit = true
  exponent : ∀ e ∈ s.exponent, e.2 ≠ [] ∧ ∀ c ∈ e.2, c.isDigit = true
  leading : s.whole = ['0'] ∨ s.whole ≠ [] ∧ s.whole.head? ≠ some '0'

theorem IsPlain.whole_ne {s : Spelling} (h : s.IsPlain) : s.whole ≠ [] := by
  rcases h.leading with hzero | ⟨hne, -⟩
  · simp [hzero]
  · exact hne

/-- A literal starts with a digit. -/
theorem IsPlain.exists_chars_eq {s : Spelling} (h : s.IsPlain) :
    ∃ c cs, s.chars = c :: cs ∧ c.isDigit = true := by
  cases hw : s.whole with
  | nil => exact absurd hw h.whole_ne
  | cons c cs =>
      exact ⟨c, cs ++ (s.fractionChars ++ s.exponentChars), by rw [chars, hw, List.cons_append],
        h.whole c (by simp [hw])⟩

end Spelling

namespace Literal

theorem isAsciiDigit_of_isDigit {c : Char} (h : c.isDigit = true) : isAsciiDigit c = true := by
  simp only [Char.isDigit, Bool.and_eq_true, decide_eq_true_eq] at h
  simp only [isAsciiDigit, Bool.and_eq_true, decide_eq_true_eq]
  exact h

theorem natOf_toDigits (n : Nat) : natOf (Nat.toDigits 10 n) = n := Text.natOfDigits_toDigits n

theorem natOf_append_zeros (ds : List Char) (k : Nat) :
    natOf (ds ++ List.replicate k '0') = natOf ds * 10 ^ k := by
  induction k with
  | zero => simp
  | succ k ih =>
      rw [List.replicate_succ', ← List.append_assoc, natOf, List.map_append, Text.natOfDigits,
        List.foldl_append]
      show 10 * natOf (ds ++ List.replicate k '0') + 0 = _
      rw [ih, Nat.add_zero, Nat.pow_succ, Nat.mul_comm 10, Nat.mul_assoc]

theorem natOf_zeros_append (k : Nat) (ds : List Char) :
    natOf (List.replicate k '0' ++ ds) = natOf ds := by
  induction k with
  | zero => rfl
  | succ k ih =>
      rw [List.replicate_succ, List.cons_append, ← ih]
      rfl

/-- Digits are taken up to the first other character. -/
theorem takeWhile_digits {ds rest : List Char} (hds : ∀ c ∈ ds, c.isDigit = true)
    (hrest : ∀ c ∈ rest.head?, isAsciiDigit c = false) :
    (ds ++ rest).takeWhile isAsciiDigit = ds ∧ (ds ++ rest).dropWhile isAsciiDigit = rest := by
  have hall : ∀ c ∈ ds, isAsciiDigit c = true := fun c hc => isAsciiDigit_of_isDigit (hds c hc)
  have hstop : rest.takeWhile isAsciiDigit = [] ∧ rest.dropWhile isAsciiDigit = rest := by
    cases rest with
    | nil => exact ⟨rfl, rfl⟩
    | cons c rest => simp [hrest c rfl]
  rw [List.takeWhile_append_of_pos hall, List.dropWhile_append_of_pos hall, hstop.1, hstop.2,
    List.append_nil]
  exact ⟨rfl, rfl⟩

theorem exponent?_exponentChars {s : Spelling} (h : s.IsPlain) :
    exponent? s.exponentChars = some s.exponentValue := by
  cases he : s.exponent with
  | none => simp [Spelling.exponentChars, Spelling.exponentValue, he, exponent?]
  | some e =>
      obtain ⟨negative, ds⟩ := e
      obtain ⟨hne, hdigits⟩ := h.exponent _ he
      have hall : ds.all isAsciiDigit = true :=
        List.all_eq_true.mpr fun c hc => isAsciiDigit_of_isDigit (hdigits c hc)
      cases negative <;>
        simp [Spelling.exponentChars, Spelling.exponentValue, he, exponent?, takeSign, hne, hall,
          Double.signed]

end Literal

namespace Spelling

variable {s : Spelling}

theorem head?_exponentChars (s : Spelling) :
    ∀ c ∈ s.exponentChars.head?, Literal.isAsciiDigit c = false := by
  unfold exponentChars
  split <;> simp [Literal.isAsciiDigit]

theorem head?_fractionChars (s : Spelling) :
    ∀ c ∈ (s.fractionChars ++ s.exponentChars).head?, Literal.isAsciiDigit c = false := by
  unfold fractionChars
  split
  · exact s.head?_exponentChars
  · simp [Literal.isAsciiDigit]

/-- A literal is read as its decimal. -/
theorem decimal?_chars (h : s.IsPlain) : Literal.decimal? s.chars = some s.decimal := by
  obtain ⟨htake, hdrop⟩ := Literal.takeWhile_digits h.whole s.head?_fractionChars
  simp only [Literal.decimal?, chars, htake, hdrop]
  by_cases hnone : s.fraction = []
  · have hexponent := Literal.exponent?_exponentChars h
    simp only [fractionChars, if_pos hnone, List.nil_append]
    cases he : s.exponent with
    | none =>
        have hchars : s.exponentChars = [] := by simp [exponentChars, he]
        rw [hchars] at hexponent ⊢
        simp [h.whole_ne, hexponent, decimal, hnone]
    | some e =>
        have hchars : s.exponentChars = 'e' :: (if e.1 then '-' else '+') :: e.2 := by
          simp [exponentChars, he]
        rw [hchars] at hexponent ⊢
        simp [h.whole_ne, hexponent, decimal, hnone]
  · obtain ⟨htake, hdrop⟩ := Literal.takeWhile_digits h.fraction s.head?_exponentChars
    simp only [fractionChars, if_neg hnone, List.cons_append, htake, hdrop,
      Literal.exponent?_exponentChars h]
    simp [h.whole_ne, decimal]

end Spelling

theorem Double.signed_natAbs (n : Int) : signed (decide (n < 0)) n.natAbs = n := by
  unfold signed
  split
  · rename_i h
    have hneg : n < 0 := of_decide_eq_true h
    omega
  · rename_i h
    have hpos : ¬n < 0 := fun hn => h (decide_eq_true hn)
    omega

namespace Layout

/-- The digits of a positive number do not start with a zero. -/
theorem head?_toDigits {n : Nat} (hn : n ≠ 0) : (Nat.toDigits 10 n).head? ≠ some '0' := by
  induction n using Nat.strongRecOn with
  | ind n ih =>
      rcases Nat.lt_or_ge n 10 with hlt | hge
      · have hchar : ∀ k, k < 10 → k ≠ 0 → Nat.digitChar k ≠ '0' := by decide
        rw [Nat.toDigits_of_lt_base hlt]
        simpa using hchar n hlt hn
      · have hrest := ih (n / 10) (Nat.div_lt_self (by omega) (by decide)) (by omega)
        rw [Nat.toDigits_of_base_le (by decide) hge]
        rwa [List.head?_append_of_ne_nil _ Nat.toDigits_ne_nil]

theorem isDigit_of_mem_replicate {k : Nat} {c : Char} (h : c ∈ List.replicate k '0') :
    c.isDigit = true := by
  rw [List.eq_of_mem_replicate h]
  decide

theorem isDigit_of_mem_zero {c : Char} (h : c ∈ ['0']) : c.isDigit = true :=
  isDigit_of_mem_replicate (k := 1) h

/-- The text is a literal with the value of a decimal, and it has a fraction or an exponent. -/
def Spells (cs : List Char) (x : Decimal) : Prop :=
  ∃ s : Spelling, s.IsPlain ∧ cs = s.chars ∧ (s.fraction ≠ [] ∨ s.exponent ≠ none) ∧
    s.decimal.value = x.value

variable {x : Decimal}

theorem spells_positional_of_nonneg (hscale : 0 ≤ x.scale) (hx : x.digits ≠ 0 ∨ x.scale = 0) :
    Spells (positional x) x := by
  obtain ⟨k, hk⟩ := Int.eq_ofNat_of_zero_le hscale
  refine ⟨⟨Nat.toDigits 10 x.digits ++ List.replicate k '0', ['0'], none⟩,
    ⟨?_, fun c hc => isDigit_of_mem_zero hc, nofun, ?_⟩, ?_, Or.inl (by simp), ?_⟩
  · intro c hc
    rcases List.mem_append.mp hc with hc | hc
    · exact Text.isDigit_of_mem_toDigits hc
    · exact isDigit_of_mem_replicate hc
  · rcases Nat.eq_zero_or_pos x.digits with hzero | hpos
    · have hnone : x.scale = 0 := hx.resolve_left (not_not_intro hzero)
      obtain rfl : k = 0 := by omega
      exact Or.inl (by simp [hzero])
    · refine Or.inr ⟨by simp [Nat.toDigits_ne_nil], ?_⟩
      rw [List.head?_append_of_ne_nil _ Nat.toDigits_ne_nil]
      exact head?_toDigits hpos.ne'
  · rw [positional, if_pos hscale, hk, Int.toNat_natCast]
    simp [Spelling.chars, Spelling.fractionChars, Spelling.exponentChars]
  · have hnat := Literal.natOf_append_zeros (Nat.toDigits 10 x.digits) (k + 1)
    rw [Literal.natOf_toDigits, List.replicate_succ', ← List.append_assoc] at hnat
    simp only [Spelling.decimal, Spelling.exponentValue, Decimal.value, hk, hnat, zpow_natCast]
    push_cast
    rw [pow_succ, ← mul_assoc, mul_assoc _ (10 : ℚ)]
    norm_num

theorem spells_positional_of_inside (hscale : x.scale < 0)
    (hpoint : 0 < ((Nat.toDigits 10 x.digits).length : Int) + x.scale) (hx : x.digits ≠ 0) :
    Spells (positional x) x := by
  obtain ⟨p, hp⟩ := Int.eq_ofNat_of_zero_le hpoint.le
  refine ⟨⟨(Nat.toDigits 10 x.digits).take p, (Nat.toDigits 10 x.digits).drop p, none⟩,
    ⟨fun c hc => Text.isDigit_of_mem_toDigits (List.mem_of_mem_take hc),
      fun c hc => Text.isDigit_of_mem_toDigits (List.mem_of_mem_drop hc), nofun,
      Or.inr ⟨?_, ?_⟩⟩, ?_, Or.inl ?_, ?_⟩
  · simp [Nat.toDigits_ne_nil]
    omega
  · rw [List.head?_take, if_neg (by omega)]
    exact head?_toDigits hx
  · rw [positional, if_neg (by omega), if_pos hpoint, hp, Int.toNat_natCast]
    simp [Spelling.chars, Spelling.fractionChars, Spelling.exponentChars]
    omega
  · simp
    omega
  · simp only [Spelling.decimal, List.take_append_drop, Literal.natOf_toDigits,
      Spelling.exponentValue, Decimal.value, List.length_drop]
    congr 2
    omega

theorem spells_positional_of_small
    (hpoint : ((Nat.toDigits 10 x.digits).length : Int) + x.scale ≤ 0) :
    Spells (positional x) x := by
  have hlength : 0 < (Nat.toDigits 10 x.digits).length := Nat.length_toDigits_pos
  obtain ⟨k, hk⟩ := Int.eq_ofNat_of_zero_le (Int.neg_nonneg_of_nonpos hpoint)
  refine ⟨⟨['0'], List.replicate k '0' ++ Nat.toDigits 10 x.digits, none⟩,
    ⟨fun c hc => isDigit_of_mem_zero hc, ?_, nofun, Or.inl rfl⟩, ?_, Or.inl ?_, ?_⟩
  · intro c hc
    rcases List.mem_append.mp hc with hc | hc
    · exact isDigit_of_mem_replicate hc
    · exact Text.isDigit_of_mem_toDigits hc
  · rw [positional, if_neg (by omega), if_neg (by omega), hk, Int.toNat_natCast]
    simp [Spelling.chars, Spelling.fractionChars, Spelling.exponentChars, Nat.toDigits_ne_nil]
  · simp [Nat.toDigits_ne_nil]
  · have hnat := Literal.natOf_zeros_append (k + 1) (Nat.toDigits 10 x.digits)
    rw [List.replicate_succ, Literal.natOf_toDigits, List.cons_append] at hnat
    simp only [Spelling.decimal, List.cons_append, List.nil_append, hnat, Spelling.exponentValue,
      Decimal.value, List.length_append, List.length_replicate]
    congr 2
    omega

theorem spells_positional (hx : x.digits ≠ 0 ∨ x.scale = 0) : Spells (positional x) x := by
  rcases Int.lt_or_le x.scale 0 with hneg | hscale
  · rcases Int.lt_or_le 0 (((Nat.toDigits 10 x.digits).length : Int) + x.scale) with
      hpoint | hpoint
    · exact spells_positional_of_inside hneg hpoint (hx.resolve_right (by omega))
    · exact spells_positional_of_small hpoint
  · exact spells_positional_of_nonneg hscale hx

/-- An exponent is read with its sign, whether it was padded or not. -/
theorem exponentText_eq (e : Int) :
    ∃ ds, exponentText e = (if decide (e < 0) then '-' else '+') :: ds ∧ ds ≠ [] ∧
      (∀ c ∈ ds, c.isDigit = true) ∧ Double.signed (decide (e < 0)) (Literal.natOf ds) = e := by
  have hpadded := Literal.natOf_zeros_append 1 (Nat.toDigits 10 e.natAbs)
  rw [Literal.natOf_toDigits] at hpadded
  by_cases hshort : (Nat.toDigits 10 e.natAbs).length < 2
  · refine ⟨'0' :: Nat.toDigits 10 e.natAbs, by simp [exponentText, hshort], by simp, ?_, ?_⟩
    · intro c hc
      rcases List.mem_cons.mp hc with rfl | hc
      · decide
      · exact Text.isDigit_of_mem_toDigits hc
    · exact (congrArg _ hpadded).trans (Double.signed_natAbs e)
  · refine ⟨Nat.toDigits 10 e.natAbs, by simp [exponentText, hshort], Nat.toDigits_ne_nil,
      fun c hc => Text.isDigit_of_mem_toDigits hc, ?_⟩
    rw [Literal.natOf_toDigits]
    exact Double.signed_natAbs e

theorem spells_scientific {l : Layout} (hl : l.afterLoneDigit = "") (hx : x.digits ≠ 0) :
    Spells (l.scientific x) x := by
  have hdigit : ∀ c ∈ Nat.toDigits 10 x.digits, c.isDigit = true := fun c hc =>
    Text.isDigit_of_mem_toDigits hc
  have hhead := head?_toDigits hx
  have hnat := Literal.natOf_toDigits x.digits
  cases hdigits : Nat.toDigits 10 x.digits with
  | nil => exact absurd hdigits Nat.toDigits_ne_nil
  | cons d rest =>
      rw [hdigits] at hdigit hhead hnat
      obtain ⟨ds, htext, hne, hall, hvalue⟩ :=
        exponentText_eq ((rest.length + 1 : Nat) + x.scale - 1)
      refine ⟨⟨[d], rest, some (decide ((rest.length + 1 : Nat) + x.scale - 1 < 0), ds)⟩,
        ⟨?_, ?_, ?_, Or.inr ⟨by simp, by simpa using hhead⟩⟩, ?_, Or.inr (by simp), ?_⟩
      · intro c hc
        exact hdigit c (List.mem_cons.mpr (Or.inl (List.mem_singleton.mp hc)))
      · intro c hc
        exact hdigit c (List.mem_cons_of_mem _ hc)
      · rintro e ⟨⟩
        exact ⟨hne, hall⟩
      · rw [scientific, hdigits, List.length_cons, htext]
        cases rest <;>
          simp [hl, Spelling.chars, Spelling.fractionChars, Spelling.exponentChars]
      · simp only [Spelling.decimal, List.singleton_append, hnat, Spelling.exponentValue, hvalue,
          Decimal.value]
        congr 2
        omega

/-- What is written for a magnitude is a literal with the value of its shortest decimal. -/
theorem spells_magnitude {r : Nat} (hr : r < magnitudeCount) :
    Spells (json.magnitude r) (Decimal.shortest r) := by
  have hzero : (Decimal.shortest r).digits = 0 → r = 0 := by
    intro hdigits
    have hrank := Decimal.rank_shortest hr
    rwa [Decimal.rank, if_pos hdigits, eq_comm] at hrank
  unfold magnitude
  dsimp only
  split
  · apply spells_positional
    rcases Nat.eq_zero_or_pos r with rfl | hpos
    · exact Or.inr rfl
    · exact Or.inl fun hdigits => hpos.ne' (hzero hdigits)
  · rename_i hrange
    refine spells_scientific rfl fun hdigits => hrange ?_
    rw [hzero hdigits]
    decide

end Layout

end ConditionalForms
