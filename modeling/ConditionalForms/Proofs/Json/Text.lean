import ConditionalForms.Json.Read
import ConditionalForms.Proofs.Number.Numeral
import Mathlib.Data.List.Basic

/-!
# Reading written texts

Every character of a text is read back from what it is written as: a backslash and a letter, itself,
or the codes of its units, of which there are two beyond U+FFFF.

**Results.**
* `Json.readCode_escapeCode`: a character is read back from its units.
* `Json.readText_encodeText`: a text is read back, up to its closing quote.
-/

namespace ConditionalForms
namespace Literal

theorem hexValue?_digitChar {d : Nat} (h : d < 16) : hexValue? d.digitChar = some d := by
  have hall : ∀ d, d < 16 → hexValue? d.digitChar = some d := by decide
  exact hall d h

theorem hexNumber?_append_digit {cs : List Char} {n d : Nat} (hcs : hexNumber? cs = some n)
    (hd : d < 16) : hexNumber? (cs ++ [d.digitChar]) = some (16 * n + d) := by
  unfold hexNumber? at hcs ⊢
  rw [List.foldlM_append, hcs]
  simp [hexValue?_digitChar hd]

theorem hexNumber?_toDigits (n : Nat) : hexNumber? (Nat.toDigits 16 n) = some n := by
  induction n using Nat.strongRecOn with
  | ind n ih =>
      rcases Nat.lt_or_ge n 16 with hlt | hge
      · rw [Nat.toDigits_of_lt_base hlt]
        have hnil : hexNumber? [] = some 0 := rfl
        simpa using hexNumber?_append_digit hnil hlt
      · have hrest := ih (n / 16) (Nat.div_lt_self (by omega) (by decide))
        rw [Nat.toDigits_of_base_le (by decide) hge,
          hexNumber?_append_digit hrest (Nat.mod_lt n (by decide)), Nat.div_add_mod]

theorem hexNumber?_zeros_append (k : Nat) (cs : List Char) :
    hexNumber? (List.replicate k '0' ++ cs) = hexNumber? cs := by
  induction k with
  | zero => rfl
  | succ k ih =>
      rw [← ih]
      rfl

/-- Four hexadecimal digits give the unit that they were written for. -/
theorem exists_hex_eq {u : Nat} (hu : u < 0x10000) :
    ∃ a b c d, Text.hex 4 u = [a, b, c, d] ∧ hexNumber? [a, b, c, d] = some u := by
  have hle : (Nat.toDigits 16 u).length ≤ 4 :=
    (Nat.length_toDigits_le_iff (by decide) (by decide)).mpr hu
  have hlength : (Text.hex 4 u).length = 4 := by
    simp only [Text.hex, List.length_append, List.length_replicate]
    omega
  have hvalue : hexNumber? (Text.hex 4 u) = some u := by
    rw [Text.hex, hexNumber?_zeros_append, hexNumber?_toDigits]
  obtain ⟨a, b, c, d, hhex⟩ := List.length_eq_four.mp hlength
  exact ⟨a, b, c, d, hhex, hhex ▸ hvalue⟩

end Literal

namespace Json

@[simp] theorem ok_bind_stop {α β : Type} (a : α) (f : α → Except Stop β) :
    (Except.ok a >>= f) = f a := rfl

/-- A unit that stands for a character of its own. -/
theorem readCode_hex {u : Nat} (hu : u < 0x10000) (hplain : u < 0xD800 ∨ 0xE000 ≤ u) (e : Char)
    (rest : List Char) : readCode (Text.hex 4 u ++ e :: rest) = .ok (Char.ofNat u, e :: rest) := by
  obtain ⟨a, b, c, d, hhex, hvalue⟩ := Literal.exists_hex_eq hu
  rw [hhex]
  simp only [List.cons_append, List.nil_append, readCode, hvalue]
  rw [if_neg (by omega), if_neg (by omega)]

/-- Two halves of a character. -/
theorem readCode_halves (high low : Nat) (hhigh : high < 0x400) (hlow : low < 0x400) (e : Char)
    (rest : List Char) :
    readCode (Text.hex 4 (0xD800 + high) ++ '\\' :: 'u' :: (Text.hex 4 (0xDC00 + low) ++ e :: rest))
      = .ok (Char.ofNat (0x10000 + high * 0x400 + low), e :: rest) := by
  obtain ⟨a, b, c, d, hfirst, hhighvalue⟩ := Literal.exists_hex_eq (u := 0xD800 + high) (by omega)
  obtain ⟨a', b', c', d', hsecond, hlowvalue⟩ :=
    Literal.exists_hex_eq (u := 0xDC00 + low) (by omega)
  rw [hfirst, hsecond]
  have hhalf : lowHalf ('\\' :: 'u' :: a' :: b' :: c' :: d' :: e :: rest) =
      .ok (some (0xDC00 + low, e :: rest)) := by
    simp only [lowHalf, hlowvalue]
    rw [if_pos (by omega)]
  simp only [List.cons_append, List.nil_append, readCode, hhighvalue, hhalf, ok_bind_stop]
  rw [if_pos (by omega)]
  simp [pure, Except.pure]

theorem codeUnits_of_large {c : Char} {n : Nat} (h : c.toNat = 0x10000 + n) :
    codeUnits c = [0xD800 + n / 0x400, 0xDC00 + n % 0x400] := by
  have hlarge : ¬c.toNat < 0x10000 := by omega
  have hn : c.toNat - 0x10000 = n := by omega
  simp only [codeUnits, if_neg hlarge, hn]

/-- A character is read back from its units. -/
theorem readCode_escapeCode (c e : Char) (rest : List Char) :
    ∃ more, escapeCode c ++ e :: rest = '\\' :: 'u' :: more ∧
      readCode more = .ok (c, e :: rest) := by
  have hvalid : c.toNat < 0xD800 ∨ 0xDFFF < c.toNat ∧ c.toNat < 0x110000 := c.valid
  rcases Nat.lt_or_ge c.toNat 0x10000 with hsmall | hlarge
  · refine ⟨Text.hex 4 c.toNat ++ e :: rest, by simp [escapeCode, codeUnits, hsmall], ?_⟩
    rw [readCode_hex hsmall (by omega), Char.ofNat_toNat]
  · obtain ⟨n, hn⟩ := Nat.exists_eq_add_of_le hlarge
    have hhalves := readCode_halves (n / 0x400) (n % 0x400) (by omega) (by omega) e rest
    have hcode : 0x10000 + n / 0x400 * 0x400 + n % 0x400 = c.toNat := by omega
    rw [hcode, Char.ofNat_toNat] at hhalves
    refine ⟨_, ?_, hhalves⟩
    simp [escapeCode, codeUnits_of_large hn]

/-- The three ways in which a character is written. -/
theorem escape_cases (c : Char) :
    (∃ x, escape c = ['\\', x] ∧ x ≠ 'u' ∧ escaped? x = some c) ∨
      (escape c = [c] ∧ c ≠ '"' ∧ c ≠ '\\' ∧ 32 ≤ c.toNat) ∨ escape c = escapeCode c := by
  by_cases hletter : c = '"' ∨ c = '\\' ∨ c = '\n' ∨ c = '\r' ∨ c = '\t' ∨ c = '\x0c' ∨ c = '\x08'
  · left
    rcases hletter with rfl | rfl | rfl | rfl | rfl | rfl | rfl
    · exact ⟨'"', rfl, by decide, rfl⟩
    · exact ⟨'\\', rfl, by decide, rfl⟩
    · exact ⟨'n', rfl, by decide, rfl⟩
    · exact ⟨'r', rfl, by decide, rfl⟩
    · exact ⟨'t', rfl, by decide, rfl⟩
    · exact ⟨'f', rfl, by decide, rfl⟩
    · exact ⟨'b', rfl, by decide, rfl⟩
  · right
    simp only [not_or] at hletter
    obtain ⟨hquote, hslash, hn, hr, ht, hf, hb⟩ := hletter
    rw [escape, if_neg hquote, if_neg hslash, if_neg hn, if_neg hr, if_neg ht, if_neg hf, if_neg hb]
    split
    · rename_i hrange
      exact Or.inl ⟨rfl, hquote, hslash, hrange.1⟩
    · exact Or.inr rfl

/-- A character is read back, whatever stands behind it. -/
theorem readTextRest_escape (start fuel : Nat) (c e : Char) (rest : List Char) :
    readTextRest start (fuel + 1) (escape c ++ e :: rest) = (do
      let (cs, left) ← readTextRest start fuel (e :: rest)
      return (c :: cs, left)) := by
  rcases escape_cases c with ⟨x, hchars, hx, hvalue⟩ | ⟨hchars, hquote, hslash, hplain⟩ | hcode
  · rw [hchars]
    simp [readTextRest, hx, hvalue]
  · rw [hchars]
    simp [readTextRest, hquote, hslash, Nat.not_lt.mpr hplain]
  · obtain ⟨more, hchars, hread⟩ := readCode_escapeCode c e rest
    rw [hcode, hchars]
    simp [readTextRest, hread]

theorem readTextRest_escaped (start : Nat) (rest : List Char) :
    ∀ (cs : List Char) (fuel : Nat), cs.length < fuel →
      readTextRest start fuel (cs.flatMap escape ++ '"' :: rest) = .ok (cs, rest)
  | [], fuel + 1, _ => by simp [readTextRest]
  | c :: cs, fuel + 1, h => by
      have ih := readTextRest_escaped start rest cs fuel (Nat.lt_of_succ_lt_succ h)
      obtain ⟨e, more, hcons⟩ : ∃ e more, cs.flatMap escape ++ '"' :: rest = e :: more :=
        List.exists_cons_of_ne_nil (by simp)
      rw [hcons] at ih
      rw [List.flatMap_cons, List.append_assoc, hcons, readTextRest_escape, ih]
      rfl

theorem escape_ne_nil (c : Char) : escape c ≠ [] := by
  rcases escape_cases c with ⟨x, hchars, -⟩ | ⟨hchars, -⟩ | hcode
  · simp [hchars]
  · simp [hchars]
  · obtain ⟨more, hmore, -⟩ := readCode_escapeCode c 'a' []
    intro hnil
    rw [← hcode, hnil] at hmore
    simp at hmore

theorem length_le_length_escaped (cs : List Char) : cs.length ≤ (cs.flatMap escape).length := by
  induction cs with
  | nil => simp
  | cons c cs ih =>
      have hpos : 0 < (escape c).length := List.length_pos_iff.mpr (escape_ne_nil c)
      rw [List.flatMap_cons, List.length_append, List.length_cons]
      omega

/-- A text is read back, up to its closing quote. -/
theorem readText_encodeText (s : String) (rest : List Char) :
    ∃ more, encodeText s ++ rest = '"' :: more ∧ readText more = .ok (s, rest) := by
  have hlength := length_le_length_escaped s.toList
  refine ⟨s.toList.flatMap escape ++ '"' :: rest, by simp [encodeText], ?_⟩
  rw [readText, readTextRest_escaped _ _ _ _ (by rw [List.length_append]; omega)]
  simp [pure, Except.pure]

end Json
end ConditionalForms
