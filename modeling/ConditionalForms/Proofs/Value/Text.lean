import ConditionalForms.Value.Text
import ConditionalForms.Proofs.Sequence

/-!
# Texts of values

**Results.**
* `Value.eq_empty_of_plainText`: only the empty text is written as the empty text.
-/

namespace ConditionalForms

namespace Layout

theorem magnitude_ne_nil (l : Layout) (r : Nat) : l.magnitude r ≠ [] := by
  unfold magnitude
  dsimp only
  split
  · unfold positional
    dsimp only
    split
    · simp
    · split <;> simp
  · simp [scientific]

theorem write_plain_ne_empty (x : Double) : plain.write x ≠ "" := by
  cases x with
  | nan => decide
  | infinite negative => cases negative <;> decide
  | finite negative r =>
      intro h
      have hnil := congrArg String.toList h
      cases negative <;> simp [write, magnitude_ne_nil] at hnil

end Layout

theorem Integer.decimalText_ne_empty (n : Int) : decimalText n ≠ "" := by
  intro h
  have hnil := congrArg String.toList h
  rw [decimalText, String.toList_ofList] at hnil
  split at hnil <;> simp [Nat.toDigits_ne_nil] at hnil

namespace Value

/-- Only the empty text is written as the empty text. -/
theorem eq_empty_of_plainText {v : Value} (h : v.plainText = .ok "") : v = .text "" := by
  cases v with
  | null => simp [plainText, literal, Key.literal] at h
  | bool b => cases b <;> simp [plainText, literal, Key.literal] at h
  | int n =>
      simp only [plainText, literal, Key.literal, Integer.write] at h
      split at h
      · simp at h
      · exact absurd (Except.ok.inj h) (Integer.decimalText_ne_empty n)
  | float x =>
      simp only [plainText, literal, Key.literal, Except.ok.injEq] at h
      exact absurd h (Layout.write_plain_ne_empty x)
  | text s =>
      simp only [plainText, Except.ok.injEq] at h
      rw [h]
  | list items =>
      simp only [plainText, literal, bind_eq_ok, pure_eq_ok] at h
      obtain ⟨parts, -, h⟩ := h
      simp at h
  | object members =>
      simp only [plainText, literal, bind_eq_ok, pure_eq_ok] at h
      obtain ⟨parts, -, h⟩ := h
      simp at h
  | date d =>
      simp [plainText, Date.text] at h

end Value

end ConditionalForms
