import ConditionalForms.Number.Integer
import ConditionalForms.Proofs.Contract
import Mathlib.Algebra.Group.Nat.Defs
import Mathlib.Data.List.TakeWhile

/-!
# Numerals

A numeral that is read within the digit limit gives a number that may be written again: leading
zeros and the digits of other scripts only make the numeral longer.  What is written is a numeral,
and reading it gives the number back.

Not every numeral is read.  The digits of a numeral may be digits in the wider sense, such as
superscripts, while a number is read from decimal digits only, and there may be too many of them.

**Definitions.**
* `Text.Denotes`: the number that a text of decimal digits stands for.
* `Integer.Unreadable`: the faults of reading a numeral.

**Results.**
* `Text.natOfDigits_lt`: a number has no more digits than its numeral.
* `Integer.write_of_readNumeral`: what is read from a numeral can be written.
* `Integer.readNumeral_of_write`: what is written is read back.
* `Integer.contract_readNumeral`: a numeral is read as what it denotes, unless there is a reason
  why not.
-/

namespace ConditionalForms

namespace Text

theorem decimalValue?_lt {c : Char} {d : Nat} (h : decimalValue? c = some d) : d < 10 := by
  obtain ⟨z, hz, rfl⟩ := Option.map_eq_some_iff.mp h
  have hrange := List.find?_some hz
  simp only [Bool.and_eq_true, decide_eq_true_eq] at hrange
  omega

theorem decimalValue?_of_isDigit {c : Char} (h : c.isDigit = true) :
    decimalValue? c = some (c.toNat - 48) := by
  simp only [Char.isDigit, Bool.and_eq_true, decide_eq_true_eq] at h
  have hlow : 48 ≤ c.toNat := h.1
  have hhigh : c.toNat < 48 + 10 := Nat.lt_succ_of_le h.2
  rw [decimalValue?, zeros, List.find?_cons_of_pos (by simp [hlow, hhigh]), Option.map_some]

theorem isDigit_of_mem_toDigits {n : Nat} {c : Char} (h : c ∈ Nat.toDigits 10 n) :
    c.isDigit = true :=
  Nat.isDigit_of_mem_toDigits (by decide) (by decide) h

/-- The digits of a number give the number. -/
theorem natOfDigits_toDigits (n : Nat) :
    natOfDigits ((Nat.toDigits 10 n).map fun c => c.toNat - 48) = n := by
  rw [natOfDigits, List.foldl_map]
  exact Nat.ofDigitChars_ten_toDigits

/-- Every digit that is read on makes the number less than ten times one more than it was. -/
theorem foldl_digits_lt (ds : List Nat) (h : ∀ d ∈ ds, d < 10) (n : Nat) :
    ds.foldl (fun n d => 10 * n + d) n < (n + 1) * 10 ^ ds.length := by
  induction ds generalizing n with
  | nil => simp
  | cons d ds ih =>
      have hd : d < 10 := h d List.mem_cons_self
      have hrest := ih (fun e he => h e (List.mem_cons_of_mem _ he)) (10 * n + d)
      rw [List.foldl_cons, List.length_cons, Nat.pow_succ, Nat.mul_comm _ 10, ← Nat.mul_assoc]
      exact Nat.lt_of_lt_of_le hrest (Nat.mul_le_mul_right _ (by omega))

theorem natOfDigits_lt {ds : List Nat} (h : ∀ d ∈ ds, d < 10) :
    natOfDigits ds < 10 ^ ds.length := by
  simpa [natOfDigits] using foldl_digits_lt ds h 0

end Text

namespace Integer

theorem lt_of_mem_leadingDigits {d : Nat} : ∀ {cs : List Char}, d ∈ leadingDigits cs → d < 10
  | [], h => by simp [leadingDigits] at h
  | c :: cs, h => by
      unfold leadingDigits at h
      split at h
      · rename_i e hc
        rcases List.mem_cons.mp h with rfl | h
        · exact Text.decimalValue?_lt hc
        · exact lt_of_mem_leadingDigits h
      · simp at h

theorem leadingDigits_of_isDigit :
    ∀ {cs : List Char}, (∀ c ∈ cs, c.isDigit = true) →
      leadingDigits cs = cs.map fun c => c.toNat - 48
  | [], _ => rfl
  | c :: cs, h => by
      have ih : leadingDigits cs = cs.map fun c => c.toNat - 48 :=
        leadingDigits_of_isDigit fun d hd => h d (List.mem_cons_of_mem _ hd)
      rw [leadingDigits, Text.decimalValue?_of_isDigit (h c List.mem_cons_self), ih, List.map_cons]

theorem toList_decimalText (n : Nat) : (decimalText n).toList = Nat.toDigits 10 n := by
  simp [decimalText]

theorem isNumeral_decimalText (n : Nat) : Text.isNumeral (decimalText n) = true := by
  have hdigits : ∀ c ∈ Nat.toDigits 10 n, Text.isDigit c = true := by
    intro c hc
    apply Text.isDigit_of_isDecimal
    rw [Text.isDecimal, Text.decimalValue?_of_isDigit (Text.isDigit_of_mem_toDigits hc)]
    rfl
  have hne : decimalText n ≠ "" := by
    intro h
    have hnil := toList_decimalText n
    rw [h] at hnil
    exact Nat.toDigits_ne_nil hnil.symm
  simpa [Text.isNumeral, toList_decimalText, hne] using hdigits

/-- A natural number within the digit limit is read back from its text. -/
theorem readNumeral_of_write {n : Nat} {s : String} (h : write n = .ok s) :
    readNumeral s = .ok n := by
  have hlimit := (write_eq_ok_iff n).mp ⟨s, h⟩
  unfold write at h
  rw [if_neg (by omega), Except.ok.injEq] at h
  subst h
  have hds : leadingDigits (decimalText n).toList =
      (Nat.toDigits 10 n).map fun c => c.toNat - 48 := by
    rw [toList_decimalText]
    exact leadingDigits_of_isDigit fun c hc => Text.isDigit_of_mem_toDigits hc
  have hlength : (decimalText n).length = (Nat.toDigits 10 n).length := by
    rw [← String.length_toList, toList_decimalText]
  rw [Int.natAbs_natCast] at hlimit
  simp only [readNumeral, hds, List.length_map, hlength, List.map_eq_nil_iff]
  rw [if_neg (by omega), if_neg (by simp [Nat.toDigits_ne_nil]), Text.natOfDigits_toDigits]

theorem exists_natCast_of_readNumeral {s : String} {n : Int} (h : readNumeral s = .ok n) :
    ∃ k : Nat, n = k := by
  simp only [readNumeral] at h
  split at h
  · simp at h
  · split at h
    · simp at h
    · exact ⟨_, (Except.ok.inj h).symm⟩

/-- What is read from a numeral can be written. -/
theorem write_of_readNumeral {s : String} {n : Int} (h : readNumeral s = .ok n) :
    write n = .ok (decimalText n) := by
  simp only [readNumeral] at h
  split at h
  · simp at h
  rename_i hlimit
  split at h
  · simp at h
  rename_i hall
  rw [Except.ok.injEq] at h
  subst h
  have hne : leadingDigits s.toList ≠ [] := fun e => hall (Or.inr e)
  have hlt : Text.natOfDigits (leadingDigits s.toList) < 10 ^ (leadingDigits s.toList).length :=
    Text.natOfDigits_lt fun _ hd => lt_of_mem_leadingDigits hd
  have hlength := (Nat.length_toDigits_le_iff (by decide) (List.length_pos_iff.mpr hne)).mpr hlt
  unfold write
  rw [if_neg]
  rw [Int.natAbs_natCast]
  omega

end Integer

namespace Text

/-- A text of decimal digits, of any script, stands for a number. -/
def Denotes (s : String) (n : Nat) : Prop :=
  ∃ ds, ds ≠ [] ∧ s.toList.map decimalValue? = ds.map some ∧ natOfDigits ds = n

variable {s : String} {m n : Nat}

theorem Denotes.unique (hm : Denotes s m) (hn : Denotes s n) : m = n := by
  obtain ⟨ds, -, hds, rfl⟩ := hm
  obtain ⟨es, -, hes, rfl⟩ := hn
  have hsame : ds.map some = es.map some := hds.symm.trans hes
  rw [(List.map_inj_right fun _ _ => Option.some.inj).mp hsame]

theorem Denotes.isNumeral (h : Denotes s n) : isNumeral s = true := by
  obtain ⟨ds, hne, hds, -⟩ := h
  have hdigits : ∀ c ∈ s.toList, isDigit c = true := by
    intro c hc
    have hmem : decimalValue? c ∈ ds.map some := by
      rw [← hds]
      exact List.mem_map_of_mem hc
    obtain ⟨d, -, hd⟩ := List.mem_map.mp hmem
    apply isDigit_of_isDecimal
    rw [isDecimal, ← hd]
    rfl
  have hs : s ≠ "" := by
    rintro rfl
    exact hne (List.map_eq_nil_iff.mp hds.symm)
  rw [Text.isNumeral, Bool.and_eq_true, List.all_eq_true]
  exact ⟨by simp [hs], hdigits⟩

end Text

namespace Integer

/-- A numeral is not read: it starts with too many decimal digits, or one of its digits is not
decimal. -/
inductive Unreadable (s : String) : Fault → Prop where
  | tooLong (numeral : Text.isNumeral s = true)
      (long : digitLimit < (s.toList.takeWhile Text.isDecimal).length) :
      Unreadable s (.integerTooLongToRead (s.toList.takeWhile Text.isDecimal).length)
  | notDecimal {c : Char} (numeral : Text.isNumeral s = true)
      (short : (s.toList.takeWhile Text.isDecimal).length ≤ digitLimit) (hc : c ∈ s.toList)
      (other : Text.isDecimal c = false) : Unreadable s (.notDecimal s)

variable {s : String} {n : Int} {e f : Fault}

theorem Unreadable.isNumeral (h : Unreadable s e) : Text.isNumeral s = true := by
  cases h with
  | tooLong numeral _ => exact numeral
  | notDecimal numeral _ _ _ => exact numeral

theorem Unreadable.unique (he : Unreadable s e) (hf : Unreadable s f) : e = f := by
  cases he with
  | tooLong _ long => cases hf with
    | tooLong _ _ => rfl
    | notDecimal _ short _ _ => omega
  | notDecimal _ short _ _ => cases hf with
    | tooLong _ long => omega
    | notDecimal _ _ _ _ => rfl

/-- The digits that are read are the decimal ones up to the first other one. -/
theorem map_leadingDigits (cs : List Char) :
    (leadingDigits cs).map some = (cs.takeWhile Text.isDecimal).map Text.decimalValue? := by
  induction cs with
  | nil => rfl
  | cons c cs ih =>
      rw [leadingDigits]
      cases hc : Text.decimalValue? c with
      | none =>
          have hother : Text.isDecimal c = false := by rw [Text.isDecimal, hc]; rfl
          rw [List.takeWhile_cons_of_neg (by simp [hother])]
          rfl
      | some d =>
          have hdecimal : Text.isDecimal c = true := by rw [Text.isDecimal, hc]; rfl
          rw [List.takeWhile_cons_of_pos hdecimal, List.map_cons, List.map_cons, ih, hc]

theorem length_leadingDigits (cs : List Char) :
    (leadingDigits cs).length = (cs.takeWhile Text.isDecimal).length := by
  simpa using congrArg List.length (map_leadingDigits cs)

/-- A numeral is read as the number that it denotes, unless there is a reason why it is not. -/
theorem contract_readNumeral (h : Text.isNumeral s = true) :
    Contract (Unreadable s)
      (fun n : Int => (∃ m : Nat, n = m ∧ Text.Denotes s m) ∧ ∀ e, ¬ Unreadable s e)
      (readNumeral s) := by
  have hne : s ≠ "" := by
    rintro rfl
    simp [Text.isNumeral] at h
  simp only [readNumeral, length_leadingDigits]
  by_cases hlong : digitLimit < (s.toList.takeWhile Text.isDecimal).length
  · rw [if_pos hlong]
    exact .tooLong h hlong
  rw [if_neg hlong]
  by_cases hall : ∀ c ∈ s.toList, Text.isDecimal c = true
  · have htake : s.toList.takeWhile Text.isDecimal = s.toList :=
      List.takeWhile_eq_self_iff.mpr hall
    have hds := map_leadingDigits s.toList
    rw [htake] at hds
    have hnil : leadingDigits s.toList ≠ [] := by
      intro hnil
      rw [hnil] at hds
      exact hne (String.toList_eq_nil_iff.mp (List.map_eq_nil_iff.mp hds.symm))
    rw [htake, String.length_toList, if_neg (by simp [hnil])]
    refine ⟨⟨_, rfl, _, hnil, hds.symm, rfl⟩, ?_⟩
    intro e he
    cases he with
    | tooLong _ long => exact hlong long
    | notDecimal _ _ hc other => simp [hall _ hc] at other
  · obtain ⟨c, hc, hother⟩ : ∃ c ∈ s.toList, Text.isDecimal c = false := by simpa using hall
    have hshort : (s.toList.takeWhile Text.isDecimal).length < s.length := by
      rw [← String.length_toList]
      refine Nat.lt_of_le_of_ne (List.takeWhile_sublist _).length_le fun heq => ?_
      have htake := (List.takeWhile_sublist Text.isDecimal).eq_of_length heq
      simp [List.takeWhile_eq_self_iff.mp htake c hc] at hother
    rw [if_pos (Or.inl hshort)]
    exact .notDecimal h (Nat.le_of_not_lt hlong) hc hother

end Integer

end ConditionalForms
