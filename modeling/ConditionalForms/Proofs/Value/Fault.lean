import ConditionalForms.Proofs.Contract
import ConditionalForms.Proofs.Number.Exact
import ConditionalForms.Value.Number
import ConditionalForms.Value.Text

/-!
# How values fail to be written and read

Only the integers in a value can keep it from being written as a text or read as a number: one with
too many digits cannot be written, and one beyond the doubles cannot be read.

**Definitions.**
* `Value.Holds`: a value has another one somewhere in it.
* `Value.TooLong`, `Value.TooLarge`: the faults of writing a value, and of reading it as a number.

**Results.**
* `Value.failsOnly_literal`, `Value.failsOnly_answerText`: writing fails only for long integers.
* `Value.answerText_eq_error_iff`: an answer is not written exactly if it holds a long integer.
* `Value.failsOnly_bound?`: reading a number fails only for an integer beyond the doubles.
-/

namespace ConditionalForms

namespace Value

/-- A value has another one in it: itself, an item or a member at any depth, or a key of one. -/
inductive Holds : Value → Value → Prop where
  | self (v : Value) : Holds v v
  | item {items : List Value} {x w : Value} (hx : x ∈ items) (h : Holds x w) :
      Holds (.list items) w
  | member {members : List (Key × Value)} {m : Key × Value} {w : Value} (hm : m ∈ members)
      (h : Holds m.2 w) : Holds (.object members) w
  | key {members : List (Key × Value)} {m : Key × Value} (hm : m ∈ members) :
      Holds (.object members) m.1.toValue

theorem Holds.eq_of_key {k : Key} {w : Value} (h : Holds k.toValue w) : w = k.toValue := by
  cases k <;> cases h <;> rfl

theorem Holds.trans {u v w : Value} (huv : Holds u v) (hvw : Holds v w) : Holds u w := by
  induction huv with
  | self => exact hvw
  | item hx _ ih => exact .item hx (ih hvw)
  | member hm _ ih => exact .member hm (ih hvw)
  | key hm =>
      obtain rfl := hvw.eq_of_key
      exact .key hm

/-- A value is not written because of an integer in it that has too many digits. -/
inductive TooLong (v : Value) : Fault → Prop where
  | mk {n : Int} (held : v.Holds (.int n))
      (long : Integer.digitLimit < (Nat.toDigits 10 n.natAbs).length) :
      TooLong v .integerTooLongToWrite

/-- A value is not read as a number because it is an integer beyond the doubles. -/
inductive TooLarge : Value → Fault → Prop where
  | mk {n : Int} (large : Double.ofInt? n = none) : TooLarge (.int n) .integerBeyondDouble

theorem TooLong.mono {v w : Value} {e : Fault} (h : w.TooLong e) (hw : v.Holds w) :
    v.TooLong e := by
  obtain ⟨held, long⟩ := h
  exact ⟨hw.trans held, long⟩

theorem failsOnly_write (n : Int) : FailsOnly (TooLong (.int n)) (Integer.write n) := by
  unfold Integer.write
  split
  · rename_i hlong
    exact ⟨.self _, hlong⟩
  · exact .ok _

theorem failsOnly_key (k : Key) : FailsOnly (TooLong k.toValue) k.literal := by
  cases k with
  | int n => exact failsOnly_write n
  | _ => exact .ok _

mutual

/-- Only an integer with too many digits keeps a value from being written as a literal. -/
theorem failsOnly_literal : ∀ v : Value, FailsOnly v.TooLong v.literal
  | .null => failsOnly_key .null
  | .bool b => failsOnly_key (.bool b)
  | .int n => failsOnly_key (.int n)
  | .float x => failsOnly_key (.float x)
  | .text s => failsOnly_key (.text s)
  | .date d => failsOnly_key (.date d)
  | .list items => by
      rw [literal]
      refine ((failsOnly_literals items).mono ?_).bind fun parts => .pure _
      rintro e ⟨x, hx, he⟩
      exact he.mono (.item hx (.self x))
  | .object members => by
      rw [literal]
      refine ((failsOnly_memberLiterals members).mono ?_).bind fun parts => .pure _
      rintro e ⟨m, hm, he | he⟩
      · exact he.mono (.key hm)
      · exact he.mono (.member hm (.self m.2))

theorem failsOnly_literals : ∀ items : List Value,
    FailsOnly (fun e => ∃ x ∈ items, x.TooLong e) (literals items)
  | [] => .ok _
  | v :: rest => by
      rw [literals]
      refine ((failsOnly_literal v).mono ?_).bind fun part => ?_
      · intro e he
        exact ⟨v, List.mem_cons_self, he⟩
      · refine ((failsOnly_literals rest).mono ?_).bind fun parts => .pure _
        rintro e ⟨x, hx, he⟩
        exact ⟨x, List.mem_cons_of_mem v hx, he⟩

theorem failsOnly_memberLiterals : ∀ members : List (Key × Value),
    FailsOnly (fun e => ∃ m ∈ members, m.1.toValue.TooLong e ∨ m.2.TooLong e)
      (memberLiterals members)
  | [] => .ok _
  | (k, v) :: rest => by
      rw [memberLiterals]
      refine ((failsOnly_key k).mono ?_).bind fun name => ?_
      · intro e he
        exact ⟨(k, v), List.mem_cons_self, Or.inl he⟩
      · refine ((failsOnly_literal v).mono ?_).bind fun part => ?_
        · intro e he
          exact ⟨(k, v), List.mem_cons_self, Or.inr he⟩
        · refine ((failsOnly_memberLiterals rest).mono ?_).bind fun parts => .pure _
          rintro e ⟨m, hm, he⟩
          exact ⟨m, List.mem_cons_of_mem (k, v) hm, he⟩

end

theorem failsOnly_plainText (v : Value) : FailsOnly v.TooLong v.plainText := by
  cases v with
  | text s => exact .ok s
  | date d => exact .ok _
  | _ => exact failsOnly_literal _

mutual

/-- Only an integer with too many digits keeps a value from being written as an answer. -/
theorem failsOnly_answerText : ∀ v : Value, FailsOnly v.TooLong v.answerText
  | .null => .ok _
  | .bool b => .ok _
  | .int n => failsOnly_write n
  | .text s => .ok _
  | .date d => .ok _
  | .object members => failsOnly_literal (.object members)
  | .float x => by
      rw [answerText]
      cases hx : x.integer? with
      | none => exact .ok _
      | some n =>
          show FailsOnly _ (Integer.write n)
          rw [(Integer.isExact_of_integer? hx).write_eq]
          exact .ok _
  | .list items => by
      rw [answerText]
      refine ((failsOnly_answerTexts items).mono ?_).bind fun parts => .pure _
      rintro e ⟨x, hx, he⟩
      exact he.mono (.item hx (.self x))

theorem failsOnly_answerTexts : ∀ items : List Value,
    FailsOnly (fun e => ∃ x ∈ items, x.TooLong e) (answerTexts items)
  | [] => .ok _
  | v :: rest => by
      rw [answerTexts]
      refine ((failsOnly_answerText v).mono ?_).bind fun part => ?_
      · intro e he
        exact ⟨v, List.mem_cons_self, he⟩
      · refine ((failsOnly_answerTexts rest).mono ?_).bind fun parts => .pure _
        rintro e ⟨x, hx, he⟩
        exact ⟨x, List.mem_cons_of_mem v hx, he⟩

end

section Written

variable {v w : Value} {n : Int} {e : Fault}

theorem literal_toValue (k : Key) : k.toValue.literal = k.literal := by cases k <;> rfl

theorem literals_eq_mapM : ∀ items : List Value, literals items = items.mapM literal
  | [] => rfl
  | v :: rest => by rw [literals, List.mapM_cons, literals_eq_mapM rest]

theorem answerTexts_eq_mapM : ∀ items : List Value, answerTexts items = items.mapM answerText
  | [] => rfl
  | v :: rest => by rw [answerTexts, List.mapM_cons, answerTexts_eq_mapM rest]

theorem exists_of_mem_memberLiterals {m : Key × Value} :
    ∀ {members : List (Key × Value)} {parts : List String},
      memberLiterals members = .ok parts → m ∈ members →
      (∃ name, m.1.literal = .ok name) ∧ ∃ part, m.2.literal = .ok part
  | [], _, _, hm => absurd hm List.not_mem_nil
  | (k, v) :: rest, parts, h, hm => by
      simp only [memberLiterals, bind_eq_ok, pure_eq_ok] at h
      obtain ⟨name, hname, part, hpart, others, hothers, -⟩ := h
      rcases List.mem_cons.mp hm with rfl | hm
      · exact ⟨⟨name, hname⟩, part, hpart⟩
      · exact exists_of_mem_memberLiterals hothers hm

/-- What a written value holds is written too. -/
theorem Holds.exists_literal (h : v.Holds w) :
    ∀ {s}, v.literal = .ok s → ∃ t, w.literal = .ok t := by
  induction h with
  | self v => exact fun {s} hs => ⟨s, hs⟩
  | item hx _ ih =>
      intro s hs
      simp only [literal, bind_eq_ok, literals_eq_mapM] at hs
      obtain ⟨parts, hparts, -⟩ := hs
      obtain ⟨part, -, hpart⟩ := exists_right_of_forall₂ (forall₂_of_mapM hparts) hx
      exact ih hpart
  | member hm _ ih =>
      intro s hs
      simp only [literal, bind_eq_ok] at hs
      obtain ⟨parts, hparts, -⟩ := hs
      obtain ⟨-, part, hpart⟩ := exists_of_mem_memberLiterals hparts hm
      exact ih hpart
  | key hm =>
      intro s hs
      simp only [literal, bind_eq_ok] at hs
      obtain ⟨parts, hparts, -⟩ := hs
      obtain ⟨⟨name, hname⟩, -⟩ := exists_of_mem_memberLiterals hparts hm
      exact ⟨name, (literal_toValue _).trans hname⟩

/-- An integer in an answer that is written is written itself.  Objects are written as literals, so
from one on it is their literals that the integer is part of. -/
theorem Holds.exists_write {u : Value} (h : v.Holds u) (hu : u = .int n) :
    ∀ {s}, v.answerText = .ok s → ∃ t, Integer.write n = .ok t := by
  induction h with
  | self v =>
      subst hu
      exact fun {s} hs => ⟨s, hs⟩
  | item hx _ ih =>
      intro s hs
      simp only [answerText, bind_eq_ok, answerTexts_eq_mapM] at hs
      obtain ⟨parts, hparts, -⟩ := hs
      obtain ⟨part, -, hpart⟩ := exists_right_of_forall₂ (forall₂_of_mapM hparts) hx
      exact ih hu hpart
  | member hm h _ =>
      subst hu
      exact fun {s} hs => (Holds.member hm h).exists_literal hs
  | key hm =>
      intro s hs
      rw [answerText] at hs
      obtain ⟨t, ht⟩ := (Holds.key hm).exists_literal hs
      rw [hu] at ht
      exact ⟨t, ht⟩

/-- An answer is not written exactly if there is an integer in it that is too long. -/
theorem answerText_eq_error_iff : v.answerText = .error e ↔ v.TooLong e := by
  constructor
  · exact (failsOnly_answerText v).of_error
  · rintro ⟨held, long⟩
    cases htext : v.answerText with
    | ok s =>
        have hwritten := held.exists_write rfl htext
        rw [Integer.write_eq_ok_iff] at hwritten
        omega
    | error other =>
        obtain ⟨-, -⟩ := (failsOnly_answerText v).of_error htext
        rfl

theorem contract_answerText (v : Value) :
    Contract v.TooLong (fun _ => ∀ e, ¬ v.TooLong e) v.answerText := by
  refine (failsOnly_answerText v).contract fun s hs e he => ?_
  rw [answerText_eq_error_iff.mpr he] at hs
  exact nomatch hs

theorem contract_answerTexts (items : List Value) :
    Contract (list items).TooLong (fun _ => ∀ e, ¬ (list items).TooLong e)
      (answerTexts items) := by
  have hlist := contract_answerText (.list items)
  rw [answerText, bind_pure_comp] at hlist
  exact hlist.of_map

end Written

theorem failsOnly_double? (v : Value) : FailsOnly v.TooLarge v.double? := by
  cases v with
  | int n =>
      rw [double?, Integer.toDouble]
      cases hn : Double.ofInt? n with
      | none => exact .mk hn
      | some x => exact .ok _
  | _ => exact .ok _

/-- Only an integer beyond the doubles keeps a value from being read as a constraint. -/
theorem failsOnly_bound? (v : Value) : FailsOnly v.TooLarge v.bound? := by
  unfold bound?
  split
  · exact .ok _
  · exact .ok _
  · refine (failsOnly_double? v).bind fun found => ?_
    cases found with
    | none => exact .pure _
    | some x =>
        dsimp only
        split
        · exact .pure _
        · cases x.integer? <;> exact .pure _

theorem failsOnly_wholeBound? (v : Value) : FailsOnly v.TooLarge v.wholeBound? := by
  rw [wholeBound?]
  refine (failsOnly_bound? v).bind fun found => ?_
  rcases found with _ | (n | x) <;> exact .pure _

theorem failsOnly_extent (v : Value) : FailsOnly v.TooLarge v.extent := by
  cases v with
  | null => exact .ok _
  | _ => exact (failsOnly_double? _).bind fun found => .pure _

end Value

end ConditionalForms
