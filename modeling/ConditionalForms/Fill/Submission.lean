import ConditionalForms.Rule.Path
import ConditionalForms.Sequence

/-!
# Submissions

A submission is everything entered so far: the guardian, the participants, the shared answers, and
the answers that each participant has of their own.  Every entry gives a new submission.

The list of own answers may be shorter than the list of participants.  It grows to reach a
participant who answers, and is cut when participants are taken away.

**Results.**
* `answersOf_answer_own`, `answersOf_answer_other`: an answer of a participant is added to their own
  ones and to nobody else's.
-/

namespace ConditionalForms

/-- Everything entered so far. -/
structure Submission where
  guardian : Record
  participants : List Record
  shared : Record
  own : List Record

namespace Submission

/-- Nothing entered yet. -/
def empty : Submission := ⟨[], [], [], []⟩

/-- The number of participants. -/
def participantCount (s : Submission) : Nat := s.participants.length

/-- The answers of their own that a participant has. -/
def answersOf (s : Submission) (index : Int) : Record := (itemAt? s.own index).getD []

/-- The context of the rules outside any participant. -/
def sharedContext (s : Submission) : Context := ⟨s.guardian, none, s.shared⟩

/-- The context of the rules for one participant. -/
def contextOf (s : Submission) (index : Int) : Context :=
  Context.forParticipant s.guardian (itemAt? s.participants index) s.shared (s.answersOf index)

/-- Applies a function to the record at a position of a list that grows as far as needed. -/
def changeRecord (f : Record → Record) : Nat → List Record → List Record
  | 0, [] => [f []]
  | 0, r :: rest => f r :: rest
  | i + 1, [] => [] :: changeRecord f i []
  | i + 1, r :: rest => r :: changeRecord f i rest

/-- Enters an answer, shared or of one participant. -/
def answer (s : Submission) (name : String) (v : Value) :
    Option Int → Except Fault Submission
  | none => .ok { s with shared := s.shared.set name v }
  | some (.ofNat i) => .ok { s with own := changeRecord (Record.set · name v) i s.own }
  | some (.negSucc i) => .error (.participantOutOfRange (.negSucc i))

/-- Takes an answer back; where there is none nothing changes. -/
def retract (s : Submission) (name : String) : Option Int → Submission
  | none => { s with shared := s.shared.erase name }
  | some (.ofNat i) => { s with own := s.own.modify i (Record.erase · name) }
  | some (.negSucc _) => s

/-- Enters the guardian. -/
def enterGuardian (s : Submission) (guardian : Record) : Submission :=
  { s with guardian := guardian }

/-- Enters the list of participants; own answers beyond its end are dropped. -/
def enterParticipants (s : Submission) (participants : List Record) : Submission :=
  { s with participants := participants, own := s.own.take participants.length }

theorem getElem?_changeRecord_self (f : Record → Record) (i : Nat) (rs : List Record) :
    (changeRecord f i rs)[i]? = some (f (rs[i]?.getD [])) := by
  induction i generalizing rs with
  | zero => cases rs <;> simp [changeRecord]
  | succ i ih => cases rs <;> simp [changeRecord, ih]

theorem getElem?_changeRecord_ne (f : Record → Record) (i j : Nat) (rs : List Record)
    (h : i ≠ j) : ((changeRecord f i rs)[j]?).getD [] = (rs[j]?).getD [] := by
  induction i generalizing rs j with
  | zero =>
    cases j with
    | zero => exact absurd rfl h
    | succ j => cases rs <;> simp [changeRecord]
  | succ i ih =>
    cases j with
    | zero => cases rs <;> simp [changeRecord]
    | succ j =>
      cases rs with
      | nil => simpa [changeRecord] using ih j [] (by omega)
      | cons r rest => simpa [changeRecord] using ih j rest (by omega)

/-- What a participant answers is set in their own answers. -/
theorem answersOf_answer_own (s : Submission) (name : String) (v : Value) (i : Nat) :
    (s.answer name v (some (i : Int))).map (·.answersOf i) =
      .ok ((s.answersOf i).set name v) := by
  show Except.ok _ = _
  simp [answersOf, itemAt?, getElem?_changeRecord_self]

/-- What a participant answers is nobody else's answer. -/
theorem answersOf_answer_other (s : Submission) (name : String) (v : Value) (i j : Nat)
    (h : i ≠ j) :
    (s.answer name v (some (i : Int))).map (·.answersOf j) = .ok (s.answersOf j) := by
  show Except.ok _ = _
  simp [answersOf, itemAt?, getElem?_changeRecord_ne _ i j _ h]

end Submission

end ConditionalForms
