import ConditionalForms.Proofs.Fill.Ledger

/-!
# Answers and the participants they are of

The answers of the participants are kept by position, so a participant who joins finds whatever was
kept at the position before.  As long as there are no more records of answers than participants this
is nothing.  Taking answers back and changing the list of participants keep it so, and an answer does
if it is of a participant who is there.  An answer at a later position is not refused, and it waits
there for the participant to come.

**Definitions.**
* `Submission.IsAligned`: there are no more records of answers than participants.
* `Action.StaysWithin`: an action does not answer for a participant who is not there.
* `Submission.StaysWithin`: no action of a run does, at its time.

**Results.**
* `Submission.IsAligned.apply_iff`: what keeps the records within the participants.
* `Submission.IsAligned.answersOf_newcomer`: then a participant who joins has no answers.
* `Submission.isAligned_run_iff`: so it is in a run exactly if the whole run stays within.
-/

namespace ConditionalForms

/-- The action does not answer for a participant who is not there. -/
def Action.StaysWithin (s : Submission) : Action → Prop
  | .answer _ _ (some (.ofNat i)) => i < s.participantCount
  | _ => True

namespace Submission

/-- There are no more records of answers than participants. -/
def IsAligned (s : Submission) : Prop := s.own.length ≤ s.participantCount

/-- No action of a run answers for a participant who is not there when it is made. -/
def StaysWithin : Submission → List Action → Prop
  | _, [] => True
  | s, a :: actions => a.StaysWithin s ∧ (a.apply s).StaysWithin actions

variable {s : Submission} {a : Action} {actions : List Action}

theorem length_changeRecord (f : Record → Record) (i : Nat) (rs : List Record) :
    (changeRecord f i rs).length = max rs.length (i + 1) := by
  induction i generalizing rs with
  | zero =>
      cases rs with
      | nil => rfl
      | cons r rest =>
          rw [changeRecord, List.length_cons, List.length_cons]
          omega
  | succ i ih =>
      cases rs with
      | nil =>
          rw [changeRecord, List.length_cons, ih, List.length_nil]
          omega
      | cons r rest =>
          rw [changeRecord, List.length_cons, List.length_cons, ih]
          omega

/-- The records stay within the participants exactly if the action does. -/
theorem IsAligned.apply_iff (h : s.IsAligned) (a : Action) :
    (a.apply s).IsAligned ↔ a.StaysWithin s := by
  cases a with
  | answer name v participant => cases participant with
    | none => exact iff_of_true h trivial
    | some i => cases i with
      | ofNat i =>
          have hlength : (Action.apply (.answer name v (some (.ofNat i))) s).own.length =
              max s.own.length (i + 1) := length_changeRecord _ i s.own
          show _ ≤ s.participantCount ↔ i < s.participantCount
          rw [hlength, max_le_iff]
          exact and_iff_right h
      | negSucc i => exact iff_of_true h trivial
  | retract name participant =>
      refine iff_of_true ?_ trivial
      cases participant with
      | none => exact h
      | some i => cases i with
        | ofNat i =>
            have hlength : (Action.apply (.retract name (some (.ofNat i))) s).own.length =
                s.own.length := List.length_modify ..
            show _ ≤ s.participantCount
            rw [hlength]
            exact h
        | negSucc i => exact h
  | enterParticipants participants =>
      have hlength : (Action.apply (.enterParticipants participants) s).own.length =
          min participants.length s.own.length := List.length_take ..
      refine iff_of_true ?_ trivial
      show _ ≤ participants.length
      rw [hlength]
      exact Nat.min_le_left _ _
  | _ => exact iff_of_true h trivial

/-- The records are within the participants all through a run exactly if the run stays within. -/
theorem IsAligned.forall_run_iff (h : s.IsAligned) (actions : List Action) :
    (∀ made, made <+: actions → (s.run made).IsAligned) ↔ s.StaysWithin actions := by
  induction actions generalizing s with
  | nil =>
      refine iff_of_true ?_ trivial
      intro made hmade
      rw [List.prefix_nil.mp hmade]
      exact h
  | cons a actions ih =>
      constructor
      · intro hall
        have hone : (a.apply s).IsAligned := hall [a] (List.prefix_cons_inj a |>.mpr List.nil_prefix)
        refine ⟨(h.apply_iff a).mp hone, (ih hone).mp fun made hmade => ?_⟩
        exact hall (a :: made) ((List.prefix_cons_inj a).mpr hmade)
      · rintro ⟨hfirst, hrest⟩ made hmade
        have hone : (a.apply s).IsAligned := (h.apply_iff a).mpr hfirst
        rcases List.prefix_cons_iff.mp hmade with rfl | ⟨later, rfl, hlater⟩
        · exact h
        · exact (ih hone).mpr hrest later hlater

/-- Where nobody is, there are no answers for somebody to find. -/
theorem IsAligned.answersOf_newcomer (h : s.IsAligned) {i : Nat} (hi : s.participantCount ≤ i)
    (participants : List Record) : (s.enterParticipants participants).answersOf i = [] := by
  have hnone : s.answersOf i = [] := by
    have hlength : s.own.length ≤ i := Nat.le_trans h hi
    show (s.own[i]?).getD [] = []
    rw [List.getElem?_eq_none hlength, Option.getD_none]
  rw [answersOf_enterParticipants, hnone]
  exact ite_self _

/-- An answer at a position at which nobody is waits there for somebody to come. -/
theorem get?_answersOf_newcomer {t : Submission} {name : String} {v : Value} {i : Nat}
    (h : s.answer name v (some (i : Int)) = .ok t) {participants : List Record}
    (hi : i < participants.length) :
    ((t.enterParticipants participants).answersOf i).get? name = some v := by
  rw [answersOf_enterParticipants, if_pos hi, answersOf_of_answer h, if_pos rfl, Record.get?_set,
    if_pos rfl]

/-- All through a run of actions there are no more records of answers than participants, exactly if
no action answers for a participant who is not there.  A participant who joins after such a run has
no answers.  But what is answered for a participant who is not there is accepted, and is found by the
one who comes to stand at the position. -/
theorem isAligned_run_iff (s : Submission) (h : s.IsAligned) (actions : List Action) :
    ((∀ made, made <+: actions → (s.run made).IsAligned) ↔ s.StaysWithin actions) ∧
      (s.StaysWithin actions → ∀ (i : Nat) (participants : List Record),
        (s.run actions).participantCount ≤ i →
          ((s.run actions).enterParticipants participants).answersOf i = []) ∧
      ∀ (name : String) (v : Value) (i : Nat) (participants : List Record),
        (s.run actions).participantCount ≤ i → i < participants.length →
          ∃ t, (s.run actions).answer name v (some (i : Int)) = .ok t ∧ ¬ t.IsAligned ∧
            ((t.enterParticipants participants).answersOf i).get? name = some v := by
  refine ⟨h.forall_run_iff actions, ?_, ?_⟩
  · intro hwithin i participants hi
    have haligned := (h.forall_run_iff actions).mpr hwithin actions List.prefix_rfl
    exact haligned.answersOf_newcomer hi participants
  · intro name v i participants hi hjoins
    refine ⟨_, rfl, ?_, get?_answersOf_newcomer rfl hjoins⟩
    show ¬ (changeRecord _ i _).length ≤ (s.run actions).participantCount
    rw [length_changeRecord]
    omega

/-- Both participants have answered, and a third one who joins has not. -/
theorem isAligned_run_twoSizes :
    twoSizes.IsAligned ∧ twoSizes.StaysWithin [.answer "size" (.text "S") (some 1)] ∧
      (Submission.enterParticipants (twoSizes.run [.answer "size" (.text "S") (some 1)])
        [[], [], []]).answersOf 2 = [] := by
  have haligned : twoSizes.IsAligned := Nat.le_refl 2
  have hwithin : twoSizes.StaysWithin [.answer "size" (.text "S") (some 1)] :=
    ⟨Nat.lt_succ_self 1, trivial⟩
  obtain ⟨_, hnewcomer, _⟩ := isAligned_run_iff twoSizes haligned
    [.answer "size" (.text "S") (some 1)]
  exact ⟨haligned, hwithin, hnewcomer hwithin 2 [[], [], []] (Nat.le_refl 2)⟩

/-- The records of answers may outgrow the participants: an answer for a second participant is
accepted while there is one. -/
theorem not_forall_isAligned_run :
    ¬ ∀ (s : Submission) (actions : List Action), s.IsAligned → (s.run actions).IsAligned := by
  intro hall
  have haligned := hall ⟨[], [[("first_name", .text "Sam")]], [], []⟩
    [.answer "size" (.text "S") (some 1)] (Nat.zero_le 1)
  have hlength : 2 ≤ 1 := haligned
  omega

end Submission

end ConditionalForms
