import ConditionalForms.Proofs.Fill.Failure
import ConditionalForms.Proofs.Value.Record
import Mathlib.Logic.Function.Basic

/-!
# Submissions as maps

A submission keeps the answers of the participants in a list of records, which grows to reach a
participant, is cut with the list of participants and may be shorter than it.  A *ledger* keeps the
same answers as plain maps, one of the shared answers and one for every position, and says directly
what an action does to them: the last answer under a name counts, and what is taken back or cut off
is gone.  This module shows that no run of actions tells the two apart.

**Definitions.**
* `Ledger`, `Ledger.enter`, `Ledger.run`: the maps, and what actions do to them.
* `Submission.ledger`: the ledger of a submission.
* `Submission.HoldsMaps`: the records of the participants have at most one member under a key.
* `Submission.ReadsAs`: what is read from a submission is what a ledger says.

**Results.**
* `Submission.answersOf_of_answer`, `Submission.answersOf_retract`,
  `Submission.answersOf_enterParticipants`: whose answers an entry changes.
* `Submission.map_ledger_enter`: an action does to the ledger what it does to the submission.
* `Submission.run_reads_as_ledger`: so does any run of actions, whichever of them are refused.
-/

namespace ConditionalForms

/-- A guardian, participants and maps of answers: the shared ones, and those of every position. -/
structure Ledger where
  guardian : Record
  participants : List Record
  shared : String → Option Value
  own : Nat → String → Option Value

namespace Ledger

/-- What an action does to the maps.  An answer at a negative position is refused. -/
def enter (l : Ledger) : Action → Except Fault Ledger
  | .answer name v none => .ok { l with shared := Function.update l.shared name (some v) }
  | .answer name v (some (.ofNat i)) =>
      .ok { l with own := Function.update l.own i (Function.update (l.own i) name (some v)) }
  | .answer _ _ (some (.negSucc i)) => .error (.participantOutOfRange (.negSucc i))
  | .retract name none => .ok { l with shared := Function.update l.shared name none }
  | .retract name (some (.ofNat i)) =>
      .ok { l with own := Function.update l.own i (Function.update (l.own i) name none) }
  | .retract _ (some (.negSucc _)) => .ok l
  | .enterGuardian guardian => .ok { l with guardian := guardian }
  | .enterParticipants participants =>
      .ok { l with
        participants := participants
        own := fun i => if i < participants.length then l.own i else fun _ => none }
  | .next => .ok l
  | .previous => .ok l

/-- The maps after an action: a refused one changes nothing. -/
def apply (l : Ledger) (a : Action) : Ledger :=
  match l.enter a with
  | .ok new => new
  | .error _ => l

/-- The maps after a run of actions. -/
def run (l : Ledger) (actions : List Action) : Ledger := actions.foldl apply l

end Ledger

namespace Record

theorem get?_set_eq_update (r : Record) (name : String) (v : Value) :
    (r.set name v).get? = Function.update r.get? name (some v) := by
  funext other
  rw [get?_set, Function.update_apply]
  simp only [eq_comm]

theorem get?_erase_eq_update (r : Record) (name : String) :
    (r.erase name).get? = Function.update r.get? name none := by
  funext other
  rw [get?_erase, Function.update_apply]
  simp only [eq_comm]

end Record

namespace Submission

variable {s t : Submission} {name : String} {v : Value}

theorem answersOf_of_answer {j : Nat} (h : s.answer name v (some (j : Int)) = .ok t) (i : Nat) :
    t.answersOf i = if i = j then (s.answersOf i).set name v else s.answersOf i := by
  by_cases hij : i = j
  · subst hij
    have hown := answersOf_answer_own s name v i
    rw [h] at hown
    rw [if_pos rfl]
    exact Except.ok.inj hown
  · have hother := answersOf_answer_other s name v j i (Ne.symm hij)
    rw [h] at hother
    rw [if_neg hij]
    exact Except.ok.inj hother

theorem answersOf_retract (s : Submission) (name : String) (i j : Nat) :
    (s.retract name (some (j : Int))).answersOf i =
      if i = j then (s.answersOf i).erase name else s.answersOf i := by
  have hmodify : (s.retract name (some (j : Int))).answersOf i =
      ((s.own.modify j (Record.erase · name))[i]?).getD [] := rfl
  have hown : s.answersOf i = (s.own[i]?).getD [] := rfl
  rw [hmodify, hown, List.getElem?_modify]
  by_cases hij : i = j
  · subst hij
    rw [if_pos rfl]
    cases s.own[i]? with
    | none => rfl
    | some r => simp
  · simp [hij, Ne.symm hij]

theorem answersOf_enterParticipants (s : Submission) (participants : List Record) (i : Nat) :
    (s.enterParticipants participants).answersOf i =
      if i < participants.length then s.answersOf i else [] := by
  have htake : (s.enterParticipants participants).answersOf i =
      ((s.own.take participants.length)[i]?).getD [] := rfl
  rw [htake, List.getElem?_take]
  split
  · rfl
  · rfl

/-- The submission after a run of actions, whichever of them are refused. -/
def run (s : Submission) (actions : List Action) : Submission :=
  actions.foldl (fun s a => a.apply s) s

/-- The ledger of a submission. -/
def ledger (s : Submission) : Ledger :=
  ⟨s.guardian, s.participants, s.shared.get?, fun i => (s.answersOf i).get?⟩

/-- A change of the record at one position is one of the map at that position. -/
theorem own_eq_update {f : Record → Record} {j : Nat} {value : Option Value}
    (hf : ∀ r : Record, (f r).get? = Function.update r.get? name value)
    (h : ∀ i : Nat, t.answersOf i = if i = j then f (s.answersOf i) else s.answersOf i) :
    t.ledger.own =
      Function.update s.ledger.own j (Function.update (s.ledger.own j) name value) := by
  funext i
  have hi : t.ledger.own i = (t.answersOf i).get? := rfl
  rw [hi, h i, Function.update_apply]
  by_cases hij : i = j
  · subst hij
    rw [if_pos rfl, if_pos rfl, hf]
    rfl
  · rw [if_neg hij, if_neg hij]
    rfl

/-- An action does to the ledger what it does to the submission, or both refuse it. -/
theorem map_ledger_enter (s : Submission) (a : Action) :
    ledger <$> a.enter s = s.ledger.enter a := by
  cases a with
  | answer name v participant => cases participant with
    | none =>
        have hshared := Record.get?_set_eq_update s.shared name v
        exact congrArg (fun m => Except.ok { s.ledger with shared := m }) hshared
    | some i => cases i with
      | ofNat j =>
          have hanswer : s.answer name v (some (j : Int)) =
              .ok { s with own := changeRecord (Record.set · name v) j s.own } := rfl
          have hown := own_eq_update (fun r => Record.get?_set_eq_update r name v)
            (answersOf_of_answer hanswer)
          exact congrArg (fun m => Except.ok { s.ledger with own := m }) hown
      | negSucc i => rfl
  | retract name participant => cases participant with
    | none =>
        have hshared := Record.get?_erase_eq_update s.shared name
        exact congrArg (fun m => Except.ok { s.ledger with shared := m }) hshared
    | some i => cases i with
      | ofNat j =>
          have hown := own_eq_update (fun r => Record.get?_erase_eq_update r name)
            fun i => answersOf_retract s name i j
          exact congrArg (fun m => Except.ok { s.ledger with own := m }) hown
      | negSucc i => rfl
  | enterGuardian guardian => rfl
  | enterParticipants participants =>
      have hown : (s.enterParticipants participants).ledger.own =
          fun i => if i < participants.length then s.ledger.own i else fun _ => none := by
        funext i
        have hi : (s.enterParticipants participants).ledger.own i =
            ((s.enterParticipants participants).answersOf i).get? := rfl
        rw [hi, answersOf_enterParticipants]
        split
        · rfl
        · rfl
      exact congrArg (fun m => Except.ok { s.ledger with participants := participants, own := m })
        hown
  | next => rfl
  | previous => rfl

theorem ledger_apply (s : Submission) (a : Action) : (a.apply s).ledger = s.ledger.apply a := by
  have henter := map_ledger_enter s a
  rw [Action.apply, Ledger.apply, ← henter]
  cases a.enter s with
  | ok new => rfl
  | error e => rfl

theorem ledger_run (s : Submission) (actions : List Action) :
    (s.run actions).ledger = s.ledger.run actions := by
  induction actions generalizing s with
  | nil => rfl
  | cons a actions ih =>
      have hrest := ih (a.apply s)
      rw [ledger_apply] at hrest
      exact hrest

/-- Every participant has at most one answer of their own under a key. -/
def HoldsMaps (s : Submission) : Prop := ∀ i : Nat, (s.answersOf i).IsMap

theorem HoldsMaps.enter {a : Action} (h : s.HoldsMaps) (hnew : a.enter s = .ok t) :
    t.HoldsMaps := by
  intro i
  cases a with
  | answer name v participant => cases participant with
    | none =>
        obtain rfl := Except.ok.inj hnew
        exact h i
    | some j => cases j with
      | ofNat j =>
          rw [answersOf_of_answer hnew i]
          split
          · exact (h i).set name v
          · exact h i
      | negSucc j => nomatch hnew
  | retract name participant =>
      obtain rfl : s.retract name participant = t := Except.ok.inj hnew
      cases participant with
      | none => exact h i
      | some j => cases j with
        | ofNat j =>
            have hi : (s.retract name (some (Int.ofNat j))).answersOf i = _ :=
              answersOf_retract s name i j
            rw [hi]
            split
            · exact (h i).erase name
            · exact h i
        | negSucc j => exact h i
  | enterParticipants participants =>
      obtain rfl := Except.ok.inj hnew
      rw [answersOf_enterParticipants]
      split
      · exact h i
      · exact List.nodup_nil
  | _ =>
      obtain rfl := Except.ok.inj hnew
      exact h i

theorem HoldsMaps.apply (h : s.HoldsMaps) (a : Action) : (a.apply s).HoldsMaps := by
  rw [Action.apply]
  cases hnew : a.enter s with
  | ok new => exact h.enter hnew
  | error e => exact h

theorem HoldsMaps.run (h : s.HoldsMaps) (actions : List Action) : (s.run actions).HoldsMaps := by
  induction actions generalizing s with
  | nil => exact h
  | cons a actions ih => exact ih (h.apply a)

/-- What is read from a submission is what a ledger says: the answers of every participant, the
shared ones, and the contexts of the rules, where the answers of a participant come before the
shared ones. -/
structure ReadsAs (s : Submission) (l : Ledger) : Prop where
  answersOf : ∀ i : Nat, (s.answersOf i).get? = l.own i
  shared : s.sharedContext.answers.get? = l.shared
  answers : ∀ (i : Nat) (name : String),
    (s.contextOf i).answers.get? name = (l.own i name).or (l.shared name)
  participant : ∀ i : Nat, (s.contextOf i).participant = l.participants[i]?
  guardian : s.sharedContext.guardian = l.guardian ∧
    ∀ i : Nat, (s.contextOf i).guardian = l.guardian
  count : s.participantCount = l.participants.length

theorem HoldsMaps.readsAs (h : s.HoldsMaps) : s.ReadsAs s.ledger where
  answersOf _ := rfl
  shared := rfl
  answers i := Record.get?_merge (h i) s.shared
  participant _ := rfl
  guardian := ⟨rfl, fun _ => rfl⟩
  count := rfl

/-- After any run of actions a submission is read as the ledger that went through the same run, and
the next action is refused by both or leads both to the same answers. -/
theorem run_reads_as_ledger (s : Submission) (h : s.HoldsMaps) (actions : List Action) :
    (s.run actions).ReadsAs (s.ledger.run actions) ∧
      ∀ a : Action, ledger <$> a.enter (s.run actions) = (s.ledger.run actions).enter a := by
  rw [← ledger_run]
  constructor
  · exact (h.run actions).readsAs
  · intro a
    exact map_ledger_enter (s.run actions) a

/-- Two participants, the first of whom took the shared size back by a null. -/
def twoSizes : Submission :=
  ⟨[], [[("age", .int 10)], [("age", .int 14)]], [("size", .text "L")],
    [[("size", .null)], [("size", .text "M")]]⟩

/-- The second participant is taken away and comes back, and an answer in between is refused. -/
def regroup : List Action :=
  [.enterParticipants [[("age", .int 10)]], .answer "size" (.text "S") (some (-1)),
    .enterParticipants [[("age", .int 10)], [("age", .int 14)]]]

/-- The answers of the second participant are gone, and the null of the first one still counts. -/
theorem regroup_reads_as_ledger :
    twoSizes.HoldsMaps ∧ (twoSizes.run regroup).participantCount = 2 ∧
      ((twoSizes.run regroup).contextOf 0).answers.get? "size" = some .null ∧
      ((twoSizes.run regroup).contextOf 1).answers.get? "size" = some (.text "L") := by
  have hmaps : twoSizes.HoldsMaps := by
    have hone : ∀ v : Value, Record.IsMap [("size", v)] := fun v => by simp [Record.IsMap]
    intro i
    cases i with
    | zero => exact hone .null
    | succ i => cases i with
      | zero => exact hone (.text "M")
      | succ i => exact List.nodup_nil
  obtain ⟨hreads, -⟩ := run_reads_as_ledger twoSizes hmaps regroup
  refine ⟨hmaps, hreads.count, (hreads.answers 0 "size").trans ?_,
    (hreads.answers 1 "size").trans ?_⟩
  · rfl
  · rfl

end Submission

end ConditionalForms
