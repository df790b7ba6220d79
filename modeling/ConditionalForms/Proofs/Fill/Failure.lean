import ConditionalForms.Proofs.Fill.Cursor

/-!
# Actions that fail

An action of a session fails in one of two ways.  Its entry is refused, or a move finds a rule that
cannot be evaluated: then nothing has happened.  Or the entry is accepted and the session cannot
settle in what it brings about: then the entry stays, and the session stands where it stood.

**Definitions.**
* `Action.enter`: the submission that an action asks for.
* `Action.apply`: the submission after an action, whether it fails or not.
* `Session.InRange`: the session stands at a step of its form, which may be hidden.

**Results.**
* `Session.perform_submission`: what was entered does not depend on any rule.
* `Session.session_of_failed_action`: all that an action that fails does.
* `Session.failed_action_not_undone`: an entry that brings a fault about is not taken back.
* `Session.run_submission`, `Session.InRange.run`: what a run keeps, whatever fails in it.
-/

namespace ConditionalForms

namespace Action

/-- The submission that an action asks for, unless its entry is refused.  Moves enter nothing. -/
def enter : Action → Submission → Except Fault Submission
  | .answer name v participant, sub => sub.answer name v participant
  | .retract name participant, sub => .ok (sub.retract name participant)
  | .enterGuardian guardian, sub => .ok (sub.enterGuardian guardian)
  | .enterParticipants participants, sub => .ok (sub.enterParticipants participants)
  | .next, sub => .ok sub
  | .previous, sub => .ok sub

/-- The submission after an action: a refused entry changes nothing. -/
def apply (a : Action) (sub : Submission) : Submission :=
  match a.enter sub with
  | .ok new => new
  | .error _ => sub

/-- The action moves the session and enters nothing. -/
def isMove : Action → Bool
  | .next => true
  | .previous => true
  | _ => false

theorem apply_of_isMove {a : Action} (h : a.isMove = true) (sub : Submission) :
    a.apply sub = sub := by
  cases a with
  | next => rfl
  | previous => rfl
  | _ => simp [isMove] at h

end Action

/-- Every text has a numeric form, if only a NaN. -/
theorem Value.exists_measure_text (s : String) : ∃ x, (Value.text s).measure = .ok x := by
  simp only [Value.measure]
  split
  · exact ⟨_, rfl⟩
  · split <;> exact ⟨_, rfl⟩

namespace Session

variable {s : Session} {a : Action} {e : Fault}

theorem replace_form (s : Session) (sub : Submission) : (s.replace sub).session.form = s.form := by
  unfold replace
  split <;> rfl

theorem replace_submission (s : Session) (sub : Submission) :
    (s.replace sub).session.submission = sub := by
  unfold replace
  split <;> rfl

theorem replace_of_error {sub : Submission} (h : (s.replace sub).moved = .error e) :
    s.form.settle sub s.index = .error e ∧ (s.replace sub).session = { s with submission := sub } := by
  unfold replace at h ⊢
  cases hi : s.form.settle sub s.index with
  | ok i => simp [hi] at h
  | error e' =>
      simp only [hi, Except.error.injEq] at h
      exact ⟨by rw [h], rfl⟩

theorem moveTo_of_error {target : Except Fault Int} (h : (s.moveTo target).moved = .error e) :
    (s.moveTo target).session = s := by
  cases target with
  | ok i => simp [moveTo] at h
  | error _ => rfl

/-- An action that enters something puts its submission in place of the present one. -/
theorem perform_eq_replace {sub : Submission} (hmove : a.isMove = false)
    (h : a.enter s.submission = .ok sub) : s.perform a = s.replace sub := by
  cases a with
  | answer name v participant =>
      have hsub : s.submission.answer name v participant = .ok sub := h
      simp only [perform, hsub]
  | next => simp [Action.isMove] at hmove
  | previous => simp [Action.isMove] at hmove
  | _ =>
      obtain rfl := Except.ok.inj h
      rfl

theorem perform_of_refused (h : a.enter s.submission = .error e) :
    s.perform a = ⟨s, .error e, []⟩ := by
  cases a with
  | answer name v participant =>
      have hsub : s.submission.answer name v participant = .error e := h
      simp only [perform, hsub]
  | _ => simp [Action.enter] at h

theorem perform_of_isMove (hmove : a.isMove = true) :
    ∃ target, s.perform a = s.moveTo target := by
  cases a with
  | next => exact ⟨_, rfl⟩
  | previous => exact ⟨_, rfl⟩
  | _ => simp [Action.isMove] at hmove

theorem perform_form (s : Session) (a : Action) : (s.perform a).session.form = s.form := by
  cases hmove : a.isMove with
  | true =>
      obtain ⟨target, htarget⟩ := perform_of_isMove (s := s) hmove
      rw [htarget]
      cases target <;> rfl
  | false => cases hsub : a.enter s.submission with
    | error e => rw [perform_of_refused hsub]
    | ok sub => rw [perform_eq_replace hmove hsub, replace_form]

/-- What was entered does not depend on whether a rule can be evaluated. -/
theorem perform_submission (s : Session) (a : Action) :
    (s.perform a).session.submission = a.apply s.submission := by
  cases hmove : a.isMove with
  | true =>
      obtain ⟨target, htarget⟩ := perform_of_isMove (s := s) hmove
      rw [htarget, Action.apply_of_isMove hmove]
      cases target <;> rfl
  | false => cases hsub : a.enter s.submission with
    | error e => rw [perform_of_refused hsub, Action.apply, hsub]
    | ok sub => rw [perform_eq_replace hmove hsub, replace_submission, Action.apply, hsub]

/-- The session stands at a step of its form, whether the step is shown or not. -/
structure InRange (s : Session) : Prop where
  nonneg : 0 ≤ s.index
  inRange : s.form.steps ≠ [] → s.index < s.form.steps.length
  zero : s.form.steps = [] → s.index = 0

theorem StandsAt.toInRange (h : s.StandsAt) : s.InRange := ⟨h.nonneg, h.inRange, h.zero⟩

theorem InRange.moveTo {target : Except Fault Int} (here : s.InRange)
    (h : ∀ i, target = .ok i → i = s.index ∨ ∃ v : Nat, i = v ∧ v < s.form.steps.length) :
    (s.moveTo target).session.InRange := by
  cases target with
  | error e => exact here
  | ok i =>
      rcases h i rfl with rfl | ⟨v, rfl, hv⟩
      · exact here
      · constructor
        · exact Int.natCast_nonneg v
        · intro _
          exact Int.ofNat_lt.mpr hv
        · intro hnil
          have hempty : s.form.steps = [] := hnil
          rw [hempty] at hv
          exact absurd hv (Nat.not_lt_zero v)

theorem InRange.replace (here : s.InRange) (sub : Submission) :
    (s.replace sub).session.InRange := by
  unfold Session.replace
  cases hi : s.form.settle sub s.index with
  | error e => exact ⟨here.nonneg, here.inRange, here.zero⟩
  | ok i =>
      have hstand : Session.StandsAt { s with submission := sub, index := i } :=
        Form.standsAt_of_settle hi
      exact hstand.toInRange

/-- An action keeps the position in range, whether it fails or not. -/
theorem InRange.perform (here : s.InRange) (a : Action) : (s.perform a).session.InRange := by
  cases hmove : a.isMove with
  | false => cases hsub : a.enter s.submission with
    | error e =>
        rw [perform_of_refused hsub]
        exact here
    | ok sub =>
        rw [perform_eq_replace hmove hsub]
        exact here.replace sub
  | true => cases a with
    | next =>
        refine here.moveTo fun i hi => ?_
        rcases Form.nextShown_cases hi with ⟨v, rfl, _, hv, _⟩ | ⟨rfl, _⟩
        · exact Or.inr ⟨v, rfl, hv⟩
        · exact Or.inl rfl
    | previous =>
        refine here.moveTo fun i hi => ?_
        rcases Form.previousShown_cases hi with ⟨v, rfl, _, hv, _⟩ | ⟨rfl, _⟩
        · exact Or.inr ⟨v, rfl, hv⟩
        · exact Or.inl rfl
    | _ => simp [Action.isMove] at hmove

/-- After a run of actions the position is in range, whatever failed on the way. -/
theorem InRange.run (here : s.InRange) (actions : List Action) : (s.run actions).InRange := by
  induction actions generalizing s with
  | nil => exact here
  | cons a actions ih => exact ih (here.perform a)

/-- What a run enters does not depend on which of its actions fail over a rule. -/
theorem run_submission (s : Session) (actions : List Action) :
    (s.run actions).submission = actions.foldl (fun sub a => a.apply sub) s.submission := by
  induction actions generalizing s with
  | nil => rfl
  | cons a actions ih =>
      have hrest := ih (s.perform a).session
      rw [perform_submission] at hrest
      exact hrest

/-- An action that fails leaves the session where it stands.  If its entry is refused or it is a
move, the session is as it was; otherwise the entry stays, and it is settling that failed. -/
theorem session_of_failed_action (h : (s.perform a).moved = .error e) :
    (s.perform a).session = { s with submission := a.apply s.submission } ∧
      ((a.isMove = true ∨ a.enter s.submission = .error e) ∧ (s.perform a).session = s ∨
        ∃ sub, a.isMove = false ∧ a.enter s.submission = .ok sub ∧
          s.form.settle sub s.index = .error e ∧ (s.perform a).session.submission = sub) := by
  cases hmove : a.isMove with
  | true =>
      obtain ⟨target, htarget⟩ := perform_of_isMove (s := s) hmove
      rw [htarget] at h ⊢
      have hsame := moveTo_of_error h
      rw [hsame, Action.apply_of_isMove hmove]
      exact ⟨rfl, Or.inl ⟨Or.inl rfl, rfl⟩⟩
  | false => cases hsub : a.enter s.submission with
    | error e' =>
        rw [perform_of_refused hsub] at h ⊢
        obtain rfl := Except.error.inj h
        rw [Action.apply, hsub]
        exact ⟨rfl, Or.inl ⟨Or.inr rfl, rfl⟩⟩
    | ok sub =>
        rw [perform_eq_replace hmove hsub] at h ⊢
        obtain ⟨hsettle, hsession⟩ := replace_of_error h
        rw [hsession, Action.apply, hsub]
        exact ⟨rfl, Or.inr ⟨sub, rfl, rfl, hsettle, rfl⟩⟩

/-- The rule that asks for more than twelve years. -/
def overTwelve : Rule := ⟨"age", .greater, .text "12"⟩

/-- A form of one step that asks for the school of everyone older than twelve. -/
def schoolForm : Form :=
  { name := "Trip", description := "", program := "7", columns := 1
    steps :=
      [{ id := "details", key := "details", title := "Details", description := ""
         perParticipant := false, columns := 1, logic := none
         fields :=
          [{ Field.plain "f-school" "school" "School" with
              span := 1, logic := some ⟨.all, [overTwelve]⟩ },
           { Field.plain "f-age" "age" "Age" with kind := .number, span := 1 }] }] }

/-- An age beyond the finite doubles. -/
def endlessAge : Value := .int (10 ^ 309)

theorem resolve_age (answers : Record) :
    Path.resolve "age" ⟨[], none, answers⟩ = .ok (answers.get "age") := by
  have hsegments : Path.segments "age" = ["age"] := by decide +kernel
  cases h : answers.get? "age" <;>
    simp [Path.resolve, hsegments, Root.ofName?, h, Path.walk, Path.descend, Record.get]

theorem holds_overTwelve_nil : overTwelve.holds ⟨[], none, []⟩ = .ok false := by
  obtain ⟨x, hx⟩ := Value.exists_measure_text "12"
  have hnone : (Record.get [] "age").measure = .ok .nan := rfl
  simp only [overTwelve, Rule.holds, resolve_age, ok_bind, Operator.apply, Value.compareMeasures,
    hnone, hx]
  cases x <;> rfl

theorem measure_endlessAge : endlessAge.measure = .error .integerBeyondDouble := by
  have hbig : Double.ofInt? (10 ^ 309) = none := by decide +kernel
  simp only [endlessAge, Value.measure, Integer.toDouble, hbig]

theorem holds_overTwelve_endlessAge :
    overTwelve.holds ⟨[], none, [(.text "age", endlessAge)]⟩ = .error .integerBeyondDouble := by
  have hage : Record.get [(.text "age", endlessAge)] "age" = endlessAge := by
    rw [Record.get, Record.get?_cons, if_pos rfl, Option.getD_some]
  simp only [overTwelve, Rule.holds, resolve_age, ok_bind, Operator.apply, Value.compareMeasures,
    hage, measure_endlessAge]
  rfl

theorem start_schoolForm : start schoolForm .empty 0 = .ok ⟨schoolForm, .empty, 0⟩ := by
  have hsettle : schoolForm.settle .empty 0 = .ok 0 := by
    simp [Form.settle, schoolForm, Form.showsStep, Step.isShown, Step.isShownIn,
      RuleGroup.allows, anyOf, Field.isShown, Field.plain, RuleGroup.holds,
      Submission.sharedContext, Submission.empty, holds_overTwelve_nil]
  rw [start, hsettle]
  rfl

theorem moved_endlessAge :
    (perform ⟨schoolForm, .empty, 0⟩ (.answer "age" endlessAge none)).moved =
      .error .integerBeyondDouble := by
  have hsettle : schoolForm.settle ⟨[], [], [(.text "age", endlessAge)], []⟩ 0 =
      .error .integerBeyondDouble := by
    simp [Form.settle, schoolForm, Form.showsStep, Step.isShown, Step.isShownIn,
      RuleGroup.allows, anyOf, Field.isShown, Field.plain, RuleGroup.holds,
      Submission.sharedContext, holds_overTwelve_endlessAge]
    rfl
  simp [perform, Submission.answer, Submission.empty, Record.set, replace, hsettle]

/-- The age that cannot be compared is kept, and the session stands where it stood. -/
theorem session_of_endlessAge :
    (perform ⟨schoolForm, .empty, 0⟩ (.answer "age" endlessAge none)).moved =
        .error .integerBeyondDouble ∧
      (perform ⟨schoolForm, .empty, 0⟩ (.answer "age" endlessAge none)).session =
        ⟨schoolForm, ⟨[], [], [(.text "age", endlessAge)], []⟩, 0⟩ :=
  ⟨moved_endlessAge, (session_of_failed_action moved_endlessAge).1⟩

/-- An action that fails need not leave the session as it was. -/
theorem failed_action_not_undone :
    ¬ ∀ (form : Form) (sub : Submission) (index : Int) (s : Session) (a : Action) (e : Fault),
      start form sub index = .ok s → (s.perform a).moved = .error e → (s.perform a).session = s := by
  intro hundone
  have hsame := hundone _ _ _ _ _ _ start_schoolForm moved_endlessAge
  have hcount := congrArg (fun s => s.submission.shared.length) hsame
  rw [perform_submission] at hcount
  simp [Action.apply, Action.enter, Submission.answer, Submission.empty, Record.set] at hcount

end Session

end ConditionalForms
