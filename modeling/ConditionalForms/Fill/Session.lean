import ConditionalForms.Fill.Issue

/-!
# Sessions

A session is one submission of a form in progress, standing at one of its steps.  After every entry
it settles on a step that is shown.  The entry itself is kept even if a rule that it brings into
play cannot be evaluated; the session then stays where it stands.
-/

namespace ConditionalForms

/-- A submission in progress. -/
structure Session where
  form : Form
  submission : Submission
  index : Int

/-- What can be done in a session. -/
inductive Action where
  | answer (name : String) (v : Value) (participant : Option Int)
  | retract (name : String) (participant : Option Int)
  | enterGuardian (guardian : Record)
  | enterParticipants (participants : List Record)
  | next
  | previous

/-- The session after an action, the step that a move led to, and the notices given. -/
structure Outcome where
  session : Session
  moved : Except Fault (Option Int)
  notices : List String

namespace Session

/-- A session that starts as near to a position as possible. -/
def start (form : Form) (sub : Submission) (index : Int) : Except Fault Session := do
  return ⟨form, sub, ← form.settle sub index⟩

/-- The step that the session stands at. -/
def step? (s : Session) : Option Step := itemAt? s.form.steps s.index

/-- The notice about a step that is no longer shown. -/
def hiddenNotice (before after : Int) : String :=
  "Current step " ++ Integer.decimalText before ++ " became hidden; showing step " ++
    Integer.decimalText after

/-- Puts a submission in place of the present one and settles. -/
def replace (s : Session) (sub : Submission) : Outcome :=
  match s.form.settle sub s.index with
  | .ok i =>
      ⟨{ s with submission := sub, index := i }, .ok none,
        if i = s.index then [] else [hiddenNotice s.index i]⟩
  | .error e => ⟨{ s with submission := sub }, .error e, []⟩

/-- Moves to a position that may fail to be found. -/
def moveTo (s : Session) : Except Fault Int → Outcome
  | .ok i => ⟨{ s with index := i }, .ok (some i), []⟩
  | .error e => ⟨s, .error e, []⟩

/-- Does one action. -/
def perform (s : Session) : Action → Outcome
  | .answer name v participant => match s.submission.answer name v participant with
    | .ok sub => s.replace sub
    | .error e => ⟨s, .error e, []⟩
  | .retract name participant => s.replace (s.submission.retract name participant)
  | .enterGuardian guardian => s.replace (s.submission.enterGuardian guardian)
  | .enterParticipants participants => s.replace (s.submission.enterParticipants participants)
  | .next => s.moveTo (s.form.nextShown s.submission s.index)
  | .previous => s.moveTo (s.form.previousShown s.submission s.index)

/-- The session after a run of actions. -/
def run (s : Session) (actions : List Action) : Session :=
  actions.foldl (fun s a => (s.perform a).session) s

/-- The steps that are shown. -/
def shownSteps (s : Session) : Except Fault (List Nat) := s.form.shownSteps s.submission

/-- The fields of the present step that are shown, to a participant or to all. -/
def fields (s : Session) (participant : Option Nat) : Except Fault (List Field) :=
  match s.step? with
  | some step => step.shownFields s.submission participant
  | none => .ok []

/-- The participants that the present step is shown to, if it is one for every participant. -/
def participants (s : Session) : Except Fault (List Nat) :=
  match s.step? with
  | some step => if step.perParticipant then step.shownTo s.submission else .ok []
  | none => .ok []

/-- There is a shown step ahead. -/
def hasNext (s : Session) : Except Fault Bool := do
  return (← s.form.nextShown s.submission s.index) ≠ s.index

/-- There is a shown step behind. -/
def hasPrevious (s : Session) : Except Fault Bool := do
  return (← s.form.previousShown s.submission s.index) ≠ s.index

/-- The present step is shown. -/
def isShown (s : Session) : Except Fault Bool :=
  match s.step? with
  | some step => step.isShown s.submission
  | none => .ok false

/-- The issues of the present submission. -/
def issues (s : Session) : Except Fault (List Issue) := s.form.issues s.submission

end Session

/-- What a session shows of itself. -/
structure Snapshot where
  index : Int
  key : Option String
  shownSteps : List Nat
  fields : List String
  fieldsByParticipant : List (List String)
  participants : List Nat
  hasNext : Bool
  hasPrevious : Bool
  isShown : Bool

/-- A snapshot of a session. -/
def Session.snapshot (s : Session) : Except Fault Snapshot := do
  let shownSteps ← s.shownSteps
  let fields ← s.fields none
  let byParticipant ← (List.range s.submission.participantCount).mapM fun i => do
    return (← s.fields (some i)).map Field.name
  let participants ← s.participants
  let hasNext ← s.hasNext
  let hasPrevious ← s.hasPrevious
  let isShown ← s.isShown
  return ⟨s.index, s.step?.map Step.key, shownSteps, fields.map Field.name, byParticipant,
    participants, hasNext, hasPrevious, isShown⟩

end ConditionalForms
