import ConditionalForms.Audit.Review
import ConditionalForms.Document.Text
import ConditionalForms.Example
import ConditionalForms.Fill.Session

/-!
# A walk through the library

The example form is reviewed, written as JSON, read back and filled in for two participants.  The
lines tell what every stage gives.
-/

namespace ConditionalForms
namespace Walkthrough

/-- A line of one character. -/
def ruler (c : Char) : String := String.ofList (List.replicate 80 c)

/-- A heading between rulers. -/
def heading (s : String) : List String := [ruler '=', s, ruler '=']

/-- A list of names, each in quotes. -/
def nameList (names : List String) : String :=
  "[" ++ String.intercalate ", " (names.map Text.quote) ++ "]"

/-- A list of positions. -/
def indexList (indices : List Nat) : String :=
  "[" ++ String.intercalate ", " (indices.map toString) ++ "]"

/-- A truth value in words. -/
def yesNo (b : Bool) : String := if b then "True" else "False"

/-- A text filled with blanks to a width. -/
def pad (width : Nat) (s : String) : String :=
  s ++ String.ofList (List.replicate (width - s.length) ' ')

/-- A line about something done. -/
def done (label value : String) : String := "   ✓ " ++ label ++ ": " ++ value

/-- A line about an issue. -/
def issueLine (x : Issue) : String :=
  let who := match x.participant with
    | some i => "participant " ++ toString i
    | none => "global"
  "   " ++ pad 16 x.field ++ " " ++ pad 14 x.code.name ++ " (" ++ who ++ ")"

/-- The lines about the form and its review. -/
def reviewLines (form : Form) : Except Fault (List String) := do
  let report := form.report
  let review ← form.review
  return ["", "1. BUILDING SCHEMA...", done "Form" form.name,
      done "Steps" (toString form.steps.length), done "Fields" (toString form.fields.length),
      "", "2. ANALYZING SCHEMA...",
      done "Conditional steps" (toString report.restrictedSteps),
      done "Conditional fields" (toString report.restrictedFields),
      done "Referenced fields" (nameList (sortedNames (report.usage.map Prod.fst))),
      done "Cycles detected" (yesNo report.cycle.isSome),
      done "Valid" (yesNo review.isValid)] ++
    review.warnings.map fun w => "      - " ++ w

/-- The lines about the JSON text and the form read back from it. -/
def textLines (text : String) (form : Form) : List String :=
  ["", "3. SERIALIZING...", done "JSON payload" (toString text.length ++ " characters"),
    done "Reloaded steps" (nameList (form.steps.map Step.key))]

/-- The submission at the start. -/
def opening : Submission :=
  { guardian := [("name", .text "Ada")]
    participants := [[("first_name", .text "Sam"), ("age", .int 10)],
      [("first_name", .text "Kim"), ("age", .int 14)]]
    shared := []
    own := [] }

/-- The lines about filling in the form. -/
def fillLines (form : Form) : Except Fault (List String) := do
  let start ← Session.start form opening 0
  let atFirst ← start.shownSteps
  let s := (start.perform (.answer "needs-transport" (.text "yes") none)).session
  let withTransport ← s.shownSteps
  let s := (s.perform .next).session
  let title := (s.step?.map Step.title).getD ""
  let shown ← match s.step? with
    | some step => step.shownNames s.submission
    | none => pure []
  let s := (s.perform (.answer "has-allergies" (.text "yes") (some 0))).session
  let first ← s.fields (some 0)
  let issues ← s.issues
  return ["", "4. FILLING IN...", "   Visible steps: " ++ indexList atFirst,
      "   After needs-transport=yes: " ++ indexList withTransport,
      "   Current step: " ++ title] ++
    (shown.zipIdx.map fun (names, i) =>
      "      participant " ++ toString i ++ ": " ++ nameList names) ++
    ["   After participant 0 reports allergies: " ++ nameList (first.map Field.name),
      "", "5. OUTSTANDING ANSWERS:", ruler '-'] ++
    issues.map issueLine

/-- All lines of the walk. -/
def lines : Except Fault (List String) := do
  let form := Example.registration Example.defaultProgram Example.defaultColumns
  let review ← reviewLines form
  let text ← form.toJson
  let loaded ← Form.ofJson text
  let fill ← fillLines loaded.value
  return heading "REGISTRATION FLOW DEMO: Schema → Analysis → Payload → Session" ++ review ++
    textLines text loaded.value ++ fill ++ [""] ++ heading "DEMO COMPLETE!"

end Walkthrough
end ConditionalForms
