import ConditionalForms.Form.Basic

/-!
# An example form

The registration of children for a summer camp, in four steps: the guardian, every participant,
transport if it is needed, and consent.  The school is asked of participants older than twelve, and
details of allergies of those who have some.
-/

namespace ConditionalForms
namespace Example

/-- A group of one rule. -/
def onlyIf (path : String) (op : Operator) (operand : String) : Option RuleGroup :=
  some ⟨.all, [⟨path, op, .text operand⟩]⟩

/-- The step about the guardian. -/
def guardianStep (columns : Int) : Step :=
  { id := "guardian", key := "guardian", title := "Guardian details", description := "",
    perParticipant := false, columns := columns, logic := none,
    fields :=
      [{ Field.plain "f-phone" "contact-phone" "Contact phone" with
          kind := .tel, required := true, maxLength := some 15, span := 1 },
       { Field.plain "f-transport" "needs-transport" "Needs transport" with
          kind := .radio, options := ["yes", "no"], required := true, span := 1 }] }

/-- The step about every participant. -/
def participantStep (columns : Int) : Step :=
  { id := "participant", key := "participant", title := "Participant details", description := "",
    perParticipant := true, columns := columns, logic := none,
    fields :=
      [{ Field.plain "f-size" "tshirt-size" "T-shirt size" with
          kind := .select, options := ["S", "M", "L"], required := true, span := 1 },
       { Field.plain "f-school" "school-name" "School name" with
          required := true, span := columns, logic := onlyIf "participant.age" .greater "12" },
       { Field.plain "f-allergies" "has-allergies" "Has allergies" with
          kind := .radio, options := ["yes", "no"], span := 1 },
       { Field.plain "f-allergy-details" "allergy-details" "Allergy details" with
          kind := .textarea, required := true, span := columns,
          logic := onlyIf "answers.has-allergies" .equals "yes" }] }

/-- The step about transport. -/
def transportStep (columns : Int) : Step :=
  { id := "transport", key := "transport", title := "Transport", description := "",
    perParticipant := false, columns := columns,
    logic := onlyIf "needs-transport" .equals "yes",
    fields :=
      [{ Field.plain "f-pickup" "pickup-point" "Pickup point" with
          kind := .select, options := ["North gate", "Station"], required := true,
          span := columns },
       { Field.plain "f-seats" "seats" "Seats needed" with
          kind := .number, minValue := some (.int 1), maxValue := some (.int 6), span := 1 }] }

/-- The step about consent. -/
def consentStep : Step :=
  { id := "consent", key := "consent", title := "Consent", description := "",
    perParticipant := false, columns := 1, logic := none,
    fields :=
      [{ Field.plain "f-consent" "consent" "I agree to the camp rules" with
          kind := .checkbox, options := ["agree"], required := true, span := 1 }] }

/-- The registration form of a program, in a grid of some columns. -/
def registration (program : String) (columns : Int) : Form :=
  { name := "Summer Camp Registration"
    description := "Register your children for this year's camp"
    program := program
    columns := columns
    steps := [guardianStep columns, participantStep columns, transportStep columns, consentStep] }

/-- The program of the example. -/
def defaultProgram : String := "7"

/-- The columns of the example. -/
def defaultColumns : Int := 2

end Example
end ConditionalForms
