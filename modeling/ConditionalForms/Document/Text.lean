import ConditionalForms.Document.Load
import ConditionalForms.Json.Read
import ConditionalForms.Yaml.Read
import ConditionalForms.Yaml.Write

/-!
# Forms as texts

A form is written as the JSON or the YAML text of its document and read back from it.
-/

namespace ConditionalForms
namespace Form

/-- The JSON text of a form. -/
def toJson (form : Form) : Except Fault String := do
  Json.write (.object (← form.toDocument))

/-- The form of a JSON text. -/
def ofJson (text : String) : Except Fault (Loaded Form) := do
  ofDocument (← Json.read text)

/-- The YAML text of a form. -/
def toYaml (form : Form) : Except Fault String := do
  Yaml.write (.object (← form.toDocument))

/-- The form of a YAML text. -/
def ofYaml (text : String) : Except Fault (Loaded Form) := do
  ofDocument (← Yaml.read text)

end Form
end ConditionalForms
