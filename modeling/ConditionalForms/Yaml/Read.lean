import ConditionalForms.Yaml.Content

/-!
# Reading YAML

A text is cut into tokens, the tokens form the node of the one document, and the content of the node
is a value.  All of the text is cut and put together before any scalar is read.

**Definitions.**
* `Yaml.read`: the value of a text; a text without a document is null.
-/

namespace ConditionalForms
namespace Yaml

/-- The value of a document. -/
def valueOfNode (n : Node) : Except Fault Value :=
  let content := Content.ofNode n
  match content.firstFault? with
  | some f => .error f
  | none => content.value

/-- The value of a text. -/
def read (s : String) : Except Fault Value := do
  match ← Node.ofTokens (Token.ofText s) with
  | none => return .null
  | some node => valueOfNode node

end Yaml
end ConditionalForms
