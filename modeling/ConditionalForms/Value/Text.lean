import ConditionalForms.Number.Integer
import ConditionalForms.Number.Layout
import ConditionalForms.Text.Quoted
import ConditionalForms.Value.Basic

/-!
# Text of values

Three texts of a value.  `literal` writes it as a literal, texts in quotes; `plainText` is the same
except that a text stands for itself; `answerText` is the form an answer is shown in and typed in:
null is empty, truth values are lower case words, whole numbers have no decimal point and the items
of a list are joined by commas.

Only an integer beyond the digit limit makes writing fail.
-/

namespace ConditionalForms

/-- A key written as a literal. -/
def Key.literal : Key → Except Fault String
  | .text s => .ok (Text.quote s)
  | .null => .ok "None"
  | .bool b => .ok (if b then "True" else "False")
  | .int n => Integer.write n
  | .float x => .ok (Layout.plain.write x)
  | .date d => .ok d.literal

namespace Value

mutual

/-- A value written as a literal. -/
def literal : Value → Except Fault String
  | .null => Key.literal .null
  | .bool b => Key.literal (.bool b)
  | .int n => Key.literal (.int n)
  | .float x => Key.literal (.float x)
  | .text s => Key.literal (.text s)
  | .date d => Key.literal (.date d)
  | .list items => do
      let parts ← literals items
      return "[" ++ String.intercalate ", " parts ++ "]"
  | .object members => do
      let parts ← memberLiterals members
      return "\x7b" ++ String.intercalate ", " parts ++ "\x7d"

/-- The literals of the items of a list. -/
def literals : List Value → Except Fault (List String)
  | [] => .ok []
  | v :: rest => do
      let part ← literal v
      let parts ← literals rest
      return part :: parts

/-- The literals of the members of an object. -/
def memberLiterals : List (Key × Value) → Except Fault (List String)
  | [] => .ok []
  | (k, v) :: rest => do
      let name ← k.literal
      let part ← literal v
      let parts ← memberLiterals rest
      return (name ++ ": " ++ part) :: parts

end

/-- A value as running text: a text as it is, a date by its digits, all else as a literal. -/
def plainText : Value → Except Fault String
  | .text s => .ok s
  | .date d => .ok d.text
  | v => v.literal

mutual

/-- A value as an answer is shown and typed. -/
def answerText : Value → Except Fault String
  | .null => .ok ""
  | .bool b => .ok (if b then "true" else "false")
  | .float x => match x.integer? with
    | some n => Integer.write n
    | none => .ok (Layout.plain.write x)
  | .list items => do
      let parts ← answerTexts items
      return String.intercalate "," parts
  | .int n => Integer.write n
  | .text s => .ok s
  | .object members => literal (.object members)
  | .date d => .ok d.text

/-- The answer texts of the items of a list. -/
def answerTexts : List Value → Except Fault (List String)
  | [] => .ok []
  | v :: rest => do
      let part ← answerText v
      let parts ← answerTexts rest
      return part :: parts

end

end Value

end ConditionalForms
