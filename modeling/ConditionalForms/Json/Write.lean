import ConditionalForms.Text.Quoted
import ConditionalForms.Value.Text

/-!
# Writing JSON

A value is written on one line, with the members of objects in ascending order of their names and
one space after every comma and colon.  Texts hold ASCII only: every other character is written by
its code, in two halves beyond U+FFFF.  Doubles are written with the fewest digits that read back.

**Definitions.**
* `Json.write`: the text of a value.  Only an integer beyond the digit limit has none.
-/

namespace ConditionalForms
namespace Json

/-- The code of a character in units of sixteen bits. -/
def codeUnits (c : Char) : List Nat :=
  if c.toNat < 0x10000 then [c.toNat]
  else
    let n := c.toNat - 0x10000
    [0xD800 + n / 0x400, 0xDC00 + n % 0x400]

/-- A character written by its code. -/
def escapeCode (c : Char) : List Char :=
  (codeUnits c).flatMap fun u => '\\' :: 'u' :: Text.hex 4 u

/-- A character within a text. -/
def escape (c : Char) : List Char :=
  if c = '"' then ['\\', '"']
  else if c = '\\' then ['\\', '\\']
  else if c = '\n' then ['\\', 'n']
  else if c = '\r' then ['\\', 'r']
  else if c = '\t' then ['\\', 't']
  else if c = '\x0c' then ['\\', 'f']
  else if c = '\x08' then ['\\', 'b']
  else if 32 ≤ c.toNat ∧ c.toNat ≤ 126 then [c]
  else escapeCode c

/-- A text in quotes. -/
def encodeText (s : String) : List Char :=
  '"' :: s.toList.flatMap escape ++ ['"']

/-- Parts with a comma and a space between them. -/
def separate : List (List Char) → List Char
  | [] => []
  | [part] => part
  | part :: rest => part ++ ',' :: ' ' :: separate rest

/-- The name that a key is written as: a single value that is no text gives its own text. -/
def nameOfKey : Key → Except Fault String
  | .text s => .ok s
  | .null => .ok "null"
  | .bool b => .ok (if b then "true" else "false")
  | .int n => Integer.write n
  | .float x => .ok (Layout.json.write x)
  | .date d => .ok d.text

/-- Written members in ascending order of their names. -/
def sortMembers (members : List (String × List Char)) : List (String × List Char) :=
  members.mergeSort fun m n => decide (m.1 ≤ n.1)

mutual

/-- The characters of the text of a value. -/
def encode : Value → Except Fault (List Char)
  | .null => .ok "null".toList
  | .bool b => .ok (if b then "true".toList else "false".toList)
  | .int n => do return (← Integer.write n).toList
  | .float x => .ok (Layout.json.write x).toList
  | .text s => .ok (encodeText s)
  | .date d => .ok (encodeText d.text)
  | .list items => do
      let parts ← encodeItems items
      return '[' :: separate parts ++ [']']
  | .object members => do
      let parts ← encodeMembers members
      return '\x7b' :: separate ((sortMembers parts).map fun m =>
        encodeText m.1 ++ ':' :: ' ' :: m.2) ++ ['\x7d']

/-- The texts of the items of a list. -/
def encodeItems : List Value → Except Fault (List (List Char))
  | [] => .ok []
  | v :: rest => do
      let part ← encode v
      let parts ← encodeItems rest
      return part :: parts

/-- The texts of the members of an object, under their names. -/
def encodeMembers : List (Key × Value) → Except Fault (List (String × List Char))
  | [] => .ok []
  | (k, v) :: rest => do
      let name ← nameOfKey k
      let part ← encode v
      let parts ← encodeMembers rest
      return (name, part) :: parts

end

/-- The text of a value. -/
def write (v : Value) : Except Fault String := do
  return String.ofList (← encode v)

end Json
end ConditionalForms
