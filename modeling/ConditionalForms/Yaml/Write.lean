import ConditionalForms.Value.Text
import ConditionalForms.Yaml.Implicit

/-!
# Writing YAML

A value is written in blocks, with the members of objects in ascending order of their names.  Items
of a list within an object stand at the column of its name; everything else is indented by two.
Empty lists and objects are written in marks.

A text is written plain where it would be read as itself again, and otherwise in single quotes, or
in double quotes where it holds characters other than printable ASCII and ends of lines.  Lines are
not folded.

**Definitions.**
* `Yaml.write`: the text of a value.  Only an integer beyond the digit limit has none.
-/

namespace ConditionalForms
namespace Yaml

/-- The features of a text that decide how it may be written. -/
structure Features where
  /-- It starts like something else, or holds marks that end a plain scalar. -/
  hasIndicators : Bool
  /-- It holds ends of lines. -/
  isMultiline : Bool
  /-- It holds characters that have to be written by their codes. -/
  hasSpecial : Bool
  /-- It starts or ends with a blank. -/
  hasOuterBlank : Bool
  /-- An end of a line has a space behind it. -/
  hasIndentedLine : Bool
  /-- A space has an end of a line behind it. -/
  hasTrailingSpace : Bool

namespace Features

/-- The ends of lines in a text to be written. -/
def isLineEnd (c : Char) : Bool := c == '\n' || c == '\x85' || c == '\u2028' || c == '\u2029'

/-- The end of the text, a blank or the end of a line. -/
def endsWord : Option Char → Bool
  | none => true
  | some c => c == ' ' || c == '\t' || c == '\r' || c == '\x00' || isLineEnd c

/-- The marks that a plain text cannot start with. -/
def leadingMarks : List Char := "#,[]\x7b\x7d&*!|>'\"%@\x60".toList

/-- The text starts like something else. -/
def startsMarked (cs : List Char) : Bool :=
  cs.take 3 == ['-', '-', '-'] || cs.take 3 == ['.', '.', '.'] ||
  (match cs with
    | [] => false
    | c :: rest => leadingMarks.contains c ||
        ((c == '?' || c == ':' || c == '-') && endsWord rest.head?))

/-- A mark within the text would end a plain scalar; `before` is the character in front. -/
def holdsMarks (before : Char) : List Char → Bool
  | [] => false
  | c :: rest => (c == ':' && endsWord rest.head?) || (c == '#' && endsWord (some before)) ||
      holdsMarks c rest

/-- Two neighbours of given kinds. -/
def hasPair (p q : Char → Bool) : List Char → Bool
  | c :: d :: rest => (p c && q d) || hasPair p q (d :: rest)
  | _ => false

/-- A blank or the end of a line. -/
def isOuter (c : Option Char) : Bool :=
  match c with
  | some x => x == ' ' || isLineEnd x
  | none => false

/-- The features of a text. -/
def ofText (s : String) : Features :=
  let cs := s.toList
  { hasIndicators := startsMarked cs || (match cs with
      | c :: rest => holdsMarks c rest
      | [] => false)
    isMultiline := cs.any isLineEnd
    hasSpecial := cs.any fun c => c ≠ '\n' && (decide (c.toNat < 0x20) || decide (0x7E < c.toNat))
    hasOuterBlank := isOuter cs.head? || isOuter cs.getLast?
    hasIndentedLine := hasPair isLineEnd (· == ' ') cs
    hasTrailingSpace := hasPair (· == ' ') isLineEnd cs }

/-- The text may be written plain. -/
def allowsPlain (x : Features) : Bool :=
  !x.hasIndicators && !x.isMultiline && !x.hasSpecial && !x.hasOuterBlank && !x.hasIndentedLine &&
    !x.hasTrailingSpace

/-- The text may be written in single quotes. -/
def allowsSingle (x : Features) : Bool :=
  !x.hasSpecial && !x.hasIndentedLine && !x.hasTrailingSpace

end Features

/-- The ways in which a text is written. -/
inductive Style where
  | plain
  | single
  | double
deriving DecidableEq, Repr

/-- The way in which a text is written; within a key there are no ends of lines. -/
def styleOf (inKey : Bool) (s : String) : Style :=
  let x := Features.ofText s
  if x.allowsPlain && Implicit.ofText s == .text && s ≠ "" then .plain
  else if x.allowsSingle && !(inKey && x.isMultiline) then .single
  else .double

/-- Spaces. -/
def spaces (n : Nat) : List Char := List.replicate n ' '

/-- The characters between single quotes: a quote is doubled, and a run of ends of lines takes one
more, with the indentation behind it. -/
def singleQuoted (indent : Nat) : List Char → List Char
  | [] => []
  | c :: rest =>
      if c = '\'' then '\'' :: '\'' :: singleQuoted indent rest
      else if c = '\n' then
        if rest.head? = some '\n' then '\n' :: singleQuoted indent rest
        else '\n' :: '\n' :: spaces indent ++ singleQuoted indent rest
      else c :: singleQuoted indent rest

/-- The characters that are written as letters behind a backslash. -/
def escapes : List (Char × Char) :=
  [('\x00', '0'), ('\x07', 'a'), ('\x08', 'b'), ('\t', 't'), ('\n', 'n'), ('\x0b', 'v'),
   ('\x0c', 'f'), ('\r', 'r'), ('\x1b', 'e'), ('"', '"'), ('\\', '\\'), ('\x85', 'N'),
   ('\xa0', '_'), ('\u2028', 'L'), ('\u2029', 'P')]

/-- The upper case hexadecimal digits of a number, padded with zeros to a width. -/
def upperHex (width n : Nat) : List Char := (Text.hex width n).map Char.toUpper

/-- A character between double quotes. -/
def doubleQuoted (c : Char) : List Char :=
  match escapes.lookup c with
  | some letter => ['\\', letter]
  | none =>
      if 0x20 ≤ c.toNat ∧ c.toNat ≤ 0x7E then [c]
      else if c.toNat ≤ 0xFF then '\\' :: 'x' :: upperHex 2 c.toNat
      else if c.toNat ≤ 0xFFFF then '\\' :: 'u' :: upperHex 4 c.toNat
      else '\\' :: 'U' :: upperHex 8 c.toNat

/-- A text as a scalar whose further lines are indented by `indent`. -/
def textScalar (inKey : Bool) (indent : Nat) (s : String) : List Char :=
  match styleOf inKey s with
  | .plain => s.toList
  | .single => '\'' :: singleQuoted indent s.toList ++ ['\'']
  | .double => '"' :: s.toList.flatMap doubleQuoted ++ ['"']

/-- The name of a member fits in front of a colon: it is not empty, has a single line, and takes
fewer than 128 characters together with the five of its tag, which is left out. -/
def isShortKey (s : String) : Bool :=
  decide (s.length + 5 < 128) && s ≠ "" && !(Features.ofText s).isMultiline

/-- Lines with the indentation in front of all but the first. -/
def stack (indent : Nat) : List (List Char) → List Char
  | [] => []
  | [part] => part
  | part :: rest => part ++ '\n' :: spaces indent ++ stack indent rest

/-- A written value: on one line, or as a block of lines that starts at some column. -/
inductive Written where
  | inline (text : List Char)
  | block (indent : Nat) (text : List Char)

namespace Written

/-- The text behind a mark that leaves the place at the start of the block. -/
def text : Written → List Char
  | .inline text => text
  | .block _ text => text

/-- The text behind a colon: on the same line, or as a block on the next one. -/
def behindColon : Written → List Char
  | .inline text => ' ' :: text
  | .block indent text => '\n' :: spaces indent ++ text

end Written

/-- A key to be written: the text that it is sorted by, the scalar, and whether the scalar fits in
front of a colon. -/
structure WrittenKey where
  name : String
  scalar : List Char
  isShort : Bool

namespace WrittenKey

/-- A name as the key of a member at a column. -/
def ofName (indent : Nat) (s : String) : WrittenKey :=
  ⟨s, textScalar (isShortKey s) (indent + 2) s, isShortKey s⟩

/-- A scalar that needs no quotes as a key. -/
def ofPlain (s : String) : WrittenKey := ⟨s, s.toList, true⟩

/-- The key of a member at a column. -/
def ofKey (indent : Nat) : Key → Except Fault WrittenKey
  | .text s => .ok (ofName indent s)
  | .null => .ok (ofPlain "null")
  | .bool b => .ok (ofPlain (if b then "true" else "false"))
  | .int n => do return ofPlain (← Integer.write n)
  | .float x => .ok (ofPlain (Layout.yaml.write x))
  | .date d => .ok (ofPlain d.text)

end WrittenKey

/-- A member of an object at a column.  A key that does not fit in front of a colon takes a mark of
its own, and the value then stands on the line of its colon. -/
def memberText (indent : Nat) (k : WrittenKey) (w : Written) : List Char :=
  if k.isShort then k.scalar ++ ':' :: w.behindColon
  else '?' :: ' ' :: k.scalar ++ '\n' :: spaces indent ++ ':' :: ' ' :: w.text

/-- Written members in ascending order of their names. -/
def sortMembers (members : List (WrittenKey × Written)) : List (WrittenKey × Written) :=
  members.mergeSort fun m n => decide (m.1.name ≤ n.1.name)

/-- The items of a list as a block, or the marks of an empty list. -/
def listText (indent : Nat) (parts : List (List Char)) : Written :=
  if parts.isEmpty then .inline "[]".toList else .block indent (stack indent parts)

/-- The members of an object as a block, or the marks of an empty object. -/
def objectText (indent : Nat) (parts : List (WrittenKey × Written)) : Written :=
  if parts.isEmpty then .inline "\x7b\x7d".toList
  else .block indent (stack indent ((sortMembers parts).map fun m => memberText indent m.1 m.2))

mutual

/-- A value that starts at a column. -/
def encode (indent : Nat) : Value → Except Fault Written
  | .null => .ok (.inline "null".toList)
  | .bool b => .ok (.inline (if b then "true".toList else "false".toList))
  | .int n => do return .inline (← Integer.write n).toList
  | .float x => .ok (.inline (Layout.yaml.write x).toList)
  | .text s => .ok (.inline (textScalar false indent s))
  | .date d => .ok (.inline d.text.toList)
  | .list items => do return listText indent (← encodeItems indent items)
  | .object members => do return objectText indent (← encodeMembers indent members)

/-- The items of a list at a column, each behind its dash. -/
def encodeItems (indent : Nat) : List Value → Except Fault (List (List Char))
  | [] => .ok []
  | v :: rest => do
      let part ← encode (indent + 2) v
      let parts ← encodeItems indent rest
      return ('-' :: ' ' :: part.text) :: parts

/-- The members of an object at a column.  A list stands at the column of its key if it can. -/
def encodeMembers (indent : Nat) : List (Key × Value) → Except Fault (List (WrittenKey × Written))
  | [] => .ok []
  | (k, v) :: rest => do
      let key ← WrittenKey.ofKey indent k
      let part ← match v with
        | .list items =>
            let column := if key.isShort then indent else indent + 2
            do pure (listText column (← encodeItems column items))
        | v => encode (indent + 2) v
      let parts ← encodeMembers indent rest
      return (key, part) :: parts

end

/-- A scalar that has no end of its own, which a whole text must mark. -/
def isOpenScalar : Value → Bool
  | .list _ => false
  | .object _ => false
  | .text s => styleOf false s == .plain
  | _ => true

/-- The text of a value. -/
def write (v : Value) : Except Fault String := do
  let indent := match v with
    | .list _ => 0
    | .object _ => 0
    | _ => 2
  let text := (← encode indent v).text
  return String.ofList (text ++ if isOpenScalar v then "\n...\n".toList else ['\n'])

end Yaml
end ConditionalForms
