import ConditionalForms.Json.Write
import ConditionalForms.Number.Literal

/-!
# Reading JSON

A text is read from the front; every reader returns what it read and the characters left over.
Besides the values of the format, the three names `NaN`, `Infinity` and `-Infinity` are read.  Whole
numbers are integers, numbers with a fraction or an exponent are doubles.  Of two members with one
name the later counts.

A problem is reported with the number of characters that were left where it was found, from which
its place is computed at the end.

**Definitions.**
* `Json.read`: the value of a text.
-/

namespace ConditionalForms
namespace Json

/-- What ends reading: a problem, found with some characters left, or a fault of its own. -/
inductive Stop where
  | problem (problem : JsonProblem) (left : Nat)
  | fault (fault : Fault)
deriving DecidableEq, Repr

/-- The blanks between the parts of a text. -/
def isBlank (c : Char) : Bool := c == ' ' || c == '\t' || c == '\n' || c == '\r'

/-- Leaves out blanks. -/
def skipBlanks (cs : List Char) : List Char := cs.dropWhile isBlank

/-- The character that a letter after a backslash stands for. -/
def escaped? (c : Char) : Option Char :=
  if c = '"' ∨ c = '\\' ∨ c = '/' then some c
  else if c = 'n' then some '\n'
  else if c = 'r' then some '\r'
  else if c = 't' then some '\t'
  else if c = 'f' then some '\x0c'
  else if c = 'b' then some '\x08'
  else none

/-- The second half of a character beyond U+FFFF, if one follows with a character behind it. -/
def lowHalf : List Char → Except Stop (Option (Nat × List Char))
  | '\\' :: 'u' :: a :: b :: c :: d :: e :: rest => match Literal.hexNumber? [a, b, c, d] with
    | none => .error (.problem .malformedCodeEscape (rest.length + 6))
    | some unit => .ok (if 0xDC00 ≤ unit ∧ unit < 0xE000 then some (unit, e :: rest) else none)
  | _ => .ok none

/-- A character written by its code, after the letter that announces it.  A half that stands alone
is read as the replacement character. -/
def readCode : List Char → Except Stop (Char × List Char)
  | a :: b :: c :: d :: e :: rest => match Literal.hexNumber? [a, b, c, d] with
    | none => .error (.problem .malformedCodeEscape (rest.length + 6))
    | some unit =>
        if 0xD800 ≤ unit ∧ unit < 0xDC00 then do
          match ← lowHalf (e :: rest) with
          | some (low, more) =>
              return (Char.ofNat (0x10000 + (unit - 0xD800) * 0x400 + (low - 0xDC00)), more)
          | none => return ('\ufffd', e :: rest)
        else if 0xDC00 ≤ unit ∧ unit < 0xE000 then .ok ('\ufffd', e :: rest)
        else .ok (Char.ofNat unit, e :: rest)
  | short => .error (.problem .malformedCodeEscape (short.length + 1))

/-- The rest of a text after its opening quote, where `start` characters were left.  No more than
`fuel` characters are read. -/
def readTextRest (start : Nat) : Nat → List Char → Except Stop (List Char × List Char)
  | 0, _ => .error (.problem .unterminatedString start)
  | _ + 1, [] => .error (.problem .unterminatedString start)
  | fuel + 1, c :: rest =>
      if c = '"' then .ok ([], rest)
      else if c = '\\' then
        match rest with
        | [] => .error (.problem .unterminatedString start)
        | e :: more =>
            if e = 'u' then do
              let (x, after) ← readCode more
              let (xs, left) ← readTextRest start fuel after
              return (x :: xs, left)
            else match escaped? e with
              | none => .error (.problem .unknownEscape (rest.length + 1))
              | some x => do
                  let (xs, left) ← readTextRest start fuel more
                  return (x :: xs, left)
      else if c.toNat < 32 then .error (.problem .controlCharacter (rest.length + 1))
      else do
        let (xs, left) ← readTextRest start fuel rest
        return (c :: xs, left)

/-- A text, after its opening quote. -/
def readText (cs : List Char) : Except Stop (String × List Char) := do
  let (xs, left) ← readTextRest (cs.length + 1) (cs.length + 1) cs
  return (String.ofList xs, left)

/-- Splits the digits off the front. -/
def spanDigits (cs : List Char) : List Char × List Char :=
  (cs.takeWhile Literal.isAsciiDigit, cs.dropWhile Literal.isAsciiDigit)

/-- The whole part of a number: a lone zero or digits that do not start with one. -/
def wholePart : List Char → List Char × List Char
  | '0' :: rest => (['0'], rest)
  | cs => spanDigits cs

/-- The fraction of a number with its point, if digits follow the point. -/
def fractionPart : List Char → List Char × List Char
  | '.' :: rest => match spanDigits rest with
    | ([], _) => ([], '.' :: rest)
    | (digits, more) => ('.' :: digits, more)
  | cs => ([], cs)

/-- The exponent of a number with its letter, if digits follow it. -/
def exponentPart : List Char → List Char × List Char
  | e :: rest =>
      if e = 'e' ∨ e = 'E' then
        let (sign, more) := match rest with
          | '-' :: more => (['-'], more)
          | '+' :: more => (['+'], more)
          | more => ([], more)
        match spanDigits more with
        | ([], _) => ([], e :: rest)
        | (digits, left) => (e :: sign ++ digits, left)
      else ([], e :: rest)
  | [] => ([], [])

/-- A number; `start` characters were left in front of it. -/
def readNumber (start : Nat) (cs : List Char) : Except Stop (Value × List Char) :=
  let (negative, body) := match cs with
    | '-' :: rest => (true, rest)
    | _ => (false, cs)
  let (whole, afterWhole) := wholePart body
  if whole = [] then .error (.problem .expectingValue start)
  else
    let (fraction, afterFraction) := fractionPart afterWhole
    let (exponent, left) := exponentPart afterFraction
    if fraction = [] ∧ exponent = [] then
      if Integer.digitLimit < whole.length then
        .error (.fault (.integerTooLongToRead whole.length))
      else .ok (.int (Double.signed negative (Literal.natOf whole)), left)
    else match Literal.decimal? (whole ++ fraction ++ exponent) with
      | some x => .ok (.float (Double.ofDecimal negative x), left)
      | none => .error (.problem .expectingValue start)

/-- The values that are written as names. -/
def names : List (List Char × Value) :=
  [("null".toList, .null), ("true".toList, .bool true), ("false".toList, .bool false),
   ("NaN".toList, .float .nan), ("Infinity".toList, .float (.infinite false)),
   ("-Infinity".toList, .float (.infinite true))]

/-- What is left behind a given beginning. -/
def behind? : List Char → List Char → Option (List Char)
  | [], cs => some cs
  | _ :: _, [] => none
  | b :: bs, c :: cs => if b = c then behind? bs cs else none

/-- A value that is written as a name, or a number. -/
def readAtom (cs : List Char) : Except Stop (Value × List Char) :=
  match names.findSome? fun n => (behind? n.1 cs).map fun left => (n.2, left) with
  | some found => .ok found
  | none => readNumber cs.length cs

mutual

/-- A value; blanks in front of it are left out before. -/
def readValue : Nat → List Char → Except Stop (Value × List Char)
  | 0, cs => .error (.problem .expectingValue cs.length)
  | _ + 1, [] => .error (.problem .expectingValue 0)
  | fuel + 1, c :: rest =>
      if c = '"' then do
        let (s, left) ← readText rest
        return (.text s, left)
      else if c = '[' then
        match skipBlanks rest with
        | ']' :: left => .ok (.list [], left)
        | start => do
            let (items, left) ← readItems fuel start
            return (.list items, left)
      else if c = '\x7b' then
        match skipBlanks rest with
        | '\x7d' :: left => .ok (.object [], left)
        | start => do
            let (members, left) ← readMembers fuel [] start
            return (.object members, left)
      else readAtom (c :: rest)

/-- The items of a list that is not empty, and its end. -/
def readItems : Nat → List Char → Except Stop (List Value × List Char)
  | 0, cs => .error (.problem .expectingValue cs.length)
  | fuel + 1, cs => do
      let (v, after) ← readValue fuel cs
      match skipBlanks after with
      | ']' :: left => return ([v], left)
      | ',' :: more => do
          let (vs, left) ← readItems fuel (skipBlanks more)
          return (v :: vs, left)
      | other => .error (.problem .expectingComma other.length)

/-- The members of an object that is not empty, and its end; `done` are the members before. -/
def readMembers : Nat → Record → List Char → Except Stop (Record × List Char)
  | 0, _, cs => .error (.problem .expectingName cs.length)
  | fuel + 1, done, cs => match cs with
    | '"' :: rest => do
        let (name, after) ← readText rest
        match skipBlanks after with
        | ':' :: more => do
            let (v, behind) ← readValue fuel (skipBlanks more)
            match skipBlanks behind with
            | '\x7d' :: left => return (done.set name v, left)
            | ',' :: next => readMembers fuel (done.set name v) (skipBlanks next)
            | other => .error (.problem .expectingComma other.length)
        | other => .error (.problem .expectingColon other.length)
    | other => .error (.problem .expectingName other.length)

end

/-- A whole text. -/
def readAll (cs : List Char) : Except Stop Value :=
  if cs.head? = some '\ufeff' then .error (.problem .byteOrderMark cs.length)
  else do
    let (v, after) ← readValue (2 * cs.length + 2) (skipBlanks cs)
    match skipBlanks after with
    | [] => return v
    | left => .error (.problem .extraData left.length)

/-- The place of the character at an offset. -/
def placeAt (cs : List Char) (offset : Nat) : Place :=
  let before := cs.take offset
  ⟨before.count '\n' + 1, (before.reverse.takeWhile (· ≠ '\n')).length + 1, offset⟩

/-- The value of a text. -/
def read (s : String) : Except Fault Value :=
  let cs := s.toList
  match readAll cs with
  | .ok v => .ok v
  | .error (.fault f) => .error f
  | .error (.problem p left) => .error (.malformedJson p (placeAt cs (cs.length - left)))

end Json
end ConditionalForms
