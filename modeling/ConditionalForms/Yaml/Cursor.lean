/-!
# Places in a YAML text

A cursor is what is left of a text together with the place reached: the offset, the line and the
column, all from zero, and the number of characters of the whole text.  Looking beyond the end of
the text gives nothing.
-/

namespace ConditionalForms
namespace Yaml

/-- A place in a text. -/
structure Cursor where
  rest : List Char
  offset : Nat
  line : Nat
  column : Nat
  size : Nat

/-- The characters that end a line. -/
def isBreak (c : Char) : Bool :=
  c == '\n' || c == '\r' || c == '\x85' || c == '\u2028' || c == '\u2029'

/-- The end of the text or of a line, or a space. -/
def endsLineOrSpace : Option Char → Bool
  | none => true
  | some c => isBreak c || c == ' '

/-- The end of the text or of a line, a space or a tab. -/
def endsWord : Option Char → Bool
  | none => true
  | some c => isBreak c || c == ' ' || c == '\t'

namespace Cursor

/-- The start of a text. -/
def start (s : String) : Cursor := ⟨s.toList, 0, 0, 0, s.length⟩

/-- More than the number of steps that any loop over the rest of the text takes. -/
def bound (c : Cursor) : Nat := c.size + 1

/-- The next character. -/
def peek (c : Cursor) : Option Char := c.rest.head?

/-- The character some places ahead. -/
def peekAt (c : Cursor) (n : Nat) : Option Char := c.rest[n]?

/-- The place behind the next character. -/
def step (c : Cursor) : Cursor :=
  match c.rest with
  | [] => c
  | x :: rest =>
      if (isBreak x && x ≠ '\r') || (x == '\r' && rest.head? ≠ some '\n') then
        { c with rest := rest, offset := c.offset + 1, line := c.line + 1, column := 0 }
      else if x = '\ufeff' then { c with rest := rest, offset := c.offset + 1 }
      else { c with rest := rest, offset := c.offset + 1, column := c.column + 1 }

/-- The place some characters ahead. -/
def advance (c : Cursor) : Nat → Cursor
  | 0 => c
  | n + 1 => c.step.advance n

/-- The longest run of characters that pass a test, and the place behind it. -/
def takeWhile (c : Cursor) (p : Char → Bool) : List Char × Cursor :=
  let run := c.rest.takeWhile p
  (run, c.advance run.length)

/-- The place behind the longest run of characters that pass a test. -/
def skipWhile (c : Cursor) (p : Char → Bool) : Cursor := (c.takeWhile p).2

/-- The place behind the end of a line, with the character that the end is read as; absent when no
line ends here. -/
def lineBreak? (c : Cursor) : Option (Char × Cursor) :=
  match c.rest with
  | '\r' :: '\n' :: _ => some ('\n', c.advance 2)
  | x :: _ =>
      if x = '\u2028' ∨ x = '\u2029' then some (x, c.step)
      else if isBreak x then some ('\n', c.step)
      else none
  | [] => none

/-- The place behind a comment, if one starts here. -/
def skipComment (c : Cursor) : Cursor :=
  if c.peek = some '#' then c.skipWhile (!isBreak ·) else c

/-- The three given characters stand here, with the end of a word behind them. -/
def startsMarker (c : Cursor) (mark : Char) : Bool :=
  c.rest.take 3 == [mark, mark, mark] && endsWord (c.peekAt 3)

/-- A line that separates documents starts here. -/
def startsSeparator (c : Cursor) : Bool := c.startsMarker '-' || c.startsMarker '.'

end Cursor

end Yaml
end ConditionalForms
