import ConditionalForms.Fault
import ConditionalForms.Number.Literal
import ConditionalForms.Yaml.Cursor

/-!
# Scalars of YAML texts

The five ways in which a text is written: plain, in single or double quotes, and as a literal or
folded block.  Every reader starts at the scalar and returns the text that it stands for and the
place behind it, if the scalar is well formed.  Only a code between double quotes may be at fault in
a way of its own.

A line end within a plain or quoted scalar is folded: a single one is read as a space, and of
several the first is dropped.
-/

namespace ConditionalForms
namespace Yaml

/-- The text that the ends of folded lines stand for: the first end, and those after it. -/
def foldedBreaks (first : Char) (more : List Char) : List Char :=
  if first ≠ '\n' then first :: more else if more.isEmpty then [' '] else more

namespace Quoted

/-- The characters that letters behind a backslash stand for. -/
def escapes : List (Char × Char) :=
  [('0', '\x00'), ('a', '\x07'), ('b', '\x08'), ('t', '\t'), ('\t', '\t'), ('n', '\n'),
   ('v', '\x0b'), ('f', '\x0c'), ('r', '\r'), ('e', '\x1b'), (' ', ' '), ('"', '"'),
   ('\\', '\\'), ('/', '/'), ('N', '\x85'), ('_', '\xa0'), ('L', '\u2028'), ('P', '\u2029')]

/-- The number of hexadecimal digits behind a letter that announces a code. -/
def codeWidth? (c : Char) : Option Nat :=
  if c = 'x' then some 2 else if c = 'u' then some 4 else if c = 'U' then some 8 else none

/-- The first half of the code of a character that is written in two halves. -/
def isHighHalf (n : Nat) : Bool := decide (0xD800 ≤ n) && decide (n < 0xDC00)

/-- The second half of the code of a character that is written in two halves. -/
def isLowHalf (n : Nat) : Bool := decide (0xDC00 ≤ n) && decide (n < 0xE000)

/-- The code that stands behind its letter, in so many digits. -/
def code? (width : Nat) (c : Cursor) : Option Nat :=
  let digits := c.rest.take width
  if digits.length < width then none else Literal.hexNumber? digits

/-- The second half of a character, if one is written by its code here, and its digits. -/
def lowHalf? (c : Cursor) : Option (Nat × Nat) :=
  match c.rest with
  | '\\' :: letter :: _ => do
      let width ← codeWidth? letter
      let n ← code? width (c.advance 2)
      if isLowHalf n then some (n, width) else none
  | _ => none

/-- The character with a code.  A half that stands alone is read as the replacement character. -/
def charOfCode (n : Nat) : Except Fault Char :=
  if 0x7FFFFFFF < n then .error .codeTooLarge
  else if 0x10FFFF < n then .error .noSuchCode
  else if isHighHalf n || isLowHalf n then .ok '\ufffd'
  else .ok (Char.ofNat n)

/-- The character written by its code, in one piece or in two halves. -/
def readCode (width : Nat) (c : Cursor) : Except Fault (Char × Cursor) :=
  match code? width c with
  | none => .error .malformedYaml
  | some n =>
      let next := c.advance width
      match if isHighHalf n then lowHalf? next else none with
      | some (low, digits) =>
          .ok (Char.ofNat (0x10000 + (n - 0xD800) * 0x400 + (low - 0xDC00)),
            next.advance (digits + 2))
      | none => do return (← charOfCode n, next)

/-- The further ends of lines and the blanks between them.  A document may not end here. -/
def readBreaks : Nat → Cursor → Except Fault (List Char × Cursor)
  | 0, _ => .error .malformedYaml
  | fuel + 1, c =>
      if c.startsSeparator then .error .malformedYaml
      else
        let c := c.skipWhile fun x => x == ' ' || x == '\t'
        match c.lineBreak? with
        | none => .ok ([], c)
        | some (b, next) => do
            let (more, last) ← readBreaks fuel next
            return (b :: more, last)

/-- The blanks within a quoted text, folded where they hold ends of lines. -/
def readBlanks (c : Cursor) : Except Fault (List Char × Cursor) :=
  let (blanks, next) := c.takeWhile fun x => x == ' ' || x == '\t'
  match next.peek with
  | none => .error .malformedYaml
  | some _ => match next.lineBreak? with
    | none => .ok (blanks, next)
    | some (b, after) => do
        let (more, last) ← readBreaks after.bound after
        return (foldedBreaks b more, last)

/-- One piece of a text in double quotes behind a backslash. -/
def readEscape (c : Cursor) : Except Fault (List Char × Cursor) :=
  match c.peek with
  | none => .error .malformedYaml
  | some x => match escapes.lookup x with
    | some y => .ok ([y], c.step)
    | none => match codeWidth? x with
      | some width => do
          let (y, next) ← readCode width c.step
          return ([y], next)
      | none => match c.lineBreak? with
        | some (_, next) => readBreaks next.bound next
        | none => .error .malformedYaml

/-- The text up to the closing quote, and the place behind it. -/
def readRest (double : Bool) : Nat → Cursor → Except Fault (List Char × Cursor)
  | 0, _ => .error .malformedYaml
  | fuel + 1, c =>
      match c.peek with
      | none => .error .malformedYaml
      | some x => do
          let mark := if double then '"' else '\''
          if x = mark ∧ (double ∨ c.peekAt 1 ≠ some '\'') then
            return ([], c.step)
          let (piece, next) ←
            if x = mark then .ok (['\''], c.advance 2)
            else if double ∧ x = '\\' then readEscape c.step
            else if endsWord (some x) then readBlanks c
            else .ok ([x], c.step)
          let (more, last) ← readRest double fuel next
          return (piece ++ more, last)

/-- A quoted text, from its opening quote on. -/
def read (double : Bool) (c : Cursor) : Except Fault (List Char × Cursor) :=
  readRest double c.bound c.step

end Quoted

namespace Plain

/-- A character ends a plain scalar, looking at the one behind it. -/
def stopsAt (inFlow : Bool) (x : Char) (next : Option Char) : Bool :=
  endsWord (some x) ||
  (x == ':' && (endsWord next ||
    (inFlow && (match next with
      | some y => y == ',' || y == '[' || y == ']' || y == '\x7b' || y == '\x7d'
      | none => false)))) ||
  (inFlow && (x == ',' || x == '?' || x == '[' || x == ']' || x == '\x7b' || x == '\x7d'))

/-- The characters up to the end of a word. -/
def word (inFlow : Bool) : List Char → List Char
  | [] => []
  | x :: rest => if stopsAt inFlow x rest.head? then [] else x :: word inFlow rest

/-- The further ends of lines, up to a line that separates documents. -/
def readBreaks : Nat → Cursor → List Char × Cursor × Bool
  | 0, c => ([], c, false)
  | fuel + 1, c =>
      let c := c.skipWhile (· == ' ')
      match c.lineBreak? with
      | none => ([], c, false)
      | some (b, next) =>
          if next.startsSeparator then ([], next, true)
          else
            let (more, last, ended) := readBreaks fuel next
            (b :: more, last, ended)

/-- The blanks behind a word: what they stand for, the place behind them, and whether a line ended
among them.  Nothing stands for them at the end of a document. -/
def readBlanks (c : Cursor) : List Char × Cursor × Bool :=
  let (blanks, next) := c.takeWhile (· == ' ')
  match next.lineBreak? with
  | none => (blanks, next, false)
  | some (b, after) =>
      if after.startsSeparator then ([], after, true)
      else
        let (more, last, ended) := readBreaks after.bound after
        (if ended then [] else foldedBreaks b more, last, true)

/-- The words of a plain scalar and the blanks between them, and whether a line ended behind the
last word. -/
def readWords (inFlow : Bool) (indent : Int) : Nat → Cursor → List Char × Cursor × Bool
  | 0, c => ([], c, false)
  | fuel + 1, c =>
      let w := word inFlow c.rest
      let (blanks, next, brokeLine) := readBlanks (c.advance w.length)
      if blanks.isEmpty || next.peek == some '#' ||
          (!inFlow && decide ((next.column : Int) < indent)) ||
          (word inFlow next.rest).isEmpty then (w, next, brokeLine)
      else
        let (more, last, broke) := readWords inFlow indent fuel next
        (w ++ blanks ++ more, last, broke)

/-- A plain scalar whose further lines are indented at least as far as `indent`. -/
def read (inFlow : Bool) (indent : Int) (c : Cursor) : List Char × Cursor × Bool :=
  readWords inFlow indent c.bound c

end Plain

namespace Block

/-- What becomes of the ends of lines at the end of a block. -/
inductive Chomping where
  | clip
  | strip
  | keep
deriving DecidableEq, Repr

/-- The indicator of what becomes of the last ends of lines. -/
def chomping? (x : Option Char) : Option Chomping :=
  if x = some '+' then some .keep else if x = some '-' then some .strip else none

/-- The indicator of the indentation: a digit. -/
def increment? (x : Option Char) : Option Nat :=
  match x with
  | some d => if Literal.isAsciiDigit d then some (Literal.digitValue d) else none
  | none => none

/-- The indicators behind the mark of a block, in either order. -/
def readIndicators (c : Cursor) : Except Fault ((Chomping × Option Nat) × Cursor) := do
  let (found, next) := match chomping? c.peek with
    | some chomping => match increment? c.step.peek with
      | some n => ((chomping, some n), c.advance 2)
      | none => ((chomping, none), c.step)
    | none => match increment? c.peek with
      | some n => match chomping? c.step.peek with
        | some chomping => ((chomping, some n), c.advance 2)
        | none => ((.clip, some n), c.step)
      | none => ((.clip, none), c)
  if found.2 = some 0 ∨ !endsLineOrSpace next.peek then .error .malformedYaml
  return (found, next)

/-- The rest of the line of the mark: blanks and a comment. -/
def readLineEnd (c : Cursor) : Except Fault Cursor :=
  let next := (c.skipWhile (· == ' ')).skipComment
  match next.lineBreak? with
  | some (_, after) => .ok after
  | none => if next.peek.isNone then .ok next else .error .malformedYaml

/-- The ends of the leading blank lines, and the greatest column that their blanks reach. -/
def readIndentation : Nat → Nat → Cursor → List Char × Nat × Cursor
  | 0, most, c => ([], most, c)
  | fuel + 1, most, c =>
      if c.peek = some ' ' then readIndentation fuel (max most (c.column + 1)) c.step
      else match c.lineBreak? with
        | none => ([], most, c)
        | some (b, next) =>
            let (more, greatest, last) := readIndentation fuel most next
            (b :: more, greatest, last)

/-- The place behind blanks, at most as far as a column. -/
def skipTo (indent : Nat) : Nat → Cursor → Cursor
  | 0, c => c
  | fuel + 1, c =>
      if c.column < indent ∧ c.peek = some ' ' then skipTo indent fuel c.step else c

/-- The ends of blank lines, and the start of the next line within the block. -/
def readBreaks (indent : Nat) : Nat → Cursor → List Char × Cursor
  | 0, c => ([], c)
  | fuel + 1, c =>
      let c := skipTo indent indent c
      match c.lineBreak? with
      | none => ([], c)
      | some (b, next) =>
          let (more, last) := readBreaks indent fuel next
          (b :: more, last)

/-- The lines of a block: its text without the last end of a line, that end, the ends of the blank
lines behind it, and the place. -/
def readLines (folded : Bool) (indent : Nat) :
    Nat → List Char → Cursor → List Char × List Char × List Char × Cursor
  | 0, breaks, c => ([], [], breaks, c)
  | fuel + 1, breaks, c =>
      if c.column ≠ indent ∨ c.peek.isNone then ([], [], breaks, c)
      else
        let isText (x : Option Char) : Bool := x ≠ some ' ' && x ≠ some '\t'
        let (line, lineEnd) := c.takeWhile (!isBreak ·)
        let (lineBreak, afterBreak) := match lineEnd.lineBreak? with
          | some (b, next) => ([b], next)
          | none => ([], lineEnd)
        let (more, next) := readBreaks indent afterBreak.bound afterBreak
        if next.column = indent ∧ next.peek.isSome then
          let joint :=
            if folded && lineBreak == ['\n'] && isText c.peek && isText next.peek then
              if more.isEmpty then [' '] else []
            else lineBreak
          let (text, lastBreak, tail, last) := readLines folded indent fuel more next
          (breaks ++ line ++ joint ++ text, lastBreak, tail, last)
        else (breaks ++ line, lineBreak, more, next)

/-- A block scalar, from its mark on, within a block of some indentation. -/
def read (folded : Bool) (parentIndent : Int) (c : Cursor) :
    Except Fault (List Char × Cursor) := do
  let ((chomping, increment), next) ← readIndicators c.step
  let first ← readLineEnd next
  let least := (max 1 (parentIndent + 1)).toNat
  let fuel := first.bound
  let (indent, breaks, start) := match increment with
    | some n =>
        let indent := least + n - 1
        let (breaks, start) := readBreaks indent fuel first
        (indent, breaks, start)
    | none =>
        let (breaks, most, start) := readIndentation fuel 0 first
        (max least most, breaks, start)
  let (text, lastBreak, tail, last) := readLines folded indent fuel breaks start
  let ending := match chomping with
    | .strip => []
    | .clip => lastBreak
    | .keep => lastBreak ++ tail
  return (text ++ ending, last)

end Block

end Yaml
end ConditionalForms
