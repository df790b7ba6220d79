import ConditionalForms.Text.Printable

/-!
# Quoted text

A text is quoted in single quotes, or in double quotes when it holds a single quote and no double
one.  The quote in use and the backslash are escaped by a backslash, tab, line feed and carriage
return by their letters, and every other unprintable character by its code in two, four or eight
hexadecimal digits.
-/

namespace ConditionalForms
namespace Text

/-- The lowercase hexadecimal digits of `n`, padded with zeros to `width`. -/
def hex (width n : Nat) : List Char :=
  let digits := Nat.toDigits 16 n
  List.replicate (width - digits.length) '0' ++ digits

/-- One character between quotes of the kind `mark`. -/
def quoteChar (mark c : Char) : List Char :=
  if c = mark ∨ c = '\\' then ['\\', c]
  else if c = '\t' then ['\\', 't']
  else if c = '\n' then ['\\', 'n']
  else if c = '\r' then ['\\', 'r']
  else if isPrintable c then [c]
  else if c.toNat < 0x100 then '\\' :: 'x' :: hex 2 c.toNat
  else if c.toNat < 0x10000 then '\\' :: 'u' :: hex 4 c.toNat
  else '\\' :: 'U' :: hex 8 c.toNat

/-- The kind of quotes a text is put into. -/
def quoteMark (s : String) : Char :=
  if s.toList.contains '\'' && !s.toList.contains '"' then '"' else '\''

/-- A text in quotes. -/
def quote (s : String) : String :=
  let mark := quoteMark s
  String.ofList (mark :: s.toList.flatMap (quoteChar mark) ++ [mark])

end Text
end ConditionalForms
