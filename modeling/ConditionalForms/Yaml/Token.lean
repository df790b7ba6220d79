import ConditionalForms.Yaml.Scalar

/-!
# Tokens of YAML texts

A text is cut into tokens.  Besides the marks and scalars that are written there are tokens for what
only the layout tells: where block collections start and end, and where the key of a mapping starts
that has no mark of its own.  Such a key is recognised by the colon behind it; its tokens are put in
at the place that was remembered for it.

Where a text cannot be cut any further a last token holds the fault.  What stands in front of it is
only what was settled by then, because a reader of the tokens may well find a fault of its own there
first.

**Definitions.**
* `Token.ofText`: the tokens of a text.
-/

namespace ConditionalForms
namespace Yaml

/-- What a line in front of a document orders: a version of the format, or what the tags with some
handle start with.  Other directives order nothing. -/
inductive Directive where
  | version (major : Nat)
  | handle (mark start : String)
  | other
deriving DecidableEq, Repr

/-- A piece of a text. -/
inductive Token where
  | directive (d : Directive)
  | documentStart
  | documentEnd
  | blockSequenceStart
  | blockMappingStart
  | blockEnd
  | flowSequenceStart
  | flowSequenceEnd
  | flowMappingStart
  | flowMappingEnd
  | blockEntry
  | flowEntry
  | key
  | value
  | alias (name : String)
  | anchor (name : String)
  | tag (handle : Option String) (suffix : String)
  | scalar (isPlain : Bool) (text : String)
  | broken (fault : Fault)
deriving DecidableEq, Repr

/-- A place where a key without a mark may have started. -/
structure KeyPlace where
  token : Nat
  required : Bool
  offset : Nat
  line : Nat
  column : Nat

/-- How cutting stands: the place, the tokens so far with the last one first and their number, the
collections around it, and where keys without a mark may start. -/
structure Cutting where
  cursor : Cursor
  cut : List Token
  count : Nat
  flowLevel : Nat
  indent : Int
  indents : List Int
  keyAllowed : Bool
  keyPlaces : List (Nat × KeyPlace)

namespace Cutting

/-- Cutting at the start of a text. -/
def start (s : String) : Cutting :=
  let c := Cursor.start s
  ⟨if c.peek = some '\ufeff' then c.step else c, [], 0, 0, -1, [], true, []⟩

/-- The tokens so far. -/
def tokens (t : Cutting) : List Token := t.cut.reverse

/-- Adds a token. -/
def add (t : Cutting) (token : Token) : Cutting :=
  { t with cut := token :: t.cut, count := t.count + 1 }

/-- Puts in a token behind the first tokens, of which there are `place`. -/
def insert (t : Cutting) (place : Nat) (token : Token) : Cutting :=
  { t with cut := t.cut.insertIdx (t.count - place) token, count := t.count + 1 }

/-- The place within no collection in marks. -/
def inBlock (t : Cutting) : Bool := t.flowLevel == 0

/-- Leaves out blanks, comments and ends of lines; a key may start on a new line. -/
def skipToToken : Nat → Cutting → Cutting
  | 0, t => t
  | fuel + 1, t =>
      let c := (t.cursor.skipWhile (· == ' ')).skipComment
      match c.lineBreak? with
      | none => { t with cursor := c }
      | some (_, next) =>
          skipToToken fuel { t with cursor := next, keyAllowed := t.keyAllowed || t.inBlock }

/-- A place for a key is out of reach: on another line or too far back. -/
def isStale (t : Cutting) (k : KeyPlace) : Bool :=
  k.line ≠ t.cursor.line || decide (1024 < t.cursor.offset - k.offset)

/-- Forgets the places for keys that are out of reach; one that had to be a key may not be. -/
def dropStaleKeys (t : Cutting) : Except Fault Cutting :=
  if t.keyPlaces.any fun k => t.isStale k.2 && k.2.required then .error .malformedYaml
  else .ok { t with keyPlaces := t.keyPlaces.filter fun k => !t.isStale k.2 }

/-- Forgets the place for a key on the present level. -/
def dropKey (t : Cutting) : Except Fault Cutting :=
  match t.keyPlaces.lookup t.flowLevel with
  | none => .ok t
  | some k =>
      if k.required then .error .malformedYaml
      else .ok { t with keyPlaces := t.keyPlaces.filter fun p => p.1 ≠ t.flowLevel }

/-- Remembers the present place as one where a key may start. -/
def saveKey (t : Cutting) : Except Fault Cutting :=
  if t.keyAllowed then do
    let required := t.inBlock && decide (t.indent = (t.cursor.column : Int))
    let t ← t.dropKey
    let place : KeyPlace :=
      ⟨t.count, required, t.cursor.offset, t.cursor.line, t.cursor.column⟩
    return { t with keyPlaces := (t.flowLevel, place) :: t.keyPlaces }
  else .ok t

/-- Closes the block collections that are indented deeper than a column. -/
def unwind (column : Int) : Nat → Cutting → Cutting
  | 0, t => t
  | fuel + 1, t =>
      if t.inBlock ∧ column < t.indent then
        match t.indents with
        | outer :: rest =>
            unwind column fuel { t.add .blockEnd with indent := outer, indents := rest }
        | [] => t
      else t

/-- Closes the block collections that are indented deeper than a column. -/
def unwindTo (t : Cutting) (column : Int) : Cutting := unwind column (t.indents.length + 1) t

/-- Opens a block collection at a column that is indented deeper than the present one. -/
def indentTo? (t : Cutting) (column : Nat) : Option Cutting :=
  if t.indent < (column : Int) then
    some { t with indents := t.indent :: t.indents, indent := column }
  else none

/-- Moves on by some characters. -/
def advance (t : Cutting) (n : Nat) : Cutting := { t with cursor := t.cursor.advance n }

/-- A line that begins or ends a document. -/
def cutSeparator (t : Cutting) (token : Token) : Except Fault Cutting := do
  let t ← (t.unwindTo (-1)).dropKey
  return { (t.advance 3).add token with keyAllowed := false }

/-- The characters of names of directives. -/
def isNameChar (c : Char) : Bool := c.isAlphanum || c == '-' || c == '_'

/-- The characters of tags. -/
def isTagChar (c : Char) : Bool :=
  c.isAlphanum || "-;/?:@&=+$,_.!~*'()[]%".toList.contains c

/-- The version of a directive: two numbers with a point between them. -/
def readVersion (c : Cursor) : Except Fault (Directive × Cursor) :=
  let (major, afterMajor) := (c.skipWhile (· == ' ')).takeWhile Literal.isAsciiDigit
  let (minor, next) := afterMajor.step.takeWhile Literal.isAsciiDigit
  if major.isEmpty || afterMajor.peek ≠ some '.' || minor.isEmpty || !endsLineOrSpace next.peek then
    .error .malformedYaml
  else .ok (.version (Literal.natOf major), next)

/-- The handle of a directive, and behind it what its tags start with. -/
def readHandle (c : Cursor) : Except Fault (Directive × Cursor) :=
  let first := c.skipWhile (· == ' ')
  let (name, afterName) := first.step.takeWhile isNameChar
  let isLone := first.step.peek == some ' '
  let afterMark := if isLone then first.step else afterName.step
  let (start, next) := (afterMark.skipWhile (· == ' ')).takeWhile isTagChar
  if first.peek ≠ some '!' || !(isLone || afterName.peek == some '!') ||
      afterMark.peek ≠ some ' ' || start.isEmpty || !endsLineOrSpace next.peek then
    .error .malformedYaml
  else
    let mark := if isLone then "!" else String.ofList ('!' :: name ++ ['!'])
    .ok (.handle mark (String.ofList start), next)

/-- A line with a directive. -/
def cutDirective (t : Cutting) : Except Fault Cutting := do
  let t ← (t.unwindTo (-1)).dropKey
  let (name, c) := t.cursor.step.takeWhile isNameChar
  if name.isEmpty || !endsLineOrSpace c.peek then .error .malformedYaml
  let (directive, afterValue) ←
    if name = "YAML".toList then readVersion c
    else if name = "TAG".toList then readHandle c
    else .ok (.other, c.skipWhile (!isBreak ·))
  let next ← Block.readLineEnd afterValue
  return { { t with cursor := next }.add (.directive directive) with keyAllowed := false }

/-- The start of a collection in marks. -/
def cutFlowStart (t : Cutting) (token : Token) : Except Fault Cutting := do
  let t ← t.saveKey
  return { (t.advance 1).add token with flowLevel := t.flowLevel + 1, keyAllowed := true }

/-- The end of a collection in marks. -/
def cutFlowEnd (t : Cutting) (token : Token) : Except Fault Cutting := do
  let t ← t.dropKey
  return { (t.advance 1).add token with flowLevel := t.flowLevel - 1, keyAllowed := false }

/-- The comma between entries of a collection in marks. -/
def cutFlowEntry (t : Cutting) : Except Fault Cutting := do
  let t ← { t with keyAllowed := true }.dropKey
  return (t.advance 1).add .flowEntry

/-- Opens a block collection at the present column, if it is indented deeper. -/
def openBlock (t : Cutting) (token : Token) : Cutting :=
  match t.indentTo? t.cursor.column with
  | some deeper => deeper.add token
  | none => t

/-- The dash in front of an entry of a sequence. -/
def cutBlockEntry (t : Cutting) : Except Fault Cutting := do
  if t.inBlock && !t.keyAllowed then .error .malformedYaml
  let t := if t.inBlock then t.openBlock .blockSequenceStart else t
  let t ← { t with keyAllowed := true }.dropKey
  return (t.advance 1).add .blockEntry

/-- The mark in front of a key. -/
def cutKey (t : Cutting) : Except Fault Cutting := do
  if t.inBlock && !t.keyAllowed then .error .malformedYaml
  let t := if t.inBlock then t.openBlock .blockMappingStart else t
  let t ← { t with keyAllowed := t.inBlock }.dropKey
  return (t.advance 1).add .key

/-- The colon in front of a value.  Where a key without a mark may have started on this level, it
did. -/
def cutValue (t : Cutting) : Except Fault Cutting :=
  match t.keyPlaces.lookup t.flowLevel with
  | some k =>
      let keyed := { t.insert k.token .key with
        keyPlaces := t.keyPlaces.filter fun p => p.1 ≠ t.flowLevel
        keyAllowed := false }
      let opened := if t.inBlock then
          match keyed.indentTo? k.column with
          | some deeper => deeper.insert k.token .blockMappingStart
          | none => keyed
        else keyed
      .ok ((opened.advance 1).add .value)
  | none => do
      if t.inBlock && !t.keyAllowed then .error .malformedYaml
      let t := if t.inBlock then t.openBlock .blockMappingStart else t
      let t ← { t with keyAllowed := t.inBlock }.dropKey
      return (t.advance 1).add .value

/-- The name behind the mark of an anchor or an alias. -/
def cutName (t : Cutting) (token : String → Token) : Except Fault Cutting := do
  let t ← t.saveKey
  let (name, c) := t.cursor.step.takeWhile isNameChar
  let ends := endsWord c.peek || (match c.peek with
    | some x => ['?', ':', ',', ']', '\x7d', '%', '@', '\x60'].contains x
    | none => true)
  if name.isEmpty || !ends then .error .malformedYaml
  return { { t with cursor := c }.add (token (String.ofList name)) with keyAllowed := false }

/-- A tag: a complete one in angle brackets, the lone mark, or a suffix behind a handle. -/
def readTag (c : Cursor) : Except Fault (Token × Cursor) :=
  match c.peekAt 1 with
  | some '<' =>
      let (suffix, next) := (c.advance 2).takeWhile isTagChar
      if suffix.isEmpty || next.peek ≠ some '>' then .error .malformedYaml
      else .ok (.tag none (String.ofList suffix), next.step)
  | x =>
      if endsWord x then .ok (.tag none "!", c.step)
      else
        let (handle, afterHandle) := c.step.takeWhile isNameChar
        let (mark, body) := if afterHandle.peek = some '!'
          then (String.ofList ('!' :: handle ++ ['!']), afterHandle.step)
          else ("!", c.step)
        let (suffix, next) := body.takeWhile isTagChar
        if suffix.isEmpty then .error .malformedYaml
        else .ok (.tag (some mark) (String.ofList suffix), next)

/-- A tag in front of a node. -/
def cutTag (t : Cutting) : Except Fault Cutting := do
  let t ← t.saveKey
  let (token, c) ← readTag t.cursor
  if !endsLineOrSpace c.peek then .error .malformedYaml
  return { { t with cursor := c }.add token with keyAllowed := false }

/-- A block scalar. -/
def cutBlock (t : Cutting) (folded : Bool) : Except Fault Cutting := do
  let t ← { t with keyAllowed := true }.dropKey
  let (text, c) ← Block.read folded t.indent t.cursor
  return { t with cursor := c }.add (.scalar false (String.ofList text))

/-- A quoted scalar. -/
def cutQuoted (t : Cutting) (double : Bool) : Except Fault Cutting := do
  let t ← t.saveKey
  let (text, c) ← Quoted.read double t.cursor
  return { { t with cursor := c }.add (.scalar false (String.ofList text)) with
    keyAllowed := false }

/-- A plain scalar. -/
def cutPlain (t : Cutting) : Except Fault Cutting := do
  let t ← t.saveKey
  let (text, c, brokeLine) := Plain.read (!t.inBlock) (t.indent + 1) t.cursor
  return { { t with cursor := c }.add (.scalar true (String.ofList text)) with
    keyAllowed := brokeLine }

/-- The characters that a plain scalar cannot start with. -/
def indicators : List Char := "-?:,[]\x7b\x7d#&*!|>'\"%@\x60".toList

/-- A plain scalar can start here. -/
def startsPlain (t : Cutting) (x : Char) : Bool :=
  (!endsWord (some x) && !indicators.contains x) ||
    (!endsWord (t.cursor.peekAt 1) && (x == '-' || (t.inBlock && (x == '?' || x == ':'))))

/-- Cuts the token that starts with a character. -/
def cutToken (t : Cutting) (x : Char) : Except Fault Cutting :=
  let c := t.cursor
  let endsMark := endsWord (c.peekAt 1)
  if x = '%' ∧ c.column = 0 then t.cutDirective
  else if c.column = 0 ∧ c.startsMarker '-' then t.cutSeparator .documentStart
  else if c.column = 0 ∧ c.startsMarker '.' then t.cutSeparator .documentEnd
  else if x = '[' then t.cutFlowStart .flowSequenceStart
  else if x = '\x7b' then t.cutFlowStart .flowMappingStart
  else if x = ']' then t.cutFlowEnd .flowSequenceEnd
  else if x = '\x7d' then t.cutFlowEnd .flowMappingEnd
  else if x = ',' then t.cutFlowEntry
  else if x = '-' ∧ endsMark then t.cutBlockEntry
  else if x = '?' ∧ (!t.inBlock ∨ endsMark) then t.cutKey
  else if x = ':' ∧ (!t.inBlock ∨ endsMark) then t.cutValue
  else if x = '*' then t.cutName .alias
  else if x = '&' then t.cutName .anchor
  else if x = '!' then t.cutTag
  else if x = '|' ∧ t.inBlock then t.cutBlock false
  else if x = '>' ∧ t.inBlock then t.cutBlock true
  else if x = '\'' then t.cutQuoted false
  else if x = '"' then t.cutQuoted true
  else if t.startsPlain x then t.cutPlain
  else .error .malformedYaml

/-- Cuts the next token.  At the end of the text only the ends of blocks are left. -/
def cutNext (t : Cutting) : Except Fault Cutting := do
  let t ← (skipToToken t.cursor.bound t).dropStaleKeys
  let t := t.unwindTo t.cursor.column
  match t.cursor.peek with
  | none => (t.unwindTo (-1)).dropKey
  | some x => t.cutToken x

/-- The tokens that no later one can come in front of: those before the first place where a key may
still have started. -/
def settled (t : Cutting) : List Token :=
  let places := t.keyPlaces.filter fun k => !t.isStale k.2
  t.tokens.take (places.foldl (fun n k => min n k.2.token) t.count)

/-- Cuts all tokens.  Every token but the ends of blocks takes at least one character.  A fault ends
the tokens that were settled before it. -/
def cutAll : Nat → Cutting → List Token
  | 0, t => t.tokens
  | fuel + 1, t => match t.cutNext with
    | .error f => t.settled ++ [.broken f]
    | .ok next => if t.cursor.rest.isEmpty then next.tokens else cutAll fuel next

end Cutting

namespace Token

/-- The characters that may occur in a text. -/
def isAllowed (c : Char) : Bool :=
  let n := c.toNat
  n == 0x09 || n == 0x0A || n == 0x0D || n == 0x85 || (decide (0x20 ≤ n) && decide (n ≤ 0x7E)) ||
    (decide (0xA0 ≤ n) && decide (n ≤ 0xD7FF)) || (decide (0xE000 ≤ n) && decide (n ≤ 0xFFFD)) ||
    decide (0x10000 ≤ n)

/-- The tokens of a text. -/
def ofText (s : String) : List Token :=
  if s.toList.all isAllowed then Cutting.cutAll (s.length + 2) (Cutting.start s)
  else [.broken .malformedYaml]

end Token

end Yaml
end ConditionalForms
