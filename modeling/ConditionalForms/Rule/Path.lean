import ConditionalForms.Number.Integer
import ConditionalForms.Text.Blank
import ConditionalForms.Value.Basic

/-!
# Paths into answers

A context holds what rules may look at: the guardian, the participant in question and the answers.
A path is a text of segments joined by dots.  Its first segment may be one of the three roots; any
other path starts at the answers, where a name equal to the whole path comes first.

**Results.**
* `resolve` finds the value at a path; what cannot be reached is null.
* `referencedField?` is the name of the answer that a path points at, if it points at one.
-/

namespace ConditionalForms

/-- What a rule may look at. -/
structure Context where
  guardian : Record
  participant : Option Record
  answers : Record

namespace Context

/-- The context of a participant whose own answers come before the shared ones. -/
def forParticipant (guardian : Record) (participant : Option Record) (shared own : Record) :
    Context :=
  ⟨guardian, participant, shared.merge own⟩

end Context

/-- The roots that a path can start from. -/
inductive Root where
  | guardian
  | participant
  | answers
deriving DecidableEq, Repr

namespace Root

/-- The root of a name. -/
def ofName? (s : String) : Option Root :=
  if s = "guardian" then some .guardian
  else if s = "participant" then some .participant
  else if s = "answers" then some .answers
  else none

end Root

namespace Context

/-- What a context holds at a root, null for a participant that is not given. -/
def atRoot (ctx : Context) : Root → Value
  | .guardian => .object ctx.guardian
  | .participant => match ctx.participant with
    | some p => .object p
    | none => .null
  | .answers => .object ctx.answers

/-- What a context holds under the name of a root; other names hold nothing. -/
def atName (ctx : Context) (name : String) : Value :=
  match Root.ofName? name with
  | some r => ctx.atRoot r
  | none => .null

end Context

namespace Path

/-- Splits at every separator; there is one part more than there are separators. -/
def splitList (separator : Char) : List Char → List (List Char)
  | [] => [[]]
  | c :: cs =>
      if c = separator then [] :: splitList separator cs
      else match splitList separator cs with
        | part :: parts => (c :: part) :: parts
        | [] => [[c]]

/-- The segments of a path. -/
def segments (path : String) : List String :=
  (splitList '.' path.toList).map String.ofList

/-- One step into a value: a member of an object, or an item of a list under its index. -/
def descend (v : Value) (key : String) : Except Fault Value :=
  match v with
  | .object members => .ok (Record.get members key)
  | .list items =>
      if Text.isNumeral key then do
        let index ← Integer.readNumeral key
        return (items[index.toNat]?).getD .null
      else .ok .null
  | _ => .ok .null

/-- Follows segments one by one; nothing is below null. -/
def walk : Value → List String → Except Fault Value
  | v, [] => .ok v
  | .null, _ :: _ => .ok .null
  | v, key :: rest => do walk (← descend v key) rest

/-- The value at a path. -/
def resolve (path : String) (ctx : Context) : Except Fault Value :=
  if path = "" then .ok .null
  else match segments path with
    | [] => .ok .null
    | first :: rest => match Root.ofName? first with
      | some root => walk (ctx.atRoot root) rest
      | none => match ctx.answers.get? path with
        | some v => .ok v
        | none => walk (.object ctx.answers) (first :: rest)

/-- The name of the answer that a path points at.  Paths into the guardian or the participant point
at no answer, and blanks around a path do not count. -/
def referencedField? (path : String) : Option String :=
  match segments (Text.trim path) with
  | [] => none
  | first :: rest =>
      let name := match Root.ofName? first with
        | some .answers => rest.head?.getD ""
        | some _ => ""
        | none => first
      if name = "" then none else some name

end Path

namespace Path

/-- The value at a path that is given as a value; what is no text leads nowhere. -/
def resolveValue (path : Value) (ctx : Context) : Except Fault Value :=
  match path with
  | .text s => resolve s ctx
  | _ => .ok .null

/-- The answer that a path given as a value points at. -/
def referencedFieldOfValue? : Value → Option String
  | .text s => referencedField? s
  | _ => none

end Path

end ConditionalForms
