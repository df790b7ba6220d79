import ConditionalForms.Value.Basic
import ConditionalForms.Yaml.Implicit
import ConditionalForms.Yaml.Node

/-!
# Content of YAML texts

What the nodes of a document say: every scalar has a value or a fault, and every mapping has the
entries that its merge entries bring in, in front of its own.  Tags beyond those of the format's own
scalars and collections are refused.

A document is gone through from the outside in: all of a collection before what is within the
collections that it holds.  So of several faults the one nearest to the outside counts, and of those
equally near the first.

**Definitions.**
* `Content.ofNode`: the content of a node.
* `Content.firstFault?`: the fault that counts.
* `Content.value`: the value of content without faults.
-/

namespace ConditionalForms
namespace Yaml

/-- What a node says.  Where a collection would hold itself its content is cut off. -/
inductive Content where
  | scalar (value : Except Fault Value)
  | sequence (items : List Content)
  | mapping (entries : List (Except Fault Key × Content))
  | cutOff

/-- The entry of a mapping: the key, unless it is at fault, and the content of the value. -/
abbrev Entry := Except Fault Key × Content

namespace Content

/-- The name of a tag of the format. -/
def coreName? (tag : String) : Option String :=
  if Node.coreTag.toList.isPrefixOf tag.toList then
    some (String.ofList (tag.toList.drop Node.coreTag.length))
  else none

/-- The thing of a kind that a scalar is written as. -/
def scalarOfKind (kind : Implicit) (s : String) : Except Fault Value :=
  match kind with
  | .text => .ok (.text s)
  | .null => .ok .null
  | .bool => .ok (.bool (Implicit.readTruth s))
  | .int => do return .int (← Implicit.readInteger s)
  | .float => do return .float (← Implicit.readDouble s)
  | .date => do return .date (← Implicit.readDate s)
  | .merge => .error .malformedYaml
  | .default => .error .malformedYaml

/-- A whole number that is written in base ten or sixty. -/
def isDecimal (s : String) : Bool :=
  s.toList.all fun c => Implicit.isDigitOrGap c || c == ':' || c == '+' || c == '-'

/-- The kind of a scalar with the name of a tag, which must be written like one. -/
def kindOfName (name s : String) : Except Fault Implicit :=
  let kind := Implicit.ofText s
  if name = "str" then .ok .text
  else if name = "null" then .ok .null
  else if name = "int" ∧ kind = .int then .ok .int
  else if name = "float" ∧ (kind = .float ∨ (kind = .int ∧ isDecimal s)) then .ok .float
  else if name = "bool" ∧ kind = .bool then .ok .bool
  else if name = "timestamp" ∧ kind = .date then .ok .date
  else .error .malformedYaml

/-- The value of a scalar. -/
def scalarValue (tag : Option String) (isPlain : Bool) (s : String) : Except Fault Value :=
  if isPlain then scalarOfKind (Implicit.ofText s) s
  else match tag with
    | none => .ok (.text s)
    | some t => match coreName? t with
      | some name => do scalarOfKind (← kindOfName name s) s
      | none => .error .malformedYaml

/-- A collection may carry a tag. -/
def acceptsTag (name : String) (tag : Option String) : Bool :=
  match tag with
  | none => true
  | some t => t == "!" || t == Node.coreTag ++ name

/-- The plain scalar of a key that asks for a merge. -/
def mergeMark : String := "<<"

/-- The plain scalar that names the default, and as a key stands for itself. -/
def defaultMark : String := "="

/-- The key of an entry: the value of a scalar. -/
def keyOf : Node → Except Fault Key
  | .scalar tag isPlain s =>
      if isPlain && s == defaultMark then .ok (.text s)
      else do
        match (← scalarValue tag isPlain s).key? with
        | some k => return k
        | none => .error .malformedYaml
  | _ => .error .malformedYaml

/-- The node of a key that asks for a merge. -/
def isMergeKey : Node → Bool
  | .scalar _ isPlain s => isPlain && s == mergeMark
  | _ => false

/-- Content that is at fault. -/
def refused : Content := .scalar (.error .malformedYaml)

/-- The entries of a mapping whose merge entries bring in what is no mapping: a fault in front of
all else. -/
def unmerged : List Entry := [(.error .malformedYaml, refused)]

mutual

/-- The content of a node. -/
def ofNode : Node → Content
  | .scalar tag isPlain s => .scalar (scalarValue tag isPlain s)
  | .sequence tag items =>
      if acceptsTag "seq" tag then .sequence (ofNodes items) else refused
  | .mapping tag entries =>
      if acceptsTag "map" tag then
        .mapping (match splitEntries entries with
          | some (merged, own) => merged ++ own
          | none => unmerged)
      else refused
  | .enclosing => .cutOff

/-- The contents of nodes. -/
def ofNodes : List Node → List Content
  | [] => []
  | n :: rest => ofNode n :: ofNodes rest

/-- The entries that the merge entries of a mapping bring in, and its own. -/
def splitEntries : List (Node × Node) → Option (List Entry × List Entry)
  | [] => some ([], [])
  | (k, n) :: rest => do
      if isMergeKey k then
        let brought ← broughtBy n
        let (merged, own) ← splitEntries rest
        return (brought ++ merged, own)
      else
        let (merged, own) ← splitEntries rest
        return (merged, (keyOf k, ofNode n) :: own)

/-- The entries that the value of a merge entry brings in: those of a mapping, or those of the
mappings of a sequence, the last of which count least. -/
def broughtBy : Node → Option (List Entry)
  | .scalar _ _ _ => none
  | .sequence _ items => do return (← broughtByItems items).reverse.flatten
  | .mapping _ entries => do
      let (merged, own) ← splitEntries entries
      return merged ++ own
  | .enclosing => some []

/-- The entries that the items of a sequence bring in, each of which must be a mapping. -/
def broughtByItems : List Node → Option (List (List Entry))
  | [] => some []
  | .mapping _ entries :: rest => do
      let (merged, own) ← splitEntries entries
      let others ← broughtByItems rest
      return (merged ++ own) :: others
  | .enclosing :: rest => broughtByItems rest
  | _ :: _ => none

end

/-- The fault of a scalar. -/
def faultOf : Content → List Fault
  | .scalar (.error f) => [f]
  | _ => []

/-- The faults of an entry: that of its key, and that of its value. -/
def faultsOfEntry (e : Entry) : List Fault :=
  (match e.1 with
    | .error f => [f]
    | .ok _ => []) ++ faultOf e.2

/-- Two lists of levels as one, level by level. -/
def besides : List (List Fault) → List (List Fault) → List (List Fault)
  | xs :: more, ys :: others => (xs ++ ys) :: besides more others
  | [], others => others
  | more, [] => more

mutual

/-- The faults within a collection, by their distance from the outside. -/
def levels : Content → List (List Fault)
  | .scalar _ => []
  | .sequence items => items.flatMap faultOf :: levelsOfItems items
  | .mapping entries => entries.flatMap faultsOfEntry :: levelsOfEntries entries
  | .cutOff => []

/-- The faults within the items of a sequence. -/
def levelsOfItems : List Content → List (List Fault)
  | [] => []
  | c :: rest => besides (levels c) (levelsOfItems rest)

/-- The faults within the values of entries. -/
def levelsOfEntries : List (Except Fault Key × Content) → List (List Fault)
  | [] => []
  | (_, c) :: rest => besides (levels c) (levelsOfEntries rest)

end

/-- The fault that counts: the first one of those nearest to the outside. -/
def firstFault? (c : Content) : Option Fault := (faultOf c ++ (levels c).flatten).head?

mutual

/-- The value of content; where it is cut off stands null. -/
def value : Content → Except Fault Value
  | .scalar v => v
  | .sequence items => do return .list (← values items)
  | .mapping entries => do return .object (← valueOfEntries [] entries)
  | .cutOff => .ok .null

/-- The values of the items of a sequence. -/
def values : List Content → Except Fault (List Value)
  | [] => .ok []
  | c :: rest => do
      let v ← value c
      let vs ← values rest
      return v :: vs

/-- The members that entries give, behind those given already; of two entries with one key the later
counts. -/
def valueOfEntries (done : Record) : List (Except Fault Key × Content) → Except Fault Record
  | [] => .ok done
  | (k, c) :: rest => do
      let key ← k
      let v ← value c
      valueOfEntries (done.set key v) rest

end

end Content

end Yaml
end ConditionalForms
