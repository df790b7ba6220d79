import ConditionalForms.Yaml.Token

/-!
# Nodes of YAML texts

The tokens of a text form a tree of scalars, sequences and mappings, each of which may carry a tag.
A node may be given a name by an anchor; an alias stands for the node of that name.

Tokens are looked at one by one from the front.  So the first thing that is wrong decides about the
fault: either the tokens do not fit together, or the text could not be cut any further.

**Definitions.**
* `Node.ofTokens`: the node of the one document that some tokens hold.
-/

namespace ConditionalForms
namespace Yaml

/-- A node of a document.  A plain scalar may stand for something else than a text.  An alias may
name a collection that it stands in; its content ends there. -/
inductive Node where
  | scalar (tag : Option String) (isPlain : Bool) (text : String)
  | sequence (tag : Option String) (items : List Node)
  | mapping (tag : Option String) (entries : List (Node × Node))
  | enclosing

instance : Inhabited Node := ⟨.scalar none true ""⟩

/-- The names given so far.  A collection that is still being read has its name, but is no node
yet. -/
abbrev Named := List (String × Option Node)

/-- Something read from the front of some tokens: it, the tokens behind it, and the names given by
then. -/
abbrev Parsed (α : Type) := α × List Token × Named

namespace Named

/-- Gives a new name to a node, or to one that is still being read. -/
def give (named : Named) (anchor : Option String) (n : Option Node) : Except Fault Named :=
  match anchor with
  | none => .ok named
  | some a => if (named.lookup a).isSome then .error .malformedYaml else .ok ((a, n) :: named)

/-- Settles the node of a name that was given before. -/
def settle (named : Named) (anchor : Option String) (n : Node) : Named :=
  match anchor with
  | none => named
  | some a => (a, some n) :: named

/-- Reads a collection that may have a name, which is given before and settled behind it. -/
def around {α : Type} (named : Named) (anchor : Option String) (make : α → Node)
    (read : Named → Except Fault (Parsed α)) : Except Fault (Parsed Node) := do
  let (content, rest, inner) ← read (← named.give anchor none)
  let node := make content
  return (node, rest, inner.settle anchor node)

/-- The node that a name stands for. -/
def node (named : Named) (name : String) : Except Fault Node :=
  match named.lookup name with
  | some (some n) => .ok n
  | some none => .ok .enclosing
  | none => .error .malformedYaml

end Named

namespace Node

/-- The node where none is written. -/
def nothing : Node := .scalar none true ""

/-- The fault where the next token does not fit: that of the text, if the token holds one. -/
def unexpected : List Token → Fault
  | .broken f :: _ => f
  | _ => .malformedYaml

/-- The start of all tags of the format itself. -/
def coreTag : String := "tag:yaml.org,2002:"

/-- The full tag of a handle and a suffix, where the handle is none or one of the format itself. -/
def fullTag (handle : Option String) (suffix : String) : Except Fault String :=
  match handle with
  | none => .ok suffix
  | some "!" => .ok ("!" ++ suffix)
  | some "!!" => .ok (coreTag ++ suffix)
  | some _ => .error .malformedYaml

/-- The anchor and the tag in front of a node, in either order. -/
def properties : List Token → Except Fault (Option String × Option String × List Token)
  | .anchor name :: .tag h s :: rest => do return (some name, some (← fullTag h s), rest)
  | .tag h s :: .anchor name :: rest => do return (some name, some (← fullTag h s), rest)
  | .anchor name :: rest => .ok (some name, none, rest)
  | .tag _ _ :: .broken f :: _ => .error f
  | .tag h s :: rest => do return (none, some (← fullTag h s), rest)
  | rest => .ok (none, none, rest)

/-- The place where a node may stand. -/
structure Place where
  block : Bool
  indentless : Bool

mutual

/-- A node with its properties, or an alias. -/
def parse (place : Place) : Nat → List Token → Named → Except Fault (Parsed Node)
  | 0, _, _ => .error .malformedYaml
  | fuel + 1, ts, named =>
      match ts with
      | .alias a :: rest => do return (← named.node a, rest, named)
      | _ => do
          let (anchor, tag, body) ← properties ts
          parseBody place fuel anchor tag body named

/-- A node behind its properties; where there are some, nothing else needs to be written. -/
def parseBody (place : Place) : Nat → Option String → Option String → List Token → Named →
    Except Fault (Parsed Node)
  | 0, _, _, _, _ => .error .malformedYaml
  | fuel + 1, anchor, tag, ts, named =>
      let sequence := named.around anchor (Node.sequence tag)
      let mapping := named.around anchor (Node.mapping tag)
      let bare : Except Fault (Parsed Node) :=
        if anchor.isSome || tag.isSome then do
          let node := Node.scalar tag (tag.isNone || tag == some "!") ""
          return (node, ts, ← named.give anchor node)
        else .error (unexpected ts)
      match ts with
      | .broken f :: _ => .error f
      | .scalar isPlain text :: rest => do
          let node := Node.scalar tag (isPlain && tag.isNone || tag == some "!") text
          return (node, rest, ← named.give anchor node)
      | .flowSequenceStart :: rest => sequence (parseFlowItems fuel true rest)
      | .flowMappingStart :: rest => mapping (parseFlowEntries fuel true rest)
      | .blockEntry :: _ =>
          if place.indentless then sequence (parseIndentless fuel ts) else bare
      | .blockSequenceStart :: rest =>
          if place.block then sequence (parseBlockItems fuel rest) else bare
      | .blockMappingStart :: rest =>
          if place.block then mapping (parseBlockEntries fuel rest) else bare
      | _ => bare

/-- The items of a block sequence and its end. -/
def parseBlockItems : Nat → List Token → Named → Except Fault (Parsed (List Node))
  | 0, _, _ => .error .malformedYaml
  | fuel + 1, ts, named =>
      match ts with
      | .blockEnd :: rest => .ok ([], rest, named)
      | .blockEntry :: rest => do
          let (item, after, inner) ← match rest with
            | .blockEntry :: _ => .ok (nothing, rest, named)
            | .blockEnd :: _ => .ok (nothing, rest, named)
            | _ => parse ⟨true, false⟩ fuel rest named
          let (items, last, outer) ← parseBlockItems fuel after inner
          return (item :: items, last, outer)
      | _ => .error (unexpected ts)

/-- The items of a sequence that is indented no deeper than the key in front of it. -/
def parseIndentless : Nat → List Token → Named → Except Fault (Parsed (List Node))
  | 0, _, _ => .error .malformedYaml
  | fuel + 1, ts, named =>
      match ts with
      | .blockEntry :: rest => do
          let (item, after, inner) ← match rest with
            | .blockEntry :: _ => .ok (nothing, rest, named)
            | .key :: _ => .ok (nothing, rest, named)
            | .value :: _ => .ok (nothing, rest, named)
            | .blockEnd :: _ => .ok (nothing, rest, named)
            | _ => parse ⟨true, false⟩ fuel rest named
          let (items, last, outer) ← parseIndentless fuel after inner
          return (item :: items, last, outer)
      | _ => .ok ([], ts, named)

/-- The entries of a block mapping and its end. -/
def parseBlockEntries : Nat → List Token → Named → Except Fault (Parsed (List (Node × Node)))
  | 0, _, _ => .error .malformedYaml
  | fuel + 1, ts, named =>
      match ts with
      | .blockEnd :: rest => .ok ([], rest, named)
      | .key :: rest => do
          let (key, afterKey, inner) ← parseBlockPart fuel rest named
          let (value, after, outer) ← parseBlockValue fuel afterKey inner
          let (entries, last, all) ← parseBlockEntries fuel after outer
          return ((key, value) :: entries, last, all)
      | _ => .error (unexpected ts)

/-- The value of an entry of a block mapping, behind its mark if there is one. -/
def parseBlockValue : Nat → List Token → Named → Except Fault (Parsed Node)
  | 0, _, _ => .error .malformedYaml
  | fuel + 1, ts, named =>
      match ts with
      | .value :: rest => parseBlockPart fuel rest named
      | _ => .ok (nothing, ts, named)

/-- A key or a value of a block mapping behind its mark. -/
def parseBlockPart : Nat → List Token → Named → Except Fault (Parsed Node)
  | 0, _, _ => .error .malformedYaml
  | fuel + 1, ts, named =>
      match ts with
      | .key :: _ => .ok (nothing, ts, named)
      | .value :: _ => .ok (nothing, ts, named)
      | .blockEnd :: _ => .ok (nothing, ts, named)
      | _ => parse ⟨true, true⟩ fuel ts named

/-- The items of a sequence in marks and its end; a comma stands in front of all but the first. -/
def parseFlowItems : Nat → Bool → List Token → Named → Except Fault (Parsed (List Node))
  | 0, _, _, _ => .error .malformedYaml
  | fuel + 1, first, ts, named =>
      match ts with
      | .flowSequenceEnd :: rest => .ok ([], rest, named)
      | _ => do
          let start ← match first, ts with
            | true, _ => .ok ts
            | false, .flowEntry :: rest => .ok rest
            | false, _ => .error (unexpected ts)
          match start with
          | .flowSequenceEnd :: rest => return ([], rest, named)
          | .key :: rest => do
              let (key, afterKey, inner) ← parseFlowPart fuel rest named
              let (value, after, outer) ← match afterKey with
                | .value :: more => parseFlowPart fuel more inner
                | _ => .ok (nothing, afterKey, inner)
              let (items, last, all) ← parseFlowItems fuel false after outer
              return (.mapping none [(key, value)] :: items, last, all)
          | _ => do
              let (item, after, inner) ← parse ⟨false, false⟩ fuel start named
              let (items, last, all) ← parseFlowItems fuel false after inner
              return (item :: items, last, all)

/-- A key or a value within a collection in marks, behind its own mark. -/
def parseFlowPart : Nat → List Token → Named → Except Fault (Parsed Node)
  | 0, _, _ => .error .malformedYaml
  | fuel + 1, ts, named =>
      match ts with
      | .value :: _ => .ok (nothing, ts, named)
      | .flowEntry :: _ => .ok (nothing, ts, named)
      | .flowSequenceEnd :: _ => .ok (nothing, ts, named)
      | .flowMappingEnd :: _ => .ok (nothing, ts, named)
      | _ => parse ⟨false, false⟩ fuel ts named

/-- The entries of a mapping in marks and its end; a comma stands in front of all but the first. -/
def parseFlowEntries : Nat → Bool → List Token → Named →
    Except Fault (Parsed (List (Node × Node)))
  | 0, _, _, _ => .error .malformedYaml
  | fuel + 1, first, ts, named =>
      match ts with
      | .flowMappingEnd :: rest => .ok ([], rest, named)
      | _ => do
          let start ← match first, ts with
            | true, _ => .ok ts
            | false, .flowEntry :: rest => .ok rest
            | false, _ => .error (unexpected ts)
          match start with
          | .flowMappingEnd :: rest => return ([], rest, named)
          | .key :: rest => do
              let (key, afterKey, inner) ← parseFlowPart fuel rest named
              let (value, after, outer) ← match afterKey with
                | .value :: more => parseFlowPart fuel more inner
                | _ => .ok (nothing, afterKey, inner)
              let (entries, last, all) ← parseFlowEntries fuel false after outer
              return ((key, value) :: entries, last, all)
          | _ => do
              let (key, after, inner) ← parse ⟨false, false⟩ fuel start named
              let (entries, last, all) ← parseFlowEntries fuel false after inner
              return ((key, nothing) :: entries, last, all)

end

/-- The directives in front of a document: whether one asks for a version, and the handles that they
give a meaning to. -/
structure Directives where
  hasVersion : Bool
  handles : List (String × String)

namespace Directives

/-- No directives. -/
def none : Directives := ⟨false, []⟩

/-- One directive more.  At most one may ask for a version, and it must ask for the first one; every
handle has one meaning. -/
def add (ds : Directives) (d : Directive) : Except Fault Directives :=
  match d with
  | .version major =>
      if ds.hasVersion || major != 1 then .error .malformedYaml
      else .ok { ds with hasVersion := true }
  | .handle mark start =>
      if (ds.handles.lookup mark).isSome then .error .malformedYaml
      else .ok { ds with handles := (mark, start) :: ds.handles }
  | .other => .ok ds

/-- A token of the document, where the handle of a tag may have a meaning of its own. -/
def apply (ds : Directives) (t : Token) : Token :=
  match t with
  | .tag (some handle) suffix => match ds.handles.lookup handle with
    | some start => .tag Option.none (start ++ suffix)
    | Option.none => t
  | t => t

end Directives

/-- The directives that some tokens start with, behind those read already. -/
def readDirectives (ds : Directives) : List Token → Except Fault (Directives × List Token)
  | .directive d :: rest => do readDirectives (← ds.add d) rest
  | ts => .ok (ds, ts)

/-- Leaves out the marks at the end of a document. -/
def skipEnds : List Token → List Token
  | .documentEnd :: rest => skipEnds rest
  | ts => ts

/-- Nothing but marks may stand behind the document. -/
def checkEnd (ts : List Token) : Except Fault Unit :=
  match skipEnds ts with
  | [] => .ok ()
  | left => do
      let (_, behind) ← readDirectives .none left
      .error (unexpected behind)

/-- The content of a document behind the mark at its start. -/
def parseContent (fuel : Nat) (ts : List Token) : Except Fault (Node × List Token) :=
  match ts with
  | [] => .ok (nothing, ts)
  | .documentEnd :: _ => .ok (nothing, ts)
  | .documentStart :: _ => .ok (nothing, ts)
  | .directive _ :: _ => .ok (nothing, ts)
  | _ => (parse ⟨true, false⟩ fuel ts []).map fun (node, rest, _) => (node, rest)

/-- A document behind a mark at its start, in front of which directives may stand. -/
def parseExplicit (fuel : Nat) (ts : List Token) : Except Fault (Node × List Token) := do
  let (ds, body) ← readDirectives .none ts
  match body with
  | .documentStart :: rest => parseContent fuel (rest.map ds.apply)
  | left => .error (unexpected left)

/-- The node of the one document that some tokens hold; without any there is no node. -/
def ofTokens (ts : List Token) : Except Fault (Option Node) := do
  let fuel := 4 * ts.length + 4
  if ts.isEmpty then return none
  let (node, left) ← match ts with
    | .documentStart :: _ => parseExplicit fuel ts
    | .directive _ :: _ => parseExplicit fuel ts
    | _ => (parse ⟨true, false⟩ fuel ts []).map fun (node, rest, _) => (node, rest)
  checkEnd left
  return some node

end Node

end Yaml
end ConditionalForms
