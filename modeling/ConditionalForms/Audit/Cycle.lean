/-!
# Cycles of a relation on names

A relation is a list of edges.  The search goes depth first along the edges, from every name that an
edge starts at, and looks for an edge back to a name on its own trail.  A name that was left without
finding one is never entered again.

**Definitions.**
* `Edges.findCycle?`: names `v₀, …, vₖ` with an edge from each to the next and `vₖ = v₀`.
-/

namespace ConditionalForms

/-- A relation on names, as a list of edges. -/
abbrev Edges := List (String × String)

/-- How a search stands: it has found a cycle, or it has seen some names and found none. -/
inductive Search where
  | cycle (names : List String)
  | clear (seen : List String)
deriving DecidableEq, Repr

namespace Edges

/-- The names that edges from a name lead to. -/
def targets (edges : Edges) (name : String) : List String :=
  (edges.filter fun e => e.1 = name).map Prod.snd

/-- The names that edges start at, in the order of their first edge. -/
def sources (edges : Edges) : List String := (edges.map Prod.fst).eraseDups

/-- Searches from a name that was not seen, at the end of a trail; `fuel` bounds the length by which
the trail may grow. -/
def explore (edges : Edges) : Nat → List String → List String → String → Search
  | 0, seen, _, _ => .clear seen
  | fuel + 1, seen, trail, name =>
      (edges.targets name).foldl
        (fun state next => match state with
          | .cycle names => .cycle names
          | .clear seen =>
              if seen.contains next then
                if (trail ++ [name]).contains next then
                  .cycle ((trail ++ [name]).dropWhile (· ≠ next) ++ [next])
                else .clear seen
              else explore edges fuel seen (trail ++ [name]) next)
        (.clear (name :: seen))

/-- Searches from every name that edges start at.  No trail is longer than the number of edges and
one. -/
def search (edges : Edges) : Search :=
  edges.sources.foldl
    (fun state name => match state with
      | .cycle names => .cycle names
      | .clear seen =>
          if seen.contains name then .clear seen
          else explore edges (edges.length + 1) seen [] name)
    (.clear [])

/-- A cycle of the relation, if there is one. -/
def findCycle? (edges : Edges) : Option (List String) :=
  match edges.search with
  | .cycle names => some names
  | .clear _ => none

end Edges

end ConditionalForms
