import ConditionalForms.Fault

/-!
# Lists of steps that may fail

The passes over lists that the library makes: each visits the items in order and ends at the first
fault.

**Definitions.**
* `mapFrom`: applies a function to every item and its position.
* `collect`: keeps the results that are there.
* `keep`: keeps the items that pass a test.
* `anyOf`: looks for an item that passes a test, and stops at it.
-/

namespace ConditionalForms

/-- Applies a function to every item and its position, counting from `start`. -/
def mapFrom {α β : Type} (f : Nat → α → Except Fault β) : Nat → List α → Except Fault (List β)
  | _, [] => .ok []
  | start, x :: xs => do
      let y ← f start x
      let ys ← mapFrom f (start + 1) xs
      return y :: ys

/-- The results that are there, in order. -/
def collect {α β : Type} (f : α → Except Fault (Option β)) : List α → Except Fault (List β)
  | [] => .ok []
  | x :: xs => do
      let y? ← f x
      let ys ← collect f xs
      return y?.toList ++ ys

/-- The items that pass a test, in order. -/
def keep {α : Type} (test : α → Except Fault Bool) : List α → Except Fault (List α)
  | [] => .ok []
  | x :: xs => do
      let passes ← test x
      let rest ← keep test xs
      return if passes then x :: rest else rest

/-- Some item passes a test; the items after the first such one are not looked at. -/
def anyOf {α : Type} (test : α → Except Fault Bool) : List α → Except Fault Bool
  | [] => .ok false
  | x :: xs => do
      if ← test x then return true
      anyOf test xs

/-- The first item that passes a test; the items after it are not looked at. -/
def firstOf? {α : Type} (test : α → Except Fault Bool) : List α → Except Fault (Option α)
  | [] => .ok none
  | x :: xs => do
      if ← test x then return some x
      firstOf? test xs

/-- The item at a position; there is none at a negative one. -/
def itemAt? {α : Type} (xs : List α) : Int → Option α
  | .ofNat i => xs[i]?
  | .negSucc _ => none

end ConditionalForms
