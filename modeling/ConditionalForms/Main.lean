import ConditionalForms.Walkthrough

/-!
# The program

Prints the walk through the library.
-/

/-- Prints the lines of the walk, or what kept it from ending. -/
def main : IO Unit := do
  match ConditionalForms.Walkthrough.lines with
  | .ok lines => lines.forM IO.println
  | .error fault => throw (IO.userError fault.message)
