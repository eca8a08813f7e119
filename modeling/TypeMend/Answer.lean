import TypeMend.Resolution
import TypeMend.Text.Folded
import TypeMend.Text.Numeral

/-!
# Typed answers

An answer is `s` or `skip`, `q` or `quit`, in any case, or the number of a candidate, counted
from one.
-/
namespace TypeMend.Answer

/-- The decision a line stands for, if it is understood. -/
def parse? (line : String) (candidates : Nat) : Option Decision :=
  let answer := Text.folded line
  if answer = ['s'] ∨ answer = ['s', 'k', 'i', 'p'] then some .skip
  else if answer = ['q'] ∨ answer = ['q', 'u', 'i', 't'] then some .quit
  else
    match Text.count? answer with
    | none => none
    | some number =>
      if 1 ≤ number ∧ number ≤ candidates then some (.select (number - 1)) else none

/-- What the user is told about a line that is not understood. -/
def complaint (line : String) : String :=
  "Unrecognised answer `" ++ String.ofList (Text.trim line.toList) ++ "`\n"

end TypeMend.Answer
