import TypeMend.Text.Folded

/-!
# Layouts of the log
-/
namespace TypeMend

/-- How log lines are laid out. -/
inductive LogFormat
  | text
  | tree
  | json
  deriving DecidableEq

namespace LogFormat

/-- The layout that a word names, in any case and with blanks around it. Other words name plain
text. -/
def parse (word : String) : LogFormat :=
  let word := Text.folded word
  if word = ['t', 'r', 'e', 'e'] then tree
  else if word = ['j', 's', 'o', 'n'] then json
  else text

end LogFormat

end TypeMend
