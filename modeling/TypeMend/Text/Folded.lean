import TypeMend.Text.Blank

/-!
# Words compared without regard to case

Answers and option words are ASCII. Besides the capital letters of ASCII only one character
lowers to an ASCII letter, the Kelvin sign, so lowering these is all that a comparison with an
ASCII word needs.
-/
namespace TypeMend.Text

/-- Lowers the capital letters of ASCII and the Kelvin sign. -/
def lowerChar (c : Char) : Char :=
  if c = '\u212a' then 'k' else c.toLower

/-- A text without surrounding blanks and with lowered letters. -/
def folded (text : String) : List Char :=
  (trim text.toList).map lowerChar

end TypeMend.Text
