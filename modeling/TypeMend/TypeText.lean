import TypeMend.Text.Blank
import TypeMend.Text.Numeral

/-!
# Type texts

Types reach the engine as text. This module compares them without understanding them: two texts
are the same type when they agree up to blanks, a union is split at its top-level bars, and a
type is accepted by another when the rules of `assignable` say so.
-/
namespace TypeMend.TypeText

open Text

/-- Drops blanks and puts one space where some were dropped between two other characters.
`pending` says that blanks were dropped since the last character kept. -/
def collapse : Bool → List Char → List Char
  | _, [] => []
  | pending, c :: cs =>
    if isBlank c then collapse true cs
    else if pending then ' ' :: c :: collapse false cs
    else c :: collapse false cs

/-- A type text with the blanks at its ends removed and each inner run of blanks turned into one
space. -/
def normalizeChars (cs : List Char) : List Char :=
  collapse false (trimStart cs)

/-- A type text with the blanks at its ends removed and each inner run of blanks turned into one
space. -/
def normalize (text : String) : String :=
  String.ofList (normalizeChars text.toList)

/-- The bracket depth after one more character. The `>` of an arrow `=>` closes nothing. -/
def depthAfter (depth : Int) (afterEquals : Bool) (c : Char) : Int :=
  if c = '<' ∨ c = '(' ∨ c = '\x7b' ∨ c = '[' then depth + 1
  else if c = '>' ∧ afterEquals then depth
  else if c = '>' ∨ c = ')' ∨ c = '\x7d' ∨ c = ']' then depth - 1
  else depth

/-- The pieces of a text between the bars that stand at depth zero, where scanning begins at
`depth` and `afterEquals` says that an equals sign came just before. -/
def pieces : Int → Bool → List Char → List (List Char)
  | _, _, [] => [[]]
  | depth, afterEquals, c :: cs =>
    if c = '|' ∧ depth = 0 then [] :: pieces 0 false cs
    else
      match pieces (depthAfter depth afterEquals c) (c == '=') cs with
      | [] => [[c]]
      | piece :: rest => (c :: piece) :: rest

/-- The members of a union: the pieces between its top-level bars, without surrounding blanks,
empty ones left out. -/
def members (cs : List Char) : List (List Char) :=
  ((pieces 0 false cs).map trim).filter fun piece => !piece.isEmpty

def splitUnion (text : String) : List String :=
  (members text.toList).map String.ofList

/-- Whether a text is at least two characters long and has the same quote at both ends. -/
def quotedBy (quote : Char) (cs : List Char) : Bool :=
  cs.head? == some quote && cs.getLast? == some quote && 2 ≤ cs.length

/-- Whether a literal type belongs to a primitive type: quoted text to `string`, a numeric
literal to `number`, a truth value to `boolean`. -/
def literalWidens (literal primitive : List Char) : Bool :=
  if primitive = "string".toList then quotedBy '"' literal || quotedBy '\'' literal
  else if primitive = "number".toList then isNumeric literal
  else if primitive = "boolean".toList then
    literal == "true".toList || literal == "false".toList
  else false

/-- Whether a type text is accepted where another is expected. Equal texts are, everything is by
`any` and `unknown`, `any` and `never` are by everything, and a union is when each of its members
is a member of the other or a literal of one. -/
def assignableChars (source target : List Char) : Bool :=
  let source := normalizeChars source
  let target := normalizeChars target
  source == target ||
  target == "any".toList || target == "unknown".toList ||
  source == "any".toList || source == "never".toList ||
  (members source).all fun member =>
    (members target).any fun t => member == t || literalWidens member t

/-- Whether a type text is accepted where another is expected. -/
def assignable (source target : String) : Bool :=
  assignableChars source.toList target.toList

end TypeMend.TypeText
