import TypeMend.Json.Token

/-!
# Values that do not matter

A member that a document may hold but that nobody reads is passed over. Its text is still
checked for form, to any depth, with the open brackets kept in a list.
-/
namespace TypeMend.Json

open Text (isDigit)

/-- An open bracket. -/
inductive Bracket
  | list
  | object
  deriving DecidableEq

/-- What follows when a value has been passed over: nothing that belongs to it, or the next
value inside the brackets still open. -/
inductive Resume
  | finished (rest : List Char)
  | value (open_ : List Bracket) (rest : List Char)

/-- The text after the key of a member and its colon. -/
def skipKey (cs : List Char) : Except Error (List Char) :=
  match skipSpace cs with
  | [] => .error .endInObject
  | c :: cs =>
    if c ≠ '\x22' then .error .keyNotString
    else do
      match skipSpace (← skipChars .plain cs) with
      | [] => .error .endInObject
      | c :: cs => if c = ':' then .ok cs else .error .expectedColon

/-- Goes on inside the innermost bracket: before its next value, with the key of that value
passed over. -/
def enterValue (bracket : Bracket) (outer : List Bracket) (cs : List Char) :
    Except Error Resume :=
  match bracket with
  | .list => .ok (.value (bracket :: outer) cs)
  | .object => (skipKey cs).map fun rest => .value (bracket :: outer) rest

/-- Closes the brackets that end here. `afterValue` says that a value has just been passed over,
so that a comma may follow. -/
def closeBrackets (afterValue : Bool) : List Bracket → List Char → Except Error Resume
  | [], cs => .ok (.finished cs)
  | bracket :: outer, cs =>
    match skipSpace cs with
    | [] => .error (if bracket = .list then .endInList else .endInObject)
    | c :: rest =>
      if c = ',' && afterValue then enterValue bracket outer rest
      else if (c = ']' && bracket = .list) || (c = '\x7d' && bracket = .object) then
        closeBrackets true outer rest
      else if afterValue then
        .error (if bracket = .list then .expectedListComma else .expectedObjectComma)
      else enterValue bracket outer (c :: rest)

/-- Passes over one word, number or string, or over an opening bracket. -/
def skipPart (outer : List Bracket) : List Char → Except Error Resume
  | [] => .error .endInValue
  | c :: cs =>
    if c = 'n' then readWord ['u', 'l', 'l'] cs >>= closeBrackets true outer
    else if c = 't' then readWord ['r', 'u', 'e'] cs >>= closeBrackets true outer
    else if c = 'f' then readWord ['a', 'l', 's', 'e'] cs >>= closeBrackets true outer
    else if c = '-' then skipNumber cs >>= closeBrackets true outer
    else if isDigit c then skipNumber (c :: cs) >>= closeBrackets true outer
    else if c = '\x22' then skipChars .plain cs >>= closeBrackets true outer
    else if c = '[' then closeBrackets false (.list :: outer) cs
    else if c = '\x7b' then closeBrackets false (.object :: outer) cs
    else .error .expectedValue

/-- Passes over parts until the value is complete. Each part takes at least one character, so the
number of characters bounds the number of parts. -/
def skipParts : Nat → List Bracket → List Char → Except Error (List Char)
  | 0, _, _ => .error .endInValue
  | fuel + 1, outer, cs => do
    match ← skipPart outer (skipSpace cs) with
    | .finished rest => .ok rest
    | .value outer rest => skipParts fuel outer rest

/-- The text after a value that does not matter. -/
def skipValue (cs : List Char) : Except Error (List Char) :=
  skipParts (cs.length + 1) [] cs

end TypeMend.Json
