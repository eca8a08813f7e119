/-!
# Numerals

Three readings of digits: whether a type text is a numeric literal, the counts a user types, and
the decimal form of a number.
-/
namespace TypeMend.Text

/-- Whether a character is one of the ten decimal digits. -/
def isDigit (c : Char) : Bool :=
  '0' ≤ c && c ≤ '9'

def digitValue (c : Char) : Nat :=
  c.toNat - '0'.toNat

/-- The value of a run of decimal digits read after `acc`. -/
def digitsValue (acc : Nat) (cs : List Char) : Nat :=
  cs.foldl (fun n c => 10 * n + digitValue c) acc

/-- The text without one leading sign. -/
def dropSign : List Char → List Char
  | '+' :: cs => cs
  | '-' :: cs => cs
  | cs => cs

/-- Whether a text is empty or a complete exponent part. -/
def isExponent : List Char → Bool
  | [] => true
  | c :: cs =>
    let digits := dropSign cs
    (c == 'e' || c == 'E') && !digits.isEmpty && digits.all isDigit

/-- Whether a text is one of the words for a number that is not finite, in any case. -/
def isNonFinite (cs : List Char) : Bool :=
  let word := cs.map Char.toLower
  word == ['i', 'n', 'f'] || word == ['i', 'n', 'f', 'i', 'n', 'i', 't', 'y'] ||
    word == ['n', 'a', 'n']

/-- Whether a text is a numeric literal: an optional sign, then either a word for a number that
is not finite or digits with at most one point, at least one digit beside it, and an optional
exponent. -/
def isNumeric (cs : List Char) : Bool :=
  let body := dropSign cs
  let whole := body.takeWhile isDigit
  isNonFinite body ||
    match body.dropWhile isDigit with
    | '.' :: rest =>
      !(whole.isEmpty && (rest.takeWhile isDigit).isEmpty) && isExponent (rest.dropWhile isDigit)
    | rest => !whole.isEmpty && isExponent rest

/-- The largest count that can be written, exclusive. -/
def countLimit : Nat := UInt64.size

/-- A count: an optional plus sign and decimal digits, below `countLimit`. -/
def count? (cs : List Char) : Option Nat :=
  let digits := match cs with
    | '+' :: rest => rest
    | rest => rest
  if digits.isEmpty || !digits.all isDigit then none
  else
    let n := digitsValue 0 digits
    if n < countLimit then some n else none

end TypeMend.Text
