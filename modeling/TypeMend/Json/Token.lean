import TypeMend.Json.Error
import TypeMend.Text.Numeral
import TypeMend.Text.Offset
import TypeMend.Text.Shortest

/-!
# Words, strings and numbers of a document

A reader takes a text and gives a value and the text that follows it. The readers here take the
smallest parts of a document; each stops at the first character that does not belong.
-/
namespace TypeMend.Json

open Text (isDigit digitValue byteLength)

/-- Takes a value from the front of a text. -/
abbrev Reader (α : Type) := List Char → Except Error (α × List Char)

/-- Whether a character may stand between the parts of a document. -/
def isSpace (c : Char) : Bool :=
  c == ' ' || c == '\n' || c == '\t' || c == '\r'

/-- The text from the next part of the document on. -/
def skipSpace (cs : List Char) : List Char :=
  cs.dropWhile isSpace

/-- The text after the rest of a word. -/
def readWord : List Char → List Char → Except Error (List Char)
  | [], cs => .ok cs
  | _ :: _, [] => .error .endInValue
  | w :: ws, c :: cs => if c = w then readWord ws cs else .error .expectedWord

/-! ## Strings -/

def hexValue? (c : Char) : Option Nat :=
  if isDigit c then some (digitValue c)
  else if 'a' ≤ c && c ≤ 'f' then some (c.toNat - 'a'.toNat + 10)
  else if 'A' ≤ c && c ≤ 'F' then some (c.toNat - 'A'.toNat + 10)
  else none

/-- The character that a one-letter escape stands for. -/
def shortEscape? (c : Char) : Option Char :=
  if c = '\x22' || c = '\\' || c = '/' then some c
  else if c = 'b' then some '\x08'
  else if c = 'f' then some '\x0c'
  else if c = 'n' then some '\n'
  else if c = 'r' then some '\r'
  else if c = 't' then some '\t'
  else none

/-- Where a scan stands inside a string. -/
inductive StringState
  /-- Between characters. -/
  | plain
  /-- After a backslash. -/
  | escape
  /-- Inside the four digits of a code unit: how many were read and their value, and the high
  surrogate that came before, if one did. -/
  | unit (high : Option Nat) (count value : Nat)
  /-- After a high surrogate, before the backslash of its partner. -/
  | pairSlash (high : Nat)
  /-- After a high surrogate and a backslash. -/
  | pairLetter (high : Nat)

/-- What a complete code unit means: a character, or a high surrogate that awaits its partner. -/
def closeUnit (high : Option Nat) (unit : Nat) : Except Error (Char ⊕ Nat) :=
  match high with
  | none =>
    if 0xDC00 ≤ unit && unit ≤ 0xDFFF then .error .loneSurrogate
    else if 0xD800 ≤ unit && unit ≤ 0xDBFF then .ok (.inr unit)
    else .ok (.inl (Char.ofNat unit))
  | some first =>
    if 0xDC00 ≤ unit && unit ≤ 0xDFFF then
      .ok (.inl (Char.ofNat ((first - 0xD800) * 0x400 + (unit - 0xDC00) + 0x10000)))
    else .error .loneSurrogate

/-- The fault of a digit that is none, where `count` digits came before it: the text has to hold
four bytes for the digits before their value is looked at. -/
def badDigit (count : Nat) (cs : List Char) : Error :=
  if byteLength cs + count < 4 then .endInString else .invalidEscape

/-- The characters of a string up to its closing quote. -/
def readChars : StringState → Reader (List Char)
  | _, [] => .error .endInString
  | .plain, c :: cs =>
    if c = '\x22' then .ok ([], cs)
    else if c = '\\' then readChars .escape cs
    else if c.toNat < 0x20 then .error .controlCharacter
    else (readChars .plain cs).map fun (text, rest) => (c :: text, rest)
  | .escape, c :: cs =>
    match shortEscape? c with
    | some d => (readChars .plain cs).map fun (text, rest) => (d :: text, rest)
    | none => if c = 'u' then readChars (.unit none 0 0) cs else .error .invalidEscape
  | .unit high count value, c :: cs =>
    match hexValue? c with
    | none => .error (badDigit count (c :: cs))
    | some d =>
      if count < 3 then readChars (.unit high (count + 1) (16 * value + d)) cs
      else
        match closeUnit high (16 * value + d) with
        | .error e => .error e
        | .ok (.inr first) => readChars (.pairSlash first) cs
        | .ok (.inl d) => (readChars .plain cs).map fun (text, rest) => (d :: text, rest)
  | .pairSlash high, c :: cs =>
    if c = '\\' then readChars (.pairLetter high) cs else .error .cutHexEscape
  | .pairLetter high, c :: cs =>
    if c = 'u' then readChars (.unit (some high) 0 0) cs else .error .cutHexEscape

/-- A string whose opening quote has been read. -/
def readString (cs : List Char) : Except Error (String × List Char) :=
  (readChars .plain cs).map fun (text, rest) => (String.ofList text, rest)

/-- The text after a string whose opening quote has been read and whose value does not matter:
its escapes are checked for form only. -/
def skipChars : StringState → List Char → Except Error (List Char)
  | _, [] => .error .endInString
  | .escape, c :: cs =>
    match shortEscape? c with
    | some _ => skipChars .plain cs
    | none => if c = 'u' then skipChars (.unit none 0 0) cs else .error .invalidEscape
  | .unit high count value, c :: cs =>
    match hexValue? c with
    | none => .error (badDigit count (c :: cs))
    | some _ =>
      if count < 3 then skipChars (.unit high (count + 1) value) cs else skipChars .plain cs
  | _, c :: cs =>
    if c = '\x22' then .ok cs
    else if c = '\\' then skipChars .escape cs
    else if c.toNat < 0x20 then .error .controlCharacter
    else skipChars .plain cs

/-! ## Numbers -/

/-- A number as a document gives it. What is not an integer of 64 bits is a floating-point
number. -/
inductive Number
  | integer (value : Int)
  | float (value : Float)

/-- How a message names a number. -/
def Number.found : Number → Found
  | .integer value => .integer value
  | .float value => .float (Text.shortestFloat value)

/-- The largest significand that is kept exactly. -/
def maxSignificand : Nat := UInt64.size - 1

/-- Reads digits into a significand as long as it can be kept exactly, and counts those read.
The first digit that does not fit stays in the text. -/
def readDigits (significand count : Nat) : List Char → Nat × Nat × List Char
  | [] => (significand, count, [])
  | c :: cs =>
    if isDigit c && 10 * significand + digitValue c ≤ maxSignificand then
      readDigits (10 * significand + digitValue c) (count + 1) cs
    else (significand, count, c :: cs)

/-- A power of ten as a double. -/
def powerOfTen (n : Nat) : Float :=
  Float.ofScientific 1 false n

/-- Divides by powers of ten, at most `10 ^ 308` at a time. -/
def divideByPower : Nat → Float → Nat → Float
  | 0, f, _ => f
  | fuel + 1, f, power =>
    if power ≤ 308 then f / powerOfTen power
    else if f == 0.0 then f
    else divideByPower fuel (f / powerOfTen 308) (power - 308)

/-- The double for a significand and a power of ten. -/
def floatOfParts (positive : Bool) (significand : Nat) (exponent : Int) : Except Error Float :=
  let f := significand.toUInt64.toFloat
  let signed (f : Float) : Float := if positive then f else -f
  if 0 ≤ exponent then
    if 308 < exponent then
      if significand = 0 then .ok (signed f) else .error .numberOutOfRange
    else
      let product := f * powerOfTen exponent.toNat
      if product.isInf then .error .numberOutOfRange else .ok (signed product)
  else
    .ok (signed (divideByPower (exponent.natAbs / 308 + 2) f exponent.natAbs))

/-- The largest exponent that is computed with. -/
def maxExponent : Nat := Nat.pow 2 31 - 1

/-- Reads the exponent part after its letter, for a number whose digits so far are given. -/
def readExponent (positive : Bool) (significand : Nat) (exponent : Int) : Reader Float := fun cs =>
  let negative := cs.head? == some '-'
  let digits := match cs with
    | '+' :: rest => rest
    | '-' :: rest => rest
    | rest => rest
  match digits with
  | [] => .error .endInValue
  | c :: _ =>
    if !isDigit c then .error .invalidNumber
    else
      let power := Text.digitsValue 0 (digits.takeWhile isDigit)
      let rest := digits.dropWhile isDigit
      if maxExponent < power then
        if significand ≠ 0 && !negative then .error .numberOutOfRange
        else .ok (if positive then 0.0 else -0.0, rest)
      else
        let total := if negative then exponent - power else exponent + power
        (floatOfParts positive significand total).map fun f => (f, rest)

/-- The double whose digits have been read, or its exponent part. -/
def finishFloat (positive : Bool) (significand : Nat) (exponent : Int) : Reader Float
  | [] => (floatOfParts positive significand exponent).map fun f => (f, [])
  | c :: cs =>
    if c = 'e' || c = 'E' then readExponent positive significand exponent cs
    else (floatOfParts positive significand exponent).map fun f => (f, c :: cs)

/-- Reads the digits after a point. Those that no longer fit the significand are dropped. -/
def readFraction (positive : Bool) (significand : Nat) (exponent : Int) : Reader Float := fun cs =>
  match cs with
  | [] => .error .endInValue
  | c :: _ =>
    if !isDigit c then .error .invalidNumber
    else
      let (significand, count, rest) := readDigits significand 0 cs
      finishFloat positive significand (exponent - count) (rest.dropWhile isDigit)

/-- The integer with a significand and a sign. Negative zero and what does not fit 64 bits are
floating-point numbers. -/
def integerOf (positive : Bool) (significand : Nat) : Number :=
  if positive then .integer significand
  else if significand = 0 || Nat.pow 2 63 < significand then .float (-significand.toUInt64.toFloat)
  else .integer (-(significand : Int))

/-- The number that goes on after its whole digits. -/
def finishNumber (positive : Bool) (significand : Nat) : Reader Number
  | '.' :: cs => (readFraction positive significand 0 cs).map fun (f, rest) => (.float f, rest)
  | c :: cs =>
    if c = 'e' || c = 'E' then
      (readExponent positive significand 0 cs).map fun (f, rest) => (.float f, rest)
    else if isDigit c then
      let dropped := (c :: cs).takeWhile isDigit
      let rest := (c :: cs).dropWhile isDigit
      let result := match rest with
        | '.' :: rest => readFraction positive significand dropped.length rest
        | rest => finishFloat positive significand dropped.length rest
      result.map fun (f, rest) => (.float f, rest)
    else .ok (integerOf positive significand, c :: cs)
  | [] => .ok (integerOf positive significand, [])

/-- Reads a number after its sign. -/
def readNumber (positive : Bool) : Reader Number
  | [] => .error .endInValue
  | '0' :: cs =>
    match cs with
    | c :: _ => if isDigit c then .error .invalidNumber else finishNumber positive 0 cs
    | [] => finishNumber positive 0 []
  | c :: cs =>
    if isDigit c then
      let (significand, _, rest) := readDigits (digitValue c) 0 cs
      finishNumber positive significand rest
    else .error .invalidNumber

/-- The text after at least one digit and all that follow it. -/
def skipDigits : List Char → Except Error (List Char)
  | c :: cs => if isDigit c then .ok (cs.dropWhile isDigit) else .error .invalidNumber
  | [] => .error .invalidNumber

/-- The text after an exponent part, if one is there. -/
def skipExponent : List Char → Except Error (List Char)
  | c :: cs =>
    if c = 'e' || c = 'E' then
      match cs with
      | '+' :: rest => skipDigits rest
      | '-' :: rest => skipDigits rest
      | rest => skipDigits rest
    else .ok (c :: cs)
  | [] => .ok []

/-- The text after a number whose value does not matter, read after its sign. -/
def skipNumber (cs : List Char) : Except Error (List Char) := do
  let rest ← match cs with
    | '0' :: rest =>
      match rest.head? with
      | some c => if isDigit c then .error .invalidNumber else .ok rest
      | none => .ok rest
    | rest => skipDigits rest
  match rest with
  | '.' :: rest => skipExponent (← skipDigits rest)
  | rest => skipExponent rest

end TypeMend.Json
