/-!
# Shortest decimal form of a number in binary floating point

A double stands for all the reals that round to it. Its shortest decimal form is the one with
the fewest digits among the decimals in that range, and of those the nearest. All arithmetic is
exact, in natural numbers.
-/
namespace TypeMend.Text

/-- A positive real `significand * 2 ^ (exponent - 2)` with the ends of the range of reals that
round to it, in the same unit. -/
structure BinaryRange where
  low : Nat
  value : Nat
  high : Nat
  /-- Whether the ends belong to the range. -/
  closed : Bool
  exponent : Int

namespace BinaryRange

/-- The range of a positive finite double, from its bits. -/
def ofBits (bits : Nat) : BinaryRange :=
  let fraction : Nat := bits % Nat.pow 2 52
  let biased : Nat := bits / Nat.pow 2 52 % Nat.pow 2 11
  let significand : Nat := if biased = 0 then fraction else fraction + Nat.pow 2 52
  let exponent : Int := if biased = 0 then -1074 else (biased : Int) - 1075
  let low := if fraction = 0 && 1 < biased then 4 * significand - 1 else 4 * significand - 2
  ⟨low, 4 * significand, 4 * significand + 2, significand % 2 = 0, exponent⟩

/-- The fraction `n * 2 ^ (exponent - 2) / 10 ^ power` as numerator and denominator. -/
def scaled (range : BinaryRange) (n : Nat) (power : Int) : Nat × Nat :=
  (n * Nat.pow 2 range.exponent.toNat * Nat.pow 10 (-power).toNat,
   4 * Nat.pow 2 (-range.exponent).toNat * Nat.pow 10 power.toNat)

/-- The least power of ten above the value. -/
def magnitude (range : BinaryRange) : Int :=
  let powers := (List.range 640).map fun (i : Nat) => (i : Int) - 330
  (powers.find? fun power =>
    let value := range.scaled range.value power
    value.1 < value.2).getD 310

/-- Whether `n * 10 ^ power` rounds to the value. -/
def holds (range : BinaryRange) (n : Nat) (power : Int) : Bool :=
  let low := range.scaled range.low power
  let high := range.scaled range.high power
  if range.closed then low.1 ≤ n * low.2 && n * high.2 ≤ high.1
  else low.1 < n * low.2 && n * high.2 < high.1

/-- The digits of the value on the grid of multiples of `10 ^ power`, if the grid has a point in
the range. Of two such points the nearer wins, and on a tie the even one. -/
def onGrid? (range : BinaryRange) (power : Int) : Option Nat :=
  let value := range.scaled range.value power
  let below := value.1 / value.2
  let double := 2 * (value.1 % value.2)
  let nearest :=
    if double < value.2 || (double = value.2 && below % 2 = 0) then [below, below + 1]
    else [below + 1, below]
  nearest.find? fun n => range.holds n power

/-- Digits and power of ten of the shortest form. -/
def shortest (range : BinaryRange) : Nat × Int :=
  let top := range.magnitude
  ((List.range 18).findSome? fun (i : Nat) =>
    let power := top - (i : Int) - 1
    (range.onGrid? power).map fun n => (n, power)).getD (range.value, range.exponent)

end BinaryRange

/-- Removes trailing zeros from digits, counting them into the power of ten. -/
def stripZeros : Nat → Nat × Int → Nat × Int
  | 0, digits => digits
  | fuel + 1, (n, power) =>
    if n ≠ 0 ∧ n % 10 = 0 then stripZeros fuel (n / 10, power + 1) else (n, power)

/-- Writes `n * 10 ^ power`: with a point when the value lies between `10 ^ -5` and `10 ^ 16`,
with a signed exponent otherwise. A whole number keeps one zero after its point. -/
def writeDecimal (n : Nat) (power : Int) : String :=
  let digits := Nat.toDigits 10 n
  let length : Int := digits.length
  let point := length + power
  if 0 ≤ power && point ≤ 16 then
    String.ofList (digits ++ List.replicate power.toNat '0' ++ ['.', '0'])
  else if 0 < point && point ≤ 16 then
    String.ofList (digits.take point.toNat ++ '.' :: digits.drop point.toNat)
  else if -5 < point && point ≤ 0 then
    String.ofList ('0' :: '.' :: (List.replicate (-point).toNat '0' ++ digits))
  else
    let sign := if point < 1 then '-' else '+'
    let exponent := 'e' :: sign :: Nat.toDigits 10 (point - 1).natAbs
    match digits with
    | [d] => String.ofList (d :: exponent)
    | d :: rest => String.ofList (d :: '.' :: (rest ++ exponent))
    | [] => ""

/-- The shortest text that reads back as a finite double. -/
def shortestFloat (x : Float) : String :=
  let bits := x.toBits.toNat
  let magnitude := bits % Nat.pow 2 63
  let text :=
    if magnitude = 0 then "0.0"
    else
      let digits := stripZeros 20 (BinaryRange.ofBits magnitude).shortest
      writeDecimal digits.1 digits.2
  if bits < Nat.pow 2 63 then text else "-" ++ text

end TypeMend.Text
