import TypeMend.Text.Offset

/-!
# Text changes

A change replaces a range of a text. Changes are all given in offsets of the text before any of
them, and are applied from left to right with the positions shifted by what was written before.
-/
namespace TypeMend

/-- The replacement of the bytes from `start` to `stop`. -/
structure TextChange where
  start : Nat
  stop : Nat
  text : String
  deriving DecidableEq, Inhabited

namespace TextChange

def insertion (offset : Nat) (text : String) : TextChange :=
  ⟨offset, offset, text⟩

/-- Whether a change replaces nothing. -/
def isInsertion (change : TextChange) : Bool :=
  change.start == change.stop

/-- Whether two changes touch the same text. Insertions never touch each other, and an insertion
touches a replacement only strictly inside it. -/
def intersects (a b : TextChange) : Bool :=
  match a.isInsertion, b.isInsertion with
  | true, true => false
  | true, false => b.start < a.start && a.start < b.stop
  | false, true => a.start < b.start && b.start < a.stop
  | false, false => a.start < b.stop && b.start < a.stop

/-- The order in which changes are applied: by start, then by stop, then by text. -/
def atMost (a b : TextChange) : Bool :=
  a.start < b.start ||
    (a.start == b.start && (a.stop < b.stop || (a.stop == b.stop && !decide (b.text < a.text))))

/-- Whether the range of a change fits a text. -/
def fits (change : TextChange) (cs : List Char) : Bool :=
  change.start ≤ change.stop && Text.isBoundary change.start cs && Text.isBoundary change.stop cs

/-- Whether a change is an insertion directly after another at the same offset that ends with a
space. -/
def sharesSpace (previous : Option TextChange) (change : TextChange) : Bool :=
  match previous with
  | none => false
  | some earlier =>
    earlier.isInsertion && change.isInsertion && earlier.start == change.start &&
      earlier.text.toList.getLast? == some ' '

/-- The text that a change writes after another. A space that the earlier one has written is not
written twice. -/
def written (previous : Option TextChange) (change : TextChange) : List Char :=
  match change.text.toList with
  | ' ' :: rest => if sharesSpace previous change then rest else ' ' :: rest
  | cs => cs

/-- Applies sorted changes. `shift` is how far the text has grown so far. There is no result when
a shifted range does not fit the text. -/
def applySorted : Option TextChange → Int → List TextChange → List Char → Option (List Char)
  | _, _, [], cs => some cs
  | previous, shift, change :: rest, cs =>
    let start := (change.start : Int) + shift
    let stop := (change.stop : Int) + shift
    let new := change.written previous
    if start < 0 ∨ stop < 0 then none
    else
      match Text.splice? start.toNat stop.toNat new cs with
      | none => none
      | some cs =>
        let growth := (Text.byteLength new : Int) - (change.stop - change.start)
        applySorted (some change) (shift + growth) rest cs

def applyAll? (text : String) (changes : List TextChange) : Option String :=
  (applySorted none 0 (changes.mergeSort atMost) text.toList).map String.ofList

end TextChange

end TypeMend
