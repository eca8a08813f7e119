/-!
# Line diffs

The difference between two lists of lines as a script that keeps, removes and adds lines. What
both lists begin and end with is kept; in between the script keeps a longest common subsequence,
found with a table of its lengths. Changed stretches of a script, with a little context, are its
hunks.
-/
namespace TypeMend

/-- One step of a script. -/
inductive LineOp (α : Type)
  | keep (line : α)
  | remove (line : α)
  | add (line : α)
  deriving DecidableEq

namespace LineOp

variable {α : Type}

def isKeep : LineOp α → Bool
  | keep _ => true
  | _ => false

/-- The line of a step that is in the old list. -/
def old? : LineOp α → Option α
  | keep line => some line
  | remove line => some line
  | add _ => none

def new? : LineOp α → Option α
  | keep line => some line
  | remove _ => none
  | add line => some line

end LineOp

namespace LineDiff

variable {α : Type} [DecidableEq α]

/-- How many lines two lists have in common at the front. -/
def commonFront : List α → List α → Nat
  | x :: xs, y :: ys => if x = y then commonFront xs ys + 1 else 0
  | _, _ => 0

/-- How many lines two lists have in common at the back. -/
def commonBack (xs ys : List α) : Nat :=
  commonFront xs.reverse ys.reverse

/-- The row of the table for a line, from the row for the lines after it. Entry `j` is the length
of a longest common subsequence with the new list from `j` on. -/
def tableRow (x : α) : List α → List Nat → List Nat
  | [], _ => [0]
  | y :: ys, below =>
    let right := tableRow x ys below.tail
    let entry :=
      if x = y then below.tail.headD 0 + 1 else max (below.headD 0) (right.headD 0)
    entry :: right

/-- The rows of the table for all ends of the old list. -/
def table : List α → List α → List (List Nat)
  | [], ys => [List.replicate (ys.length + 1) 0]
  | x :: xs, ys =>
    let rows := table xs ys
    tableRow x ys (rows.headD []) :: rows

/-- The script for an old line and all after it, where `next` gives the script for those after
it. New lines are added until the old one is kept or removed. -/
def walkLine (x : α) (next : List α → List (List Nat) → List (LineOp α)) :
    List α → List (List Nat) → List (LineOp α)
  | [], rows => .remove x :: next [] rows.tail
  | y :: ys, rows =>
    if x = y then .keep x :: next ys (rows.tail.map List.tail)
    else if (rows.headD []).tail.headD 0 ≤ (rows.tail.headD []).headD 0 then
      .remove x :: next (y :: ys) rows.tail
    else .add y :: walkLine x next ys (rows.map List.tail)

/-- The script that the table leads to. A line that can be removed or added first is removed. -/
def walk : List α → List α → List (List Nat) → List (LineOp α)
  | [], ys, _ => ys.map .add
  | x :: xs, ys, rows => walkLine x (walk xs) ys rows

/-- The script from an old list to a new one. -/
def script (old new : List α) : List (LineOp α) :=
  let front := commonFront old new
  let back := commonBack (old.drop front) (new.drop front)
  let oldCore := (old.drop front).take (old.length - front - back)
  let newCore := (new.drop front).take (new.length - front - back)
  (old.take front).map .keep ++ walk oldCore newCore (table oldCore newCore) ++
    (old.drop (old.length - back)).map .keep

/-- Lines of context around a change. -/
def context : Nat := 2

/-- The positions in a script of the steps that change something, where the script begins at
position `first`. -/
def changesFrom (first : Nat) : List (LineOp α) → List Nat
  | [] => []
  | op :: ops =>
    if op.isKeep then changesFrom (first + 1) ops else first :: changesFrom (first + 1) ops

/-- Takes the context of one more change into ranges that are kept last first. A range that it
reaches is prolonged. -/
def addRange (size : Nat) (ranges : List (Nat × Nat)) (position : Nat) : List (Nat × Nat) :=
  let start := position - context
  let stop := min (position + 1 + context) size
  match ranges with
  | (first, last) :: rest =>
    if start ≤ last then (first, stop) :: rest else (start, stop) :: (first, last) :: rest
  | [] => [(start, stop)]

/-- The ranges of a script that are shown: each change with its context, touching ranges
joined. -/
def hunkRanges (ops : List (LineOp α)) : List (Nat × Nat) :=
  ((changesFrom 0 ops).foldl (addRange ops.length) []).reverse

/-- A stretch of a script with the lines of both lists that come before it. -/
structure Hunk (α : Type) where
  oldBefore : Nat
  newBefore : Nat
  ops : List (LineOp α)
  deriving DecidableEq

namespace Hunk

omit [DecidableEq α] in
def oldLength (hunk : Hunk α) : Nat :=
  (hunk.ops.filterMap LineOp.old?).length

omit [DecidableEq α] in
def newLength (hunk : Hunk α) : Nat :=
  (hunk.ops.filterMap LineOp.new?).length

end Hunk

def hunks (ops : List (LineOp α)) : List (Hunk α) :=
  (hunkRanges ops).map fun (start, stop) =>
    let before := ops.take start
    { oldBefore := (before.filterMap LineOp.old?).length
      newBefore := (before.filterMap LineOp.new?).length
      ops := (ops.drop start).take (stop - start) }

end LineDiff

end TypeMend
