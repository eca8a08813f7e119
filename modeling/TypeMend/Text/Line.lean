import TypeMend.Text.Offset

/-!
# Lines and positions

Diffs and indentation work on the lines of a text; problems are shown to the user with a line
and a column. The two notions differ: `lines` ends a line at a line feed only, while a
`LineIndex` also ends one at a lone carriage return.
-/
namespace TypeMend.Text

/-- The lines of a text. A line feed ends a line, one carriage return before it belongs to the
ending, and nothing follows a final line feed. -/
def lines : List Char → List (List Char)
  | [] => []
  | '\n' :: cs => [] :: lines cs
  | '\r' :: '\n' :: cs => [] :: lines cs
  | c :: cs =>
    match lines cs with
    | [] => [[c]]
    | line :: rest => (c :: line) :: rest

/-- Offsets just past each line ending of a text that itself begins at `pos`. A line feed ends a
line, and so does a carriage return that no line feed follows. -/
def startsAfter : Nat → List Char → List Nat
  | _, [] => []
  | pos, c :: cs =>
    if c = '\n' ∨ (c = '\r' ∧ cs.head? ≠ some '\n') then
      (pos + 1) :: startsAfter (pos + 1) cs
    else
      startsAfter (pos + c.utf8Size) cs

end TypeMend.Text

namespace TypeMend

/-- A place in a source file, both numbers counted from zero. -/
structure Position where
  line : Nat
  character : Nat
  deriving DecidableEq, Inhabited

/-- The byte offsets at which the lines of a text begin. -/
structure LineIndex where
  starts : List Nat
  deriving DecidableEq

namespace LineIndex

/-- The line index of a text. The first line begins at offset zero. -/
def ofText (text : String) : LineIndex :=
  ⟨0 :: Text.startsAfter 0 text.toList⟩

def lineCount (index : LineIndex) : Nat :=
  index.starts.length

def lineStart? (index : LineIndex) (line : Nat) : Option Nat :=
  index.starts[line]?

/-- The line that holds an offset: the last one that begins at or before it. -/
def lineOf (index : LineIndex) (offset : Nat) : Nat :=
  (index.starts.takeWhile (· ≤ offset)).length - 1

/-- Line and character of an offset. An offset past the end counts as the end, and one inside a
character has column zero. -/
def position (index : LineIndex) (text : String) (offset : Nat) : Position :=
  let line := index.lineOf offset
  let stop := min offset (Text.byteLength text.toList)
  let start := min (index.starts.getD line 0) stop
  ⟨line, ((Text.slice? start stop text.toList).getD []).length⟩

end LineIndex

end TypeMend
