import Mathlib.Data.List.Basic
import Mathlib.Tactic
import TypeMend.Proofs.LineScript
import TypeMend.Proofs.Literals
import TypeMend.Report.Render

/-!
# Printed diffs are faithful

A diff is read back from its text alone: the heads of its hunks say at which lines they begin and
how many lines they have on either side, and the lengths tell where a hunk ends. The hunks that are
read from a printed diff follow one another, have their lines where their heads say, and turn the
old lines into the new ones.
-/
namespace TypeMend.UnifiedDiff

open Text (isDigit digitsValue)
open LineDiff (script hunkRanges Within)

/-! ## Reading a diff -/

/-- What the head of a hunk says. Lines are counted from one. -/
structure Head where
  oldStart : Nat
  oldLength : Nat
  newStart : Nat
  newLength : Nat
  deriving DecidableEq

/-- A hunk as it is read. -/
structure Hunk where
  head : Head
  ops : List (LineOp (List Char))
  deriving DecidableEq

/-- The lines of a hunk that are in the old text: its context and what it removes. -/
def Hunk.oldLines (hunk : Hunk) : List (List Char) :=
  hunk.ops.filterMap LineOp.old?

/-- The lines of a hunk that are in the new text: its context and what it adds. -/
def Hunk.newLines (hunk : Hunk) : List (List Char) :=
  hunk.ops.filterMap LineOp.new?

/-- The number that a text begins with, and what follows it. -/
def number? (cs : List Char) : Option (Nat × List Char) :=
  let digits := cs.takeWhile isDigit
  if digits.isEmpty then none else some (digitsValue 0 digits, cs.dropWhile isDigit)

/-- The head of a hunk, from its line. -/
def head? (line : List Char) : Option Head := do
  let rest ← line.dropPrefix? ['@', '@', ' ', '-']
  let (oldStart, rest) ← number? rest
  let rest ← rest.dropPrefix? [',']
  let (oldLength, rest) ← number? rest
  let rest ← rest.dropPrefix? [' ', '+']
  let (newStart, rest) ← number? rest
  let rest ← rest.dropPrefix? [',']
  let (newLength, rest) ← number? rest
  if rest = [' ', '@', '@'] then some ⟨oldStart, oldLength, newStart, newLength⟩ else none

/-- The step that a line of a hunk stands for, by its first character. -/
def op? : List Char → Option (LineOp (List Char))
  | ' ' :: line => some (.keep line)
  | '-' :: line => some (.remove line)
  | '+' :: line => some (.add line)
  | _ => none

/-- How many lines of one side are left after a step. -/
def left? : Option (List Char) → Nat → Option Nat
  | none, lines => some lines
  | some _, lines + 1 => some lines
  | some _, 0 => none

/-- Reads on inside a hunk with some lines of either side left: the rest of that hunk, and the
hunks after it. Only a hunk with no lines left can end. -/
def hunksFrom? : Nat → Nat → List (List Char) →
    Option (List (LineOp (List Char)) × List Hunk)
  | 0, 0, [] => some ([], [])
  | 0, 0, line :: lines => do
    let head ← head? line
    let (ops, hunks) ← hunksFrom? head.oldLength head.newLength lines
    some ([], ⟨head, ops⟩ :: hunks)
  | _, _, [] => none
  | old, new, line :: lines => do
    let op ← op? line
    let old ← left? op.old? old
    let new ← left? op.new? new
    let (ops, hunks) ← hunksFrom? old new lines
    some (op :: ops, hunks)

/-- The hunks of a diff of a file, from its text. -/
def read? (file diff : String) : Option (List Hunk) := do
  let rest ← diff.toList.dropPrefix? s!"--- {file}\n+++ {file}".toList
  match rest.splitOn '\n' with
  | [] :: lines => (hunksFrom? 0 0 lines).map Prod.snd
  | _ => none

/-! ## Applying hunks -/

/-- Some lines are in a text from a certain line on. -/
def StandsAt (start : Nat) (part lines : List (List Char)) : Prop :=
  ∃ before after, lines = before ++ part ++ after ∧ start = before.length + 1

/-- A hunk has on either side as many lines as its head says, and they are where it says. -/
structure Hunk.Fits (hunk : Hunk) (old new : List (List Char)) : Prop where
  oldLength : hunk.oldLines.length = hunk.head.oldLength
  newLength : hunk.newLines.length = hunk.head.newLength
  old : StandsAt hunk.head.oldStart hunk.oldLines old
  new : StandsAt hunk.head.newStart hunk.newLines new

/-- A hunk ends before another one begins, on either side. -/
def Hunk.Before (hunk next : Hunk) : Prop :=
  hunk.head.oldStart + hunk.head.oldLength ≤ next.head.oldStart ∧
    hunk.head.newStart + hunk.head.newLength ≤ next.head.newStart

/-- Applies hunks to the lines of an old text that come after the first `passed` ones. What is
before a hunk is copied, its old lines are passed over and its new lines written. -/
def applyFrom (passed : Nat) : List Hunk → List (List Char) → List (List Char)
  | [], lines => lines
  | hunk :: hunks, lines =>
    let gap := hunk.head.oldStart - 1 - passed
    lines.take gap ++ hunk.newLines ++
      applyFrom (passed + gap + hunk.head.oldLength) hunks
        (lines.drop (gap + hunk.head.oldLength))

/-! ## What is printed is read back -/

/-- A hunk of a script as its head is printed. -/
def Hunk.ofScript (hunk : LineDiff.Hunk (List Char)) : Hunk :=
  ⟨⟨hunk.oldBefore + 1, hunk.oldLength, hunk.newBefore + 1, hunk.newLength⟩, hunk.ops⟩

theorem number?_toDigits (n : Nat) {rest : List Char}
    (hrest : ∀ c ∈ rest.head?, isDigit c = false) :
    number? (Nat.toDigits 10 n ++ rest) = some (n, rest) := by
  have hdigits : ∀ c ∈ Nat.toDigits 10 n, isDigit c = true := fun c hc =>
    Json.isDigit_of_mem_toDigits hc
  have htake : rest.takeWhile isDigit = [] := by cases rest <;> simp_all
  have hdrop : rest.dropWhile isDigit = rest := by cases rest <;> simp_all
  simp [number?, List.takeWhile_append_of_pos hdigits, List.dropWhile_append_of_pos hdigits,
    htake, hdrop, Json.digitsValue_toDigits, Nat.toDigits_ne_nil]

theorem dropPrefix?_append (front rest : List Char) :
    (front ++ rest).dropPrefix? front = some rest :=
  List.dropPrefix?_append_of_beq rest (beq_self_eq_true front)

def Head.text (head : Head) : List Char :=
  ['@', '@', ' ', '-'] ++ (Nat.toDigits 10 head.oldStart ++ ([','] ++
    (Nat.toDigits 10 head.oldLength ++ ([' ', '+'] ++ (Nat.toDigits 10 head.newStart ++
      ([','] ++ (Nat.toDigits 10 head.newLength ++ [' ', '@', '@'])))))))

theorem head?_text (head : Head) : head? head.text = some head := by
  have hcomma (rest : List Char) : ∀ c ∈ ([','] ++ rest).head?, isDigit c = false := by
    simp; decide
  have hplus (rest : List Char) : ∀ c ∈ ([' ', '+'] ++ rest).head?, isDigit c = false := by
    simp; decide
  have hend : ∀ c ∈ [' ', '@', '@'].head?, isDigit c = false := by simp; decide
  simp only [head?, Head.text, dropPrefix?_append, number?_toDigits _ (hcomma _),
    number?_toDigits _ (hplus _), number?_toDigits _ hend, Option.bind_eq_bind,
    Option.bind_some, if_pos]

/-- The characters of a line of a hunk as it is printed. -/
def opText : LineOp (List Char) → List Char
  | .keep line => ' ' :: line
  | .remove line => '-' :: line
  | .add line => '+' :: line

theorem hunksFrom?_ops (ops : List (LineOp (List Char))) {lines : List (List Char)}
    {hunks : List Hunk} (h : hunksFrom? 0 0 lines = some ([], hunks)) :
    hunksFrom? (ops.filterMap LineOp.old?).length (ops.filterMap LineOp.new?).length
      (ops.map opText ++ lines) = some (ops, hunks) := by
  induction ops with
  | nil => exact h
  | cons op ops ih =>
    cases op with
    | keep line => simp [hunksFrom?, opText, op?, left?, ih]
    | remove line => simp [hunksFrom?, opText, op?, left?, ih, List.filterMap_cons]
    | add line => simp [hunksFrom?, opText, op?, left?, ih, List.filterMap_cons]

/-- A renderer that writes no colours. -/
def plain : Renderer :=
  ⟨false⟩

@[simp] theorem paint_plain (style : Style) (text : String) : plain.paint style text = text :=
  rfl

theorem toList_diffLine (op : LineOp (List Char)) :
    (plain.diffLine op).toList = opText op := by
  cases op <;> simp [Renderer.diffLine, opText]

theorem toList_hunk (hunk : LineDiff.Hunk (List Char)) :
    (plain.hunk hunk).map String.toList =
      (Hunk.ofScript hunk).head.text :: hunk.ops.map opText := by
  have hops : (hunk.ops.map plain.diffLine).map String.toList = hunk.ops.map opText := by
    simp [toList_diffLine]
  rw [Renderer.hunk, List.map_cons, hops, paint_plain]
  refine List.cons_eq_cons.2 ⟨?_, rfl⟩
  simp [Hunk.ofScript, Head.text, toString]

theorem hunksFrom?_hunks (hunks : List (LineDiff.Hunk (List Char))) :
    hunksFrom? 0 0 ((hunks.flatMap plain.hunk).map String.toList) =
      some ([], hunks.map Hunk.ofScript) := by
  induction hunks with
  | nil => rfl
  | cons hunk hunks ih =>
    have hbody : hunksFrom? hunk.oldLength hunk.newLength (hunk.ops.map opText ++
        (hunks.flatMap plain.hunk).map String.toList) = some (hunk.ops, hunks.map Hunk.ofScript) :=
      hunksFrom?_ops hunk.ops ih
    rw [List.flatMap_cons, List.map_append, toList_hunk, List.cons_append, hunksFrom?, head?_text]
    simp [Hunk.ofScript, hbody]

/-! ### Lines have no line breaks -/

theorem newline_not_mem_lines (cs : List Char) : ∀ line ∈ Text.lines cs, '\n' ∉ line := by
  fun_induction Text.lines cs with
  | case1 => simp
  | case2 cs ih => simpa using ih
  | case3 cs ih => simpa using ih
  | case4 c cs hc _ hnil ih => simpa using Ne.symm hc
  | case5 c cs hc _ line rest hlines ih =>
    rw [hlines] at ih
    simpa [Ne.symm hc] using ih

theorem newline_not_mem_toDigits (n : Nat) : '\n' ∉ Nat.toDigits 10 n := by
  intro h
  have hdigit : isDigit '\n' = true := Json.isDigit_of_mem_toDigits h
  exact absurd hdigit (by decide)

theorem newline_not_mem_text (head : Head) : '\n' ∉ head.text := by
  simp [Head.text, newline_not_mem_toDigits]

theorem newline_not_mem_opText {old new : List (List Char)} {op : LineOp (List Char)}
    (hold : ∀ line ∈ old, '\n' ∉ line) (hnew : ∀ line ∈ new, '\n' ∉ line)
    (hop : op ∈ script old new) : '\n' ∉ opText op := by
  have holdLine {line} (h : op.old? = some line) : line ∈ old := by
    rw [← LineDiff.old_script old new]
    exact List.mem_filterMap.2 ⟨op, hop, h⟩
  have hnewLine {line} (h : op.new? = some line) : line ∈ new := by
    rw [← LineDiff.new_script old new]
    exact List.mem_filterMap.2 ⟨op, hop, h⟩
  cases op with
  | keep line => simpa [opText] using hold line (holdLine rfl)
  | remove line => simpa [opText] using hold line (holdLine rfl)
  | add line => simpa [opText] using hnew line (hnewLine rfl)

/-! ### The whole text -/

theorem intercalate_cons_eq (front : List Char) (lines : List (List Char)) :
    ['\n'].intercalate (front :: lines) = front ++ ['\n'].intercalate ([] :: lines) := by
  cases lines with
  | nil => simp
  | cons line lines => simp [List.intercalate_cons_cons]

theorem read?_hunks (file : String) {hunks : List (LineDiff.Hunk (List Char))}
    (h : ∀ hunk ∈ hunks, ∀ op ∈ hunk.ops, '\n' ∉ opText op) :
    read? file ("\n".intercalate (s!"--- {file}" :: s!"+++ {file}" :: hunks.flatMap plain.hunk)) =
      some (hunks.map Hunk.ofScript) := by
  set lines := (hunks.flatMap plain.hunk).map String.toList with hlines
  have htext : ("\n".intercalate
      (s!"--- {file}" :: s!"+++ {file}" :: hunks.flatMap plain.hunk)).toList =
        s!"--- {file}\n+++ {file}".toList ++ ['\n'].intercalate ([] :: lines) := by
    rw [String.toList_intercalate, List.map_cons, List.map_cons, ← hlines]
    rw [show "\n".toList = ['\n'] from rfl, List.intercalate_cons_cons, intercalate_cons_eq]
    simp [toString]
  have hclean : ∀ line ∈ [] :: lines, '\n' ∉ line := by
    refine List.forall_mem_cons.2 ⟨List.not_mem_nil, fun line hline => ?_⟩
    rw [hlines, List.map_flatMap, List.mem_flatMap] at hline
    obtain ⟨hunk, hhunk, hline⟩ := hline
    rw [toList_hunk] at hline
    rcases List.mem_cons.1 hline with rfl | hline
    · exact newline_not_mem_text _
    · obtain ⟨op, hop, rfl⟩ := List.mem_map.1 hline
      exact h hunk hhunk op hop
  have hsplit := List.splitOn_intercalate '\n' hclean (List.cons_ne_nil _ _)
  have hread : hunksFrom? 0 0 lines = some ([], hunks.map Hunk.ofScript) := hunksFrom?_hunks hunks
  rw [read?, htext, dropPrefix?_append]
  simp only [Option.bind_eq_bind, Option.bind_some, hsplit, hread, Option.map_some]

/-! ## Stretches of a script -/

/-- The steps of a script from one position up to another. -/
def stretch (ops : List (LineOp (List Char))) (start stop : Nat) : List (LineOp (List Char)) :=
  (ops.drop start).take (stop - start)

/-- The hunk of a range, as it is read. -/
def hunkAt (ops : List (LineOp (List Char))) (range : Nat × Nat) : Hunk :=
  Hunk.ofScript
    { oldBefore := ((ops.take range.1).filterMap LineOp.old?).length
      newBefore := ((ops.take range.1).filterMap LineOp.new?).length
      ops := stretch ops range.1 range.2 }

theorem map_ofScript_hunks (ops : List (LineOp (List Char))) :
    (LineDiff.hunks ops).map Hunk.ofScript = (hunkRanges ops).map (hunkAt ops) := by
  simp [LineDiff.hunks, hunkAt, stretch]

variable {ops : List (LineOp (List Char))} {start stop : Nat}

theorem take_append_stretch (h : start ≤ stop) :
    ops.take start ++ stretch ops start stop = ops.take stop := by
  rw [stretch, ← List.take_add, Nat.add_sub_cancel' h]

theorem stretch_append_drop (h : start ≤ stop) :
    stretch ops start stop ++ ops.drop stop = ops.drop start := by
  have hdrop : ops.drop stop = (ops.drop start).drop (stop - start) := by
    rw [List.drop_drop, Nat.add_sub_cancel' h]
  rw [hdrop, stretch, List.take_append_drop]

theorem stretch_append_stretch {middle : Nat} (hstart : start ≤ middle) (hstop : middle ≤ stop) :
    stretch ops start middle ++ stretch ops middle stop = stretch ops start stop := by
  have hmiddle : ops.drop middle = (ops.drop start).drop (middle - start) := by
    rw [List.drop_drop, Nat.add_sub_cancel' hstart]
  have hlength : stop - start = middle - start + (stop - middle) := by omega
  rw [stretch, stretch, stretch, hmiddle, hlength, ← List.take_add]

theorem exists_of_mem_stretch {op : LineOp (List Char)} (h : op ∈ stretch ops start stop) :
    ∃ i, start ≤ i ∧ i < stop ∧ ops[i]? = some op := by
  obtain ⟨i, hi⟩ := List.mem_iff_getElem?.1 h
  obtain ⟨hlt, hi⟩ : i < stop - start ∧ ops[start + i]? = some op := by
    simpa [stretch, List.getElem?_take, List.getElem?_drop] using hi
  exact ⟨start + i, Nat.le_add_right _ _, by omega, hi⟩

section Sides

variable (ops) (side : LineOp (List Char) → Option (List Char))

/-- How many lines of one side come before a position of a script. -/
def linesBefore (position : Nat) : Nat :=
  ((ops.take position).filterMap side).length

theorem linesBefore_add_stretch (h : start ≤ stop) :
    linesBefore ops side start + ((stretch ops start stop).filterMap side).length =
      linesBefore ops side stop := by
  rw [linesBefore, linesBefore, ← List.length_append, ← List.filterMap_append,
    take_append_stretch h]

theorem linesBefore_mono (h : start ≤ stop) :
    linesBefore ops side start ≤ linesBefore ops side stop := by
  rw [← linesBefore_add_stretch ops side h]
  exact Nat.le_add_right _ _

/-- The lines of a stretch, on either side, are where it begins. -/
theorem standsAt_stretch (h : start ≤ stop) :
    StandsAt (linesBefore ops side start + 1) ((stretch ops start stop).filterMap side)
      (ops.filterMap side) := by
  refine ⟨(ops.take start).filterMap side, (ops.drop stop).filterMap side, ?_, rfl⟩
  rw [← List.filterMap_append, ← List.filterMap_append, take_append_stretch h,
    List.take_append_drop]

end Sides

theorem fits_hunkAt {range : Nat × Nat} (h : range.1 ≤ range.2) :
    (hunkAt ops range).Fits (ops.filterMap LineOp.old?) (ops.filterMap LineOp.new?) where
  oldLength := rfl
  newLength := rfl
  old := standsAt_stretch ops LineOp.old? h
  new := standsAt_stretch ops LineOp.new? h

theorem hunkAt_before {range next : Nat × Nat} (hrange : range.1 ≤ range.2)
    (hnext : range.2 ≤ next.1) : (hunkAt ops range).Before (hunkAt ops next) := by
  have hside (side : LineOp (List Char) → Option (List Char)) :
      linesBefore ops side range.1 + 1 +
          ((stretch ops range.1 range.2).filterMap side).length ≤
        linesBefore ops side next.1 + 1 := by
    have hstop := linesBefore_add_stretch ops side hrange
    have hmono := linesBefore_mono ops side hnext
    omega
  exact ⟨hside LineOp.old?, hside LineOp.new?⟩

/-! ## Applying the hunks of a script -/

theorem old_eq_new_of_keeps (h : ∀ op ∈ ops, op.isKeep = true) :
    ops.filterMap LineOp.old? = ops.filterMap LineOp.new? := by
  refine List.filterMap_congr fun op hop => ?_
  have hkeep := h op hop
  cases op with
  | keep line => rfl
  | remove line => cases hkeep
  | add line => cases hkeep

theorem applyFrom_append {passed : Nat} {hunk : Hunk} {gap : List (List Char)}
    (hstart : hunk.head.oldStart = passed + gap.length + 1)
    (hlength : hunk.head.oldLength = hunk.oldLines.length) (hunks : List Hunk)
    (rest : List (List Char)) :
    applyFrom passed (hunk :: hunks) (gap ++ (hunk.oldLines ++ rest)) =
      gap ++ hunk.newLines ++
        applyFrom (passed + gap.length + hunk.oldLines.length) hunks rest := by
  have hgap : hunk.head.oldStart - 1 - passed = gap.length := by omega
  have hrest : (gap ++ (hunk.oldLines ++ rest)).drop (gap.length + hunk.oldLines.length) =
      rest := by
    rw [← List.append_assoc, ← List.length_append, List.drop_left]
  rw [applyFrom, hgap, hlength, hrest, List.take_left]

/-- What one hunk does, if everything between `first` and it is kept: it writes the new lines of
both. -/
theorem applyFrom_cons {first : Nat} {range : Nat × Nat} {hunks : List Hunk}
    (hfirst : first ≤ range.1) (hrange : range.1 ≤ range.2)
    (hkept : ∀ op ∈ stretch ops first range.1, op.isKeep = true) :
    applyFrom (linesBefore ops LineOp.old? first) (hunkAt ops range :: hunks)
        ((ops.drop first).filterMap LineOp.old?) =
      (stretch ops first range.2).filterMap LineOp.new? ++
        applyFrom (linesBefore ops LineOp.old? range.2) hunks
          ((ops.drop range.2).filterMap LineOp.old?) := by
  set gap := (stretch ops first range.1).filterMap LineOp.old? with hgap
  have hstart : linesBefore ops LineOp.old? first + gap.length =
      linesBefore ops LineOp.old? range.1 := linesBefore_add_stretch ops LineOp.old? hfirst
  have hstop : linesBefore ops LineOp.old? range.1 + (hunkAt ops range).oldLines.length =
      linesBefore ops LineOp.old? range.2 := linesBefore_add_stretch ops LineOp.old? hrange
  have hold : (ops.drop first).filterMap LineOp.old? =
      gap ++ ((hunkAt ops range).oldLines ++ (ops.drop range.2).filterMap LineOp.old?) := by
    rw [← stretch_append_drop hfirst, ← stretch_append_drop hrange, List.filterMap_append,
      List.filterMap_append]
    rfl
  have hnew : gap ++ (hunkAt ops range).newLines =
      (stretch ops first range.2).filterMap LineOp.new? := by
    rw [hgap, old_eq_new_of_keeps hkept, ← stretch_append_stretch hfirst hrange,
      List.filterMap_append]
    rfl
  have hhead : (hunkAt ops range).head.oldStart =
      linesBefore ops LineOp.old? first + gap.length + 1 := by
    rw [hstart]
    rfl
  rw [hold, applyFrom_append hhead rfl, hnew, hstart, hstop]

/-- Whatever is from `first` on and in none of some ranges is kept. -/
def KeptFrom (ops : List (LineOp (List Char))) (first : Nat) (ranges : List (Nat × Nat)) : Prop :=
  ∀ i op, first ≤ i → ops[i]? = some op → (∀ range ∈ ranges, ¬Within range i) → op.isKeep = true

theorem applyFrom_hunkAt {first : Nat} {ranges : List (Nat × Nat)}
    (hapart : ranges.Pairwise fun earlier later => earlier.2 < later.1)
    (hproper : ∀ range ∈ ranges, first ≤ range.1 ∧ range.1 < range.2)
    (hkept : KeptFrom ops first ranges) :
    applyFrom (linesBefore ops LineOp.old? first) (ranges.map (hunkAt ops))
      ((ops.drop first).filterMap LineOp.old?) = (ops.drop first).filterMap LineOp.new? := by
  induction ranges generalizing first with
  | nil =>
    refine old_eq_new_of_keeps fun op hop => ?_
    obtain ⟨i, hi⟩ := List.mem_iff_getElem?.1 hop
    rw [List.getElem?_drop] at hi
    exact hkept (first + i) op (Nat.le_add_right _ _) hi (by simp)
  | cons range ranges ih =>
    obtain ⟨hafter, hapart⟩ := List.pairwise_cons.1 hapart
    obtain ⟨⟨hfirst, hrange⟩, hproper⟩ := List.forall_mem_cons.1 hproper
    have hgap : ∀ op ∈ stretch ops first range.1, op.isKeep = true := by
      intro op hop
      obtain ⟨i, hi, hlt, hop⟩ := exists_of_mem_stretch hop
      refine hkept i op hi hop (List.forall_mem_cons.2 ⟨?_, fun later hlater => ?_⟩)
      · exact fun hwithin => absurd hwithin.1 (Nat.not_le.2 hlt)
      · have hlaterStart := hafter later hlater
        exact fun hwithin => absurd hwithin.1 (by omega)
    have hrest : KeptFrom ops range.2 ranges := by
      intro i op hi hop hnot
      refine hkept i op (by omega) hop (List.forall_mem_cons.2 ⟨?_, hnot⟩)
      exact fun hwithin => absurd hwithin.2 (Nat.not_lt.2 hi)
    have hlater : ∀ later ∈ ranges, range.2 ≤ later.1 ∧ later.1 < later.2 := fun later hmem =>
      ⟨(hafter later hmem).le, (hproper later hmem).2⟩
    rw [List.map_cons, applyFrom_cons hfirst hrange.le hgap, ih hapart hlater hrest,
      ← List.filterMap_append, stretch_append_drop (by omega)]

/-- Lines that are printed as a diff without colours are read back as hunks that come one after the
other, have their lines where their heads say, and make the new lines from the old ones. -/
theorem printed_diff_faithful (file before after : String) :
    ∃ hunks, read? file (plain.diff file before after) = some hunks ∧
      hunks.Pairwise Hunk.Before ∧
      (∀ hunk ∈ hunks, hunk.Fits (Text.lines before.toList) (Text.lines after.toList)) ∧
      applyFrom 0 hunks (Text.lines before.toList) = Text.lines after.toList := by
  set old := Text.lines before.toList with hold
  set new := Text.lines after.toList with hnew
  set ops := script old new with hops
  have holdLines : ops.filterMap LineOp.old? = old := LineDiff.old_script old new
  have hnewLines : ops.filterMap LineOp.new? = new := LineDiff.new_script old new
  refine ⟨(hunkRanges ops).map (hunkAt ops), ?_, ?_, ?_, ?_⟩
  · rw [← map_ofScript_hunks]
    refine read?_hunks file fun hunk hhunk op hop => ?_
    obtain ⟨range, -, rfl⟩ := List.mem_map.1 hhunk
    refine newline_not_mem_opText (newline_not_mem_lines _) (newline_not_mem_lines _)
      (List.mem_of_mem_drop (List.mem_of_mem_take hop))
  · refine List.pairwise_map.2 ((LineDiff.hunkRanges_apart ops).imp_of_mem ?_)
    intro range next hrange hnext hapart
    exact hunkAt_before (LineDiff.hunkRanges_proper hrange).1.le hapart.le
  · intro hunk hhunk
    obtain ⟨range, hrange, rfl⟩ := List.mem_map.1 hhunk
    rw [← holdLines, ← hnewLines]
    exact fits_hunkAt (LineDiff.hunkRanges_proper hrange).1.le
  · rw [← holdLines, ← hnewLines]
    have hproper : ∀ range ∈ hunkRanges ops, 0 ≤ range.1 ∧ range.1 < range.2 := fun range hrange =>
      ⟨Nat.zero_le _, (LineDiff.hunkRanges_proper hrange).1⟩
    have hkept : KeptFrom ops 0 (hunkRanges ops) := fun i op _ hop hnot =>
      LineDiff.isKeep_of_not_within hop hnot
    have happlied := applyFrom_hunkAt (LineDiff.hunkRanges_apart ops) hproper hkept
    simpa [linesBefore] using happlied

end TypeMend.UnifiedDiff
