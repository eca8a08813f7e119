import TypeMend.Insertion
import TypeMend.Proofs.Splice

/-!
# Inserting a member by offsets

`Insertion.change?` takes a declaration apart as a list of characters, which cannot go wrong. A
program that works on offsets finds the braces and the last line of a declaration by searching for
their characters and takes slices between what it found; each slice has to lie in the text and
begin and end between characters. `changeBySlices?` is that program, where the outer `none` stands
for a slice that does not fit. No slice ever fails to fit, whatever range the declaration is
said to have, and the insertion is the same.
-/
namespace TypeMend

namespace Text

def offsetOf? (c : Char) : List Char → Option Nat
  | [] => none
  | d :: cs => if d = c then some 0 else (offsetOf? c cs).map (d.utf8Size + ·)

def lastOffsetOf? (c : Char) : List Char → Option Nat
  | [] => none
  | d :: cs =>
    match lastOffsetOf? c cs with
    | some n => some (d.utf8Size + n)
    | none => if d = c then some 0 else none

theorem lastOffsetOf?_append (c : Char) (xs ys : List Char) :
    lastOffsetOf? c (xs ++ ys) =
      ((lastOffsetOf? c ys).map (byteLength xs + ·)).or (lastOffsetOf? c xs) := by
  induction xs with
  | nil => simp [lastOffsetOf?]
  | cons x xs ih =>
    rw [List.cons_append, lastOffsetOf?, ih, lastOffsetOf?]
    cases lastOffsetOf? c ys with
    | some n => simp [Nat.add_assoc]
    | none => simp

theorem lastOffsetOf?_lt {c : Char} {cs : List Char} {n : Nat} (h : lastOffsetOf? c cs = some n) :
    n < byteLength cs := by
  induction cs generalizing n with
  | nil => cases h
  | cons d cs ih =>
    have hd := Char.utf8Size_pos d
    rw [lastOffsetOf?] at h
    cases hrest : lastOffsetOf? c cs with
    | some k =>
      rw [hrest] at h
      cases h
      have := ih hrest
      simp only [byteLength_cons]
      omega
    | none =>
      rw [hrest] at h
      dsimp only at h
      split_ifs at h
      cases h
      simp only [byteLength_cons]
      omega

theorem trimEnd_append_blanks (cs : List Char) :
    ∃ blanks, cs = trimEnd cs ++ blanks ∧ allBlank blanks = true := by
  induction cs with
  | nil => exact ⟨[], rfl, rfl⟩
  | cons c cs ih =>
    obtain ⟨blanks, hblanks, hblank⟩ := ih
    unfold trimEnd
    cases htrim : trimEnd cs with
    | nil =>
      have hall : allBlank cs = true := (trimEnd_eq_nil_iff cs).1 htrim
      dsimp only
      split_ifs with hc
      · exact ⟨c :: cs, rfl, by simpa [allBlank, hc] using hall⟩
      · exact ⟨cs, rfl, hall⟩
    | cons d ds =>
      rw [htrim] at hblanks
      exact ⟨blanks, congrArg (c :: ·) hblanks, hblank⟩

end Text

namespace Insertion

open Text

/-! ## The parts of a declaration -/

theorem afterBrace?_eq_some {cs inside : List Char} (h : afterBrace? cs = some inside) :
    ∃ head, cs = head ++ '\x7b' :: inside ∧ offsetOf? '\x7b' cs = some (byteLength head) := by
  induction cs with
  | nil => cases h
  | cons c cs ih =>
    rw [afterBrace?] at h
    split_ifs at h with hc
    · cases h
      exact ⟨[], by simp [hc], by simp [offsetOf?, hc]⟩
    · obtain ⟨head, rfl, hoffset⟩ := ih h
      exact ⟨c :: head, rfl, by simp [offsetOf?, hc, hoffset]⟩

theorem afterBrace?_eq_none {cs : List Char} (h : afterBrace? cs = none) :
    offsetOf? '\x7b' cs = none := by
  induction cs with
  | nil => rfl
  | cons c cs ih =>
    rw [afterBrace?] at h
    split_ifs at h with hc
    simp [offsetOf?, hc, ih h]

theorem splitLastLine?_eq_none {cs : List Char} (h : splitLastLine? cs = none) :
    lastOffsetOf? '\n' cs = none := by
  induction cs with
  | nil => rfl
  | cons c cs ih =>
    rw [splitLastLine?] at h
    cases hrest : splitLastLine? cs with
    | some parts => simp [hrest] at h
    | none =>
      rw [hrest] at h
      dsimp only at h
      split_ifs at h with hc
      simp [lastOffsetOf?, ih hrest, hc]

theorem splitLastLine?_eq_some {cs members closing : List Char}
    (h : splitLastLine? cs = some (members, closing)) :
    cs = members ++ closing ∧ ∃ n, lastOffsetOf? '\n' cs = some n ∧ n + 1 = byteLength members := by
  induction cs generalizing members with
  | nil => cases h
  | cons c cs ih =>
    rw [splitLastLine?] at h
    cases hrest : splitLastLine? cs with
    | some parts =>
      obtain ⟨before, last⟩ := parts
      rw [hrest] at h
      cases h
      obtain ⟨rfl, n, hn, hlength⟩ := ih hrest
      refine ⟨rfl, c.utf8Size + n, by simp [lastOffsetOf?, hn], ?_⟩
      simp only [byteLength_cons]
      omega
    | none =>
      rw [hrest] at h
      dsimp only at h
      split_ifs at h with hc
      cases h
      refine ⟨rfl, 0, by simp [lastOffsetOf?, splitLastLine?_eq_none hrest, hc], ?_⟩
      subst hc
      decide

/-! ## Slices -/

/-- The blanks at the front of the last line that is not blank, as a slice of it. -/
def lastIndentBySlices? (cs : List Char) : Option (Option (List Char)) :=
  ((lines cs).reverse.find? fun line => !allBlank line).mapM fun line =>
    slice? 0 (byteLength line - byteLength (trimStart line)) line

/-- The offset just past the last line feed of a text, or zero. -/
def lastLineStart (cs : List Char) : Nat :=
  ((lastOffsetOf? '\n' cs).map (· + 1)).getD 0

/-- The insertion of a member before the closing brace at `close`, on the line that begins at
`line`. The opening brace is at `opening`. -/
def ownLineBySlices? (unit property : String) (opening line close : Nat) (cs : List Char) :
    Option TextChange := do
  let closing ← slice? line close cs
  let members ← slice? (opening + 1) line cs
  let indent ← lastIndentBySlices? members
  return .insertion line
    (String.ofList (indent.getD (closing ++ unit.toList) ++ property.toList ++ [';', '\n']))

/-- The insertion of a member before the closing brace, on the line of what stands before it. -/
def inlineBySlices? (property : String) (opening close : Nat) (cs : List Char) :
    Option TextChange := do
  let trimmed := trimEnd (← slice? opening close cs)
  let place := opening + byteLength trimmed
  return .insertion place (String.ofList (inlineText trimmed (place == close) property.toList))

/-- The insertion of a member before the closing brace. -/
def inBodyBySlices? (unit property : String) (opening close : Nat) (cs : List Char) :
    Option TextChange := do
  let line := lastLineStart (← slice? 0 close cs)
  let ownLine ← if opening < line then (slice? line close cs).map allBlank else some false
  if ownLine then ownLineBySlices? unit property opening line close cs
  else inlineBySlices? property opening close cs

/-- The insertion of a member into the declaration from `start` to `stop`, if it has braces. -/
def changeBySlices? (unit : String) (start stop : Nat) (property : String) (cs : List Char) :
    Option (Option TextChange) :=
  if stop = 0 ∨ byteLength cs < stop ∨ isBoundary (stop - 1) cs = false then some none
  else do
    let after ← slice? (stop - 1) (byteLength cs) cs
    if after.head? = some '\x7d' then
      match (slice? start (stop - 1) cs).bind (offsetOf? '\x7b') with
      | none => return none
      | some offset => (inBodyBySlices? unit property (start + offset) (stop - 1) cs).map some
    else return none

theorem lastIndentBySlices?_eq (cs : List Char) :
    lastIndentBySlices? cs = some (lastIndent? cs) := by
  unfold lastIndentBySlices? lastIndent?
  cases (lines cs).reverse.find? fun line => !allBlank line with
  | none => rfl
  | some line =>
    have hline : line = line.takeWhile isBlank ++ trimStart line :=
      (List.takeWhile_append_dropWhile).symm
    have hslice : slice? 0 (byteLength line - byteLength (trimStart line)) line =
        some (line.takeWhile isBlank) := by
      refine slice?_of_eq [] _ (trimStart line) hline rfl ?_
      have := congrArg byteLength hline
      rw [byteLength_append] at this
      simp only [byteLength_nil]
      omega
    simp [hslice]

/-- The last line of a declaration begins inside it exactly when a line feed does. -/
theorem lastLineStart_le (front : List Char) {inside : List Char}
    (h : splitLastLine? inside = none) :
    lastLineStart (front ++ '\x7b' :: inside) ≤ byteLength front := by
  have hinside : lastOffsetOf? '\n' ('\x7b' :: inside) = none := by
    simp [lastOffsetOf?, splitLastLine?_eq_none h]
  rw [lastLineStart, lastOffsetOf?_append, hinside, Option.map_none, Option.none_or]
  cases hfront : lastOffsetOf? '\n' front with
  | none => simp
  | some n =>
    have := lastOffsetOf?_lt hfront
    simp
    omega

theorem lastLineStart_eq (front : List Char) {inside members closing : List Char}
    (h : splitLastLine? inside = some (members, closing)) :
    lastLineStart (front ++ '\x7b' :: inside) = byteLength front + 1 + byteLength members := by
  obtain ⟨-, n, hn, hlength⟩ := splitLastLine?_eq_some h
  have hinside : lastOffsetOf? '\n' ('\x7b' :: inside) = some (1 + n) := by
    simp [lastOffsetOf?, hn]
    rfl
  rw [lastLineStart, lastOffsetOf?_append, hinside]
  simp
  omega

theorem brace_utf8Size : '\x7b'.utf8Size = 1 := rfl

theorem trimEnd_brace (cs : List Char) : trimEnd ('\x7b' :: cs) = '\x7b' :: trimEnd cs := by
  rw [trimEnd]
  cases trimEnd cs with
  | nil => decide
  | cons => rfl

theorem trailingBlanks_spec (cs : List Char) :
    cs = trimEnd cs ++ trailingBlanks cs ∧ allBlank (trailingBlanks cs) = true := by
  obtain ⟨blanks, hblanks, hblank⟩ := trimEnd_append_blanks cs
  have hdrop : trailingBlanks cs = blanks := by
    have := congrArg (List.drop (trimEnd cs).length) hblanks
    rwa [List.drop_left] at this
  rw [hdrop]
  exact ⟨hblanks, hblank⟩

theorem byteLength_trailingBlanks (cs : List Char) :
    byteLength (trimEnd cs) + byteLength (trailingBlanks cs) = byteLength cs := by
  rw [← byteLength_append, ← (trailingBlanks_spec cs).1]

section Body

variable {cs front inside after : List Char} {close : Nat}

theorem inlineBySlices?_eq (property : String) (hcs : cs = front ++ '\x7b' :: inside ++ after)
    (hclose : close = byteLength front + 1 + byteLength inside) :
    inlineBySlices? property (byteLength front) close cs =
      some (.insertion (close - byteLength (trailingBlanks inside))
        (String.ofList (inlineText ('\x7b' :: trimEnd inside) (trailingBlanks inside).isEmpty
          property.toList))) := by
  have hslice : slice? (byteLength front) close cs = some ('\x7b' :: inside) :=
    slice?_of_eq front _ after hcs rfl (by simp [hclose, brace_utf8Size]; omega)
  have hlength := byteLength_trailingBlanks inside
  have hplace : byteLength front + byteLength ('\x7b' :: trimEnd inside) =
      close - byteLength (trailingBlanks inside) := by
    simp only [byteLength_cons, brace_utf8Size]
    omega
  have htouching : (close - byteLength (trailingBlanks inside) == close) =
      (trailingBlanks inside).isEmpty := by
    rw [Bool.eq_iff_iff, beq_iff_eq, List.isEmpty_iff, ← byteLength_eq_zero_iff]
    omega
  rw [inlineBySlices?, hslice]
  simp only [Option.bind_eq_bind, Option.bind_some, trimEnd_brace, hplace, htouching]
  rfl

theorem inBodyBySlices?_eq (unit property : String)
    (hcs : cs = front ++ '\x7b' :: inside ++ after)
    (hclose : close = byteLength front + 1 + byteLength inside) :
    inBodyBySlices? unit property (byteLength front) close cs =
      some (inBody unit property ⟨close, inside⟩) := by
  have hwhole : slice? 0 close cs = some (front ++ '\x7b' :: inside) :=
    slice?_of_eq [] _ after hcs rfl (by simp [hclose, brace_utf8Size]; omega)
  have hinline := inlineBySlices?_eq property hcs hclose
  cases hsplit : splitLastLine? inside with
  | none =>
    have hle := lastLineStart_le front hsplit
    simp [inBodyBySlices?, hwhole, Nat.not_lt.2 hle, hinline, inBody, hsplit]
  | some parts =>
    obtain ⟨members, closing⟩ := parts
    have hline := lastLineStart_eq front hsplit
    obtain ⟨hinside, -⟩ := splitLastLine?_eq_some hsplit
    have hlt : byteLength front < byteLength front + 1 + byteLength members := by omega
    have hclosing : slice? (byteLength front + 1 + byteLength members) close cs =
        some closing := by
      refine slice?_of_eq (front ++ '\x7b' :: members) _ after (by simp [hcs, hinside]) ?_ ?_
      · simp [brace_utf8Size]
        omega
      · simp [hclose, hinside, brace_utf8Size]
        omega
    have hmembers : slice? (byteLength front + 1) (byteLength front + 1 + byteLength members)
        cs = some members := by
      refine slice?_of_eq (front ++ ['\x7b']) _ (closing ++ after) (by simp [hcs, hinside]) ?_ ?_
      · simp [brace_utf8Size]
      · simp [brace_utf8Size]
    have hplace : byteLength front + 1 + byteLength members = close - byteLength closing := by
      simp [hclose, hinside]
      omega
    cases hblank : allBlank closing with
    | true =>
      simp [inBodyBySlices?, ownLineBySlices?, hwhole, hline, hlt, hclosing, hmembers, hblank,
        lastIndentBySlices?_eq, inBody, hsplit, memberIndent, ← hplace]
    | false =>
      simp [inBodyBySlices?, hwhole, hline, hlt, hclosing, hblank, hinline, inBody, hsplit]

end Body

/-- The inside of a declaration whose range ends in the text. -/
theorem body?_of_cut {cs before after : List Char} {start stop : Nat} (hpos : stop ≠ 0)
    (hcut : cut? (stop - 1) cs = some (before, after)) :
    body? start stop cs =
      if after.head? = some '\x7d' then
        ((cut? start before).bind fun parts => afterBrace? parts.2).map (Body.mk (stop - 1))
      else none := by
  unfold body?
  rw [hcut]
  simp [guard, Nat.pos_of_ne_zero hpos]
  split_ifs
  · cases cut? start before with
    | none => rfl
    | some parts => cases h : afterBrace? parts.2 <;> simp [h]
  · rfl

/-- What stands at the end of the range of a declaration is a slice of the text. -/
theorem changeBySlices?_of_cut (unit property : String) {cs before after : List Char}
    {start close : Nat} (hcut : cut? close cs = some (before, after)) (hafter : after ≠ []) :
    changeBySlices? unit start (close + 1) property cs =
      if after.head? = some '\x7d' then
        match ((cut? start before).map Prod.snd).bind (offsetOf? '\x7b') with
        | none => some none
        | some offset => (inBodyBySlices? unit property (start + offset) close cs).map some
      else some none := by
  obtain ⟨hcs, hbefore⟩ := cut?_eq_some_iff.1 hcut
  have hlength : byteLength cs = close + byteLength after := by
    rw [hcs, byteLength_append, hbefore]
  have hpos : byteLength after ≠ 0 := by simpa using hafter
  have hgood : ¬(close + 1 = 0 ∨ byteLength cs < close + 1 ∨ isBoundary close cs = false) := by
    simp [isBoundary, hcut]
    omega
  have hslice : slice? close (byteLength cs) cs = some after :=
    slice?_of_eq before _ [] (by simp [hcs]) hbefore.symm (by rw [hlength, hbefore])
  have hregion : slice? start close cs = (cut? start before).map Prod.snd := by
    rw [slice?, hcut, Option.bind_some]
  rw [changeBySlices?, Nat.add_sub_cancel, if_neg hgood, hslice, hregion]
  rfl

/-- Every slice fits, and the insertion is the one found without slices. -/
theorem changeBySlices?_eq (unit : String) (start stop : Nat) (property : String)
    (cs : List Char) :
    changeBySlices? unit start stop property cs = some (change? unit start stop property cs) := by
  cases hcut : cut? (stop - 1) cs with
  | none => simp [changeBySlices?, change?, body?, isBoundary, hcut]
  | some parts =>
    obtain ⟨before, after⟩ := parts
    obtain ⟨hcs, hbefore⟩ := cut?_eq_some_iff.1 hcut
    by_cases hpos : stop = 0
    · simp [changeBySlices?, change?, body?, hpos]
    · obtain ⟨close, rfl⟩ := Nat.exists_eq_succ_of_ne_zero hpos
      rw [Nat.succ_sub_one] at hcut hbefore
      rw [change?, body?_of_cut hpos hcut]
      by_cases hafter : after = []
      · have hshort : byteLength cs < close + 1 := by simp [hcs, hafter, hbefore]
        simp [changeBySlices?, hshort, hafter]
      · rw [Nat.succ_eq_add_one, changeBySlices?_of_cut unit property hcut hafter]
        split_ifs with hbrace
        · cases hstart : cut? start before with
          | none => rfl
          | some parts =>
            obtain ⟨front, region⟩ := parts
            obtain ⟨rfl, hfront⟩ := cut?_eq_some_iff.1 hstart
            cases hopening : afterBrace? region with
            | none => simp [hopening, afterBrace?_eq_none hopening]
            | some inside =>
              obtain ⟨head, rfl, hoffset⟩ := afterBrace?_eq_some hopening
              have hparts : cs = (front ++ head) ++ '\x7b' :: inside ++ after := by simp [hcs]
              have hclose : close = byteLength (front ++ head) + 1 + byteLength inside := by
                rw [← hbefore]
                simp [brace_utf8Size]
                omega
              have hbody := inBodyBySlices?_eq unit property hparts hclose
              rw [byteLength_append, hfront] at hbody
              simp [hoffset, hopening, hbody]
        · rfl

end Insertion

end TypeMend
