import TypeMend.Proofs.Bytes
import TypeMend.Text.Line

/-!
# Offsets as lines and columns

The lines of a `LineIndex` begin at the start of the text and just past each line ending. An offset
lies on the last line that begins at or before it, and its column counts the characters between.
Where the text can be cut, later offsets have later positions, so a position tells its offset.
-/
namespace TypeMend

namespace Text

/-! ## Line endings -/

/-- Whether a line ends between two parts of a text: the first ends with a line feed, or with a
carriage return that no line feed follows. So the two together end one line. -/
def EndsLine (front rest : List Char) : Prop :=
  front.getLast? = some '\n' ∨ front.getLast? = some '\r' ∧ rest.head? ≠ some '\n'

instance (front rest : List Char) : Decidable (EndsLine front rest) :=
  inferInstanceAs (Decidable (_ ∨ _))

theorem not_endsLine_nil (rest : List Char) : ¬EndsLine [] rest := by
  simp [EndsLine]

theorem endsLine_cons_cons {c d : Char} {front rest : List Char} :
    EndsLine (c :: d :: front) rest ↔ EndsLine (d :: front) rest := by
  simp only [EndsLine, List.getLast?_cons_cons]

theorem startsAfter_cons (pos : Nat) (c : Char) (cs : List Char) :
    startsAfter pos (c :: cs) =
      if EndsLine [c] cs then (pos + c.utf8Size) :: startsAfter (pos + c.utf8Size) cs
      else startsAfter (pos + c.utf8Size) cs := by
  have hends : EndsLine [c] cs ↔ c = '\n' ∨ c = '\r' ∧ cs.head? ≠ some '\n' := by
    simp [EndsLine]
  rw [startsAfter, if_congr hends rfl rfl]
  split_ifs with hc
  · have hsize : c.utf8Size = 1 := by
      rcases hc with rfl | ⟨rfl, -⟩ <;> rfl
    rw [hsize]
  · rfl

theorem mem_startsAfter_iff {pos start : Nat} {cs : List Char} :
    start ∈ startsAfter pos cs ↔
      ∃ front rest, cs = front ++ rest ∧ pos + byteLength front = start ∧ EndsLine front rest := by
  induction cs generalizing pos with
  | nil =>
    simp only [startsAfter, List.not_mem_nil, false_iff, List.nil_eq_append_iff]
    rintro ⟨_, _, ⟨rfl, rfl⟩, -, hends⟩
    exact not_endsLine_nil _ hends
  | cons c cs ih =>
    have hmem : start ∈ startsAfter pos (c :: cs) ↔
        EndsLine [c] cs ∧ start = pos + c.utf8Size ∨
          start ∈ startsAfter (pos + c.utf8Size) cs := by
      rw [startsAfter_cons]
      split_ifs with hends <;> simp [hends]
    rw [hmem, ih]
    constructor
    · rintro (⟨hends, rfl⟩ | ⟨front, rest, rfl, rfl, hends⟩)
      · exact ⟨[c], cs, rfl, rfl, hends⟩
      · obtain ⟨d, front, rfl⟩ := List.exists_cons_of_ne_nil
          (show front ≠ [] by rintro rfl; exact not_endsLine_nil _ hends)
        exact ⟨c :: d :: front, rest, rfl, (Nat.add_assoc _ _ _).symm, endsLine_cons_cons.2 hends⟩
    · rintro ⟨front, rest, heq, rfl, hends⟩
      match front with
      | [] => exact absurd hends (not_endsLine_nil _)
      | [_] =>
        obtain ⟨rfl, rfl⟩ := List.cons.inj heq
        exact .inl ⟨hends, rfl⟩
      | _ :: d :: front =>
        obtain ⟨rfl, rfl⟩ := List.cons.inj heq
        exact .inr ⟨d :: front, rest, rfl, Nat.add_assoc _ _ _, endsLine_cons_cons.1 hends⟩

theorem lt_of_mem_startsAfter {pos start : Nat} {cs : List Char}
    (h : start ∈ startsAfter pos cs) : pos < start := by
  obtain ⟨front, rest, -, rfl, hends⟩ := mem_startsAfter_iff.1 h
  have hlength : byteLength front ≠ 0 := by
    rw [Ne, byteLength_eq_zero_iff]
    rintro rfl
    exact not_endsLine_nil _ hends
  omega

theorem startsAfter_increasing (pos : Nat) (cs : List Char) :
    (startsAfter pos cs).Pairwise (· < ·) := by
  induction cs generalizing pos with
  | nil => exact .nil
  | cons c cs ih =>
    rw [startsAfter_cons]
    split_ifs
    · exact List.pairwise_cons.2 ⟨fun _ => lt_of_mem_startsAfter, ih _⟩
    · exact ih _

end Text

/-- Whether a position comes before another. -/
def Position.Before (a b : Position) : Prop :=
  a.line < b.line ∨ a.line = b.line ∧ a.character < b.character

theorem Position.Before.ne {a b : Position} (h : a.Before b) : a ≠ b := by
  rintro rfl
  simp [Before] at h

/-- In an increasing list, the entries up to a bound stand before the first larger one. -/
theorem getElem?_le_iff_lt_takeWhile {starts : List Nat} (h : starts.Pairwise (· < ·))
    {offset i start : Nat} (hstart : starts[i]? = some start) :
    start ≤ offset ↔ i < (starts.takeWhile (· ≤ offset)).length := by
  induction starts generalizing i with
  | nil => cases hstart
  | cons first starts ih =>
    obtain ⟨hfirst, hrest⟩ := List.pairwise_cons.1 h
    by_cases hle : first ≤ offset
    · cases i with
      | zero =>
        obtain rfl : first = start := by simpa using hstart
        simp [hle]
      | succ i => simpa [hle] using ih hrest hstart
    · have hlarger : first ≤ start := by
        cases i with
        | zero => exact le_of_eq (by simpa using hstart)
        | succ i => exact (hfirst start (List.mem_of_getElem? hstart)).le
      simp [hle]
      omega

namespace LineIndex

open Text

/-- An index says where the lines of a text are. -/
structure Locates (index : LineIndex) (text : String) : Prop where
  first : index.starts.head? = some 0
  increasing : index.starts.Pairwise (· < ·)
  /-- Lines begin where the text does and just past each line ending. -/
  mem_starts_iff : ∀ start, start ∈ index.starts ↔ start = 0 ∨
    ∃ front rest, text.toList = front ++ rest ∧ byteLength front = start ∧ EndsLine front rest
  starts_le : ∀ start ∈ index.starts, start ≤ text.utf8ByteSize
  /-- The line of an offset is the greatest one that begins at or before it. -/
  lineOf_greatest : ∀ offset, ∃ start, index.starts[index.lineOf offset]? = some start ∧
    start ≤ offset ∧ ∀ line later, index.starts[line]? = some later → later ≤ offset →
      line ≤ index.lineOf offset
  /-- The column counts the characters from where the line begins. -/
  position_eq : ∀ front rest, text.toList = front ++ rest → ∃ before line,
    front = before ++ line ∧
      index.starts[index.lineOf (byteLength front)]? = some (byteLength before) ∧
      index.position text (byteLength front) = ⟨index.lineOf (byteLength front), line.length⟩
  /-- Later offsets have later positions. -/
  position_before : ∀ a b, isBoundary a text.toList = true → isBoundary b text.toList = true →
    a < b → (index.position text a).Before (index.position text b)
  position_inj : ∀ a b, isBoundary a text.toList = true → isBoundary b text.toList = true →
    index.position text a = index.position text b → a = b

variable (text : String)

theorem ofText_starts : (ofText text).starts = 0 :: startsAfter 0 text.toList := rfl

theorem starts_increasing : (ofText text).starts.Pairwise (· < ·) :=
  List.pairwise_cons.2 ⟨fun _ => lt_of_mem_startsAfter, startsAfter_increasing 0 text.toList⟩

theorem mem_starts_iff {text : String} {start : Nat} : start ∈ (ofText text).starts ↔ start = 0 ∨
    ∃ front rest, text.toList = front ++ rest ∧ byteLength front = start ∧
      EndsLine front rest := by
  rw [ofText_starts, List.mem_cons, mem_startsAfter_iff]
  simp only [Nat.zero_add]

theorem start_le {text : String} {start : Nat} (h : start ∈ (ofText text).starts) :
    start ≤ text.utf8ByteSize := by
  rw [← byteLength_toList]
  rcases mem_starts_iff.1 h with rfl | ⟨front, rest, htext, rfl, -⟩
  · exact Nat.zero_le _
  · rw [htext, byteLength_append]
    omega

/-- A line begins at or before an offset exactly if it is not after the line of the offset. -/
theorem start_le_iff {text : String} {line start : Nat}
    (h : (ofText text).starts[line]? = some start) (offset : Nat) :
    start ≤ offset ↔ line ≤ (ofText text).lineOf offset := by
  have hpos : 0 < ((ofText text).starts.takeWhile (· ≤ offset)).length :=
    (getElem?_le_iff_lt_takeWhile (starts_increasing text) rfl).1 (Nat.zero_le offset)
  rw [getElem?_le_iff_lt_takeWhile (starts_increasing text) h, lineOf]
  omega

theorem exists_start (text : String) (offset : Nat) :
    ∃ start, (ofText text).starts[(ofText text).lineOf offset]? = some start ∧ start ≤ offset := by
  have hlength := (List.takeWhile_sublist (· ≤ offset) (l := (ofText text).starts)).length_le
  have hlt : (ofText text).lineOf offset < (ofText text).starts.length := by
    rw [lineOf]
    simp only [ofText_starts, List.length_cons] at *
    omega
  have hstart := List.getElem?_eq_getElem hlt
  exact ⟨_, hstart, (start_le_iff hstart offset).2 le_rfl⟩

theorem position_spec {text : String} {front rest : List Char}
    (htext : text.toList = front ++ rest) : ∃ before line, front = before ++ line ∧
      (ofText text).starts[(ofText text).lineOf (byteLength front)]? = some (byteLength before) ∧
      (ofText text).position text (byteLength front) =
        ⟨(ofText text).lineOf (byteLength front), line.length⟩ := by
  obtain ⟨start, hstart, hle⟩ := exists_start text (byteLength front)
  obtain ⟨before, line, rfl, rfl⟩ : ∃ before line, front = before ++ line ∧
      byteLength before = start := by
    rcases mem_starts_iff.1 (List.mem_of_getElem? hstart) with rfl | ⟨before, after, heq, rfl, -⟩
    · exact ⟨[], front, rfl, rfl⟩
    · obtain ⟨line, hline, -⟩ := append_split (heq.symm.trans htext) hle
      exact ⟨before, line, hline, rfl⟩
  refine ⟨before, line, rfl, hstart, ?_⟩
  have hstop : min (byteLength (before ++ line)) (byteLength text.toList) =
      byteLength (before ++ line) := by
    rw [htext, byteLength_append _ rest]
    omega
  have hslice : slice? (byteLength before) (byteLength (before ++ line)) text.toList =
      some line := by
    rw [htext, byteLength_append, slice?_append]
  simp only [position, hstop, List.getD_eq_getElem?_getD, hstart, Option.getD_some, min_eq_left hle,
    hslice]

theorem position_before_of_lt {text : String} {a b : Nat}
    (ha : isBoundary a text.toList = true) (hb : isBoundary b text.toList = true) (hlt : a < b) :
    ((ofText text).position text a).Before ((ofText text).position text b) := by
  obtain ⟨front, rest, htext, rfl⟩ := isBoundary_iff.1 ha
  obtain ⟨front', rest', htext', rfl⟩ := isBoundary_iff.1 hb
  obtain ⟨before, line, hfront, hstart, hposition⟩ := position_spec htext
  obtain ⟨before', line', hfront', hstart', hposition'⟩ := position_spec htext'
  have hle : byteLength before ≤ byteLength front' := by
    rw [hfront, byteLength_append] at hlt
    omega
  rw [hposition, hposition', Position.Before]
  rcases ((start_le_iff hstart _).1 hle).lt_or_eq with hline | hline
  · exact .inl hline
  · refine .inr ⟨hline, ?_⟩
    obtain ⟨mid, hmid, -⟩ := append_split (htext.symm.trans htext') hlt.le
    rw [hline, hstart', Option.some.injEq] at hstart
    obtain ⟨gap, hgap, hrest⟩ := append_split
      (show before ++ (line ++ mid) = before' ++ line' by
        rw [← List.append_assoc, ← hfront, ← hmid, hfront']) hstart.ge
    rw [hgap, byteLength_append] at hstart
    obtain rfl : gap = [] := (byteLength_eq_zero_iff gap).1 (by omega)
    rw [hmid, byteLength_append] at hlt
    obtain ⟨c, cs, rfl⟩ := List.exists_cons_of_ne_nil
      (show mid ≠ [] by rintro rfl; simp at hlt)
    rw [List.nil_append] at hrest
    simp [← hrest]

/-- The index of a text says where its lines are. -/
theorem ofText_locates : (ofText text).Locates text where
  first := rfl
  increasing := starts_increasing text
  mem_starts_iff _ := mem_starts_iff
  starts_le _ := start_le
  lineOf_greatest offset := by
    obtain ⟨start, hstart, hle⟩ := exists_start text offset
    exact ⟨start, hstart, hle, fun _ _ hlater => (start_le_iff hlater offset).1⟩
  position_eq _ _ := position_spec
  position_before _ _ := position_before_of_lt
  position_inj a b ha hb hsame := by
    rcases Nat.lt_trichotomy a b with hlt | heq | hgt
    · exact absurd hsame (position_before_of_lt ha hb hlt).ne
    · exact heq
    · exact absurd hsame.symm (position_before_of_lt hb ha hgt).ne

/-- A carriage return ends a line of its own unless a line feed follows. -/
example : (ofText "é\r\nb\rc\n").starts = [0, 4, 6, 8] := by decide

end LineIndex

end TypeMend
