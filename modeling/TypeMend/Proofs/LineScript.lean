import Mathlib.Data.List.Basic
import Mathlib.Tactic
import TypeMend.LineDiff

/-!
# Scripts and their hunks

A script lists both of its lists: what it keeps and removes is the old list, what it keeps and adds
is the new one. The ranges of its hunks come one after the other with something between them, and
together they hold exactly the positions that are close to a change.
-/
namespace TypeMend

namespace LineOp

variable {α : Type} (line : α)

@[simp] theorem old?_keep : (keep line).old? = some line := rfl

@[simp] theorem old?_remove : (remove line).old? = some line := rfl

@[simp] theorem old?_add : (add line).old? = none := rfl

@[simp] theorem new?_keep : (keep line).new? = some line := rfl

@[simp] theorem new?_remove : (remove line).new? = none := rfl

@[simp] theorem new?_add : (add line).new? = some line := rfl

theorem isKeep_eq_false_iff {op : LineOp α} :
    op.isKeep = false ↔ ∃ line, op = remove line ∨ op = add line := by
  cases op with
  | keep line => simp [isKeep]
  | remove line => simp [isKeep]
  | add line => simp [isKeep]

end LineOp

namespace LineDiff

variable {α : Type} [DecidableEq α]

/-! ## Both lists of a script -/

theorem commonFront_le_left (xs ys : List α) : commonFront xs ys ≤ xs.length := by
  fun_induction commonFront xs ys with
  | case1 xs y ys ih => simpa using ih
  | case2 => exact Nat.zero_le _
  | case3 => exact Nat.zero_le _

theorem commonFront_le_right (xs ys : List α) : commonFront xs ys ≤ ys.length := by
  fun_induction commonFront xs ys with
  | case1 xs y ys ih => simpa using ih
  | case2 => exact Nat.zero_le _
  | case3 => exact Nat.zero_le _

theorem take_commonFront (xs ys : List α) :
    ys.take (commonFront xs ys) = xs.take (commonFront xs ys) := by
  fun_induction commonFront xs ys with
  | case1 xs y ys ih => simp [ih]
  | case2 => simp
  | case3 => simp

theorem commonBack_le_left (xs ys : List α) : commonBack xs ys ≤ xs.length := by
  simpa [commonBack] using commonFront_le_left xs.reverse ys.reverse

theorem commonBack_le_right (xs ys : List α) : commonBack xs ys ≤ ys.length := by
  simpa [commonBack] using commonFront_le_right xs.reverse ys.reverse

theorem drop_commonBack (xs ys : List α) :
    ys.drop (ys.length - commonBack xs ys) = xs.drop (xs.length - commonBack xs ys) := by
  have hfront := take_commonFront xs.reverse ys.reverse
  rwa [List.take_reverse, List.take_reverse, List.reverse_inj] at hfront

theorem old_walkLine (x : α) {xs : List α} {next : List α → List (List Nat) → List (LineOp α)}
    (hnext : ∀ ys rows, (next ys rows).filterMap LineOp.old? = xs) (ys : List α)
    (rows : List (List Nat)) :
    (walkLine x next ys rows).filterMap LineOp.old? = x :: xs := by
  induction ys generalizing rows with
  | nil => simp [walkLine, hnext]
  | cons y ys ih =>
    rw [walkLine]
    split_ifs
    · simp [hnext]
    · simp [hnext]
    · simp [List.filterMap_cons, ih]

theorem new_walkLine (x : α) {next : List α → List (List Nat) → List (LineOp α)}
    (hnext : ∀ ys rows, (next ys rows).filterMap LineOp.new? = ys) (ys : List α)
    (rows : List (List Nat)) :
    (walkLine x next ys rows).filterMap LineOp.new? = ys := by
  induction ys generalizing rows with
  | nil => simpa [walkLine] using hnext [] rows.tail
  | cons y ys ih =>
    rw [walkLine]
    split_ifs with hxy
    · simp [hnext, hxy]
    · simp [List.filterMap_cons, hnext]
    · simp [ih]

theorem old_walk (xs ys : List α) (rows : List (List Nat)) :
    (walk xs ys rows).filterMap LineOp.old? = xs := by
  induction xs generalizing ys rows with
  | nil => simp [walk, List.filterMap_map, Function.comp_def]
  | cons x xs ih => exact old_walkLine x ih ys rows

theorem new_walk (xs ys : List α) (rows : List (List Nat)) :
    (walk xs ys rows).filterMap LineOp.new? = ys := by
  induction xs generalizing ys rows with
  | nil => simp [walk, List.filterMap_map, Function.comp_def]
  | cons x xs ih => exact new_walkLine x ih ys rows

omit [DecidableEq α] in
theorem old_map_keep (xs : List α) : (xs.map LineOp.keep).filterMap LineOp.old? = xs := by
  simp [List.filterMap_map, Function.comp_def]

omit [DecidableEq α] in
theorem new_map_keep (xs : List α) : (xs.map LineOp.keep).filterMap LineOp.new? = xs := by
  simp [List.filterMap_map, Function.comp_def]

omit [DecidableEq α] in
/-- A list is what it begins with, what it ends with and the rest between them. -/
theorem take_append_core_append_drop (xs : List α) {front back : Nat}
    (h : front + back ≤ xs.length) :
    xs.take front ++ (xs.drop front).take (xs.length - front - back) ++
      xs.drop (xs.length - back) = xs := by
  have hback : xs.drop (xs.length - back) = (xs.drop front).drop (xs.length - front - back) := by
    rw [List.drop_drop]
    congr 1
    omega
  rw [hback, List.append_assoc, List.take_append_drop, List.take_append_drop]

theorem old_script (old new : List α) : (script old new).filterMap LineOp.old? = old := by
  have hfront := commonFront_le_left old new
  have hback := commonBack_le_left (old.drop (commonFront old new))
    (new.drop (commonFront old new))
  rw [List.length_drop] at hback
  simp only [script, List.filterMap_append, old_map_keep, old_walk]
  exact take_append_core_append_drop old (by omega)

theorem new_script (old new : List α) : (script old new).filterMap LineOp.new? = new := by
  set front := commonFront old new with hfront
  set back := commonBack (old.drop front) (new.drop front) with hback
  have hfrontOld : front ≤ old.length := commonFront_le_left old new
  have hfrontNew : front ≤ new.length := commonFront_le_right old new
  have hbackOld : back ≤ old.length - front := by
    simpa using commonBack_le_left (old.drop front) (new.drop front)
  have hbackNew : back ≤ new.length - front := by
    simpa using commonBack_le_right (old.drop front) (new.drop front)
  have hstart : old.take front = new.take front := (take_commonFront old new).symm
  have hstop : old.drop (old.length - back) = new.drop (new.length - back) := by
    have hcommon := drop_commonBack (old.drop front) (new.drop front)
    simp only [List.length_drop, List.drop_drop, ← hback] at hcommon
    rw [show front + (new.length - front - back) = new.length - back by omega,
      show front + (old.length - front - back) = old.length - back by omega] at hcommon
    exact hcommon.symm
  simp only [script, ← hfront, ← hback, List.filterMap_append, new_map_keep, new_walk]
  rw [hstart, hstop]
  exact take_append_core_append_drop new (by omega)

/-! ## Ranges -/

section Ranges

omit [DecidableEq α]

/-- Whether a position is in a range. -/
def Within (range : Nat × Nat) (i : Nat) : Prop :=
  range.1 ≤ i ∧ i < range.2

/-- Whether a position has one of some changes close to it. -/
def Near (changes : List Nat) (i : Nat) : Prop :=
  ∃ change ∈ changes, change ≤ i + context ∧ i ≤ change + context

/-- Ranges, the last one first, that hold what is near some changes among `size` positions. -/
structure Surrounds (size : Nat) (changes : List Nat) (ranges : List (Nat × Nat)) : Prop where
  apart : ranges.Pairwise fun later earlier => earlier.2 < later.1
  proper : ∀ range ∈ ranges, range.1 < range.2 ∧ range.2 ≤ size
  within_iff : ∀ i, (∃ range ∈ ranges, Within range i) ↔ i < size ∧ Near changes i
  /-- The last range ends with the context of a change that is not before it. -/
  last : ∀ range ∈ ranges.head?, ∃ change ∈ changes,
    range.1 ≤ change - context ∧ range.2 = min (change + 1 + context) size

theorem Surrounds.nil (size : Nat) : Surrounds size [] [] where
  apart := .nil
  proper := by simp
  within_iff := by simp [Near]
  last := by simp

theorem near_cons {change : Nat} {changes : List Nat} {i : Nat} :
    Near (change :: changes) i ↔
      (change ≤ i + context ∧ i ≤ change + context) ∨ Near changes i := by
  simp [Near]

/-- The context of a change, as a range. -/
theorem within_context {size position i : Nat} :
    Within (position - context, min (position + 1 + context) size) i ↔
      i < size ∧ position ≤ i + context ∧ i ≤ position + context := by
  simp only [Within, lt_min_iff]
  omega

theorem Surrounds.addRange {size position : Nat} {changes : List Nat} {ranges : List (Nat × Nat)}
    (h : Surrounds size changes ranges) (hposition : position < size)
    (hlater : ∀ change ∈ changes, change < position) :
    Surrounds size (position :: changes) (addRange size ranges position) := by
  have hnew : position - context < min (position + 1 + context) size := by
    rw [lt_min_iff]
    omega
  match ranges with
  | [] =>
    refine ⟨List.pairwise_singleton _ _, ?_, ?_, ?_⟩
    · simpa [LineDiff.addRange] using hnew
    · intro i
      have hnone := h.within_iff i
      simp only [List.not_mem_nil, false_and, exists_false, false_iff] at hnone
      simp only [LineDiff.addRange, List.mem_singleton, exists_eq_left, within_context, near_cons]
      rw [and_or_left, or_iff_left hnone]
    · simp [LineDiff.addRange]
  | (first, last) :: rest =>
    obtain ⟨change, hchange, hfirst, hreach⟩ := h.last (first, last) rfl
    have hbefore := hlater change hchange
    have hgrows : last ≤ min (position + 1 + context) size := by
      simp only at hreach
      omega
    obtain ⟨hproper, hrest⟩ := List.forall_mem_cons.1 h.proper
    obtain ⟨hapart, hapartRest⟩ := List.pairwise_cons.1 h.apart
    by_cases htouch : position - context ≤ last
    · -- The last range and the context of the change touch: together they are one range.
      have hwithin (i : Nat) : Within (first, min (position + 1 + context) size) i ↔
          Within (first, last) i ∨
            Within (position - context, min (position + 1 + context) size) i := by
        simp only [Within] at *
        omega
      simp only [LineDiff.addRange, if_pos htouch]
      refine ⟨List.pairwise_cons.2 ⟨hapart, hapartRest⟩, ?_, ?_, ?_⟩
      · refine List.forall_mem_cons.2 ⟨?_, hrest⟩
        simp only at *
        omega
      · intro i
        have hcover := h.within_iff i
        rw [List.exists_mem_cons_iff] at hcover ⊢
        rw [hwithin, within_context, near_cons, or_right_comm, hcover, and_or_left, or_comm]
      · intro range hrange
        obtain rfl : (first, min (position + 1 + context) size) = range := by simpa using hrange
        refine ⟨position, List.mem_cons_self, ?_, rfl⟩
        simp only at *
        omega
    · simp only [LineDiff.addRange, if_neg htouch]
      refine ⟨List.pairwise_cons.2 ⟨?_, h.apart⟩, ?_, ?_, ?_⟩
      · refine List.forall_mem_cons.2 ⟨Nat.lt_of_not_le htouch, fun range hrange => ?_⟩
        have hrangeApart := hapart range hrange
        simp only at *
        omega
      · exact List.forall_mem_cons.2 ⟨⟨hnew, min_le_right _ _⟩, h.proper⟩
      · intro i
        have hcover := h.within_iff i
        rw [List.exists_mem_cons_iff, hcover, within_context, near_cons, and_or_left]
      · simp

theorem Surrounds.foldl {size : Nat} {positions changes : List Nat} {ranges : List (Nat × Nat)}
    (h : Surrounds size changes ranges) (hsize : ∀ position ∈ positions, position < size)
    (hsorted : positions.Pairwise (· < ·))
    (hlater : ∀ position ∈ positions, ∀ change ∈ changes, change < position) :
    Surrounds size (positions.reverse ++ changes)
      (positions.foldl (LineDiff.addRange size) ranges) := by
  induction positions generalizing changes ranges with
  | nil => exact h
  | cons position positions ih =>
    obtain ⟨hfirst, hsorted⟩ := List.pairwise_cons.1 hsorted
    obtain ⟨hposition, hsize⟩ := List.forall_mem_cons.1 hsize
    obtain ⟨hlaterHere, hlater⟩ := List.forall_mem_cons.1 hlater
    rw [List.reverse_cons, List.append_assoc, List.singleton_append]
    refine ih (h.addRange hposition hlaterHere) hsize hsorted fun next hnext => ?_
    exact List.forall_mem_cons.2 ⟨hfirst next hnext, hlater next hnext⟩

theorem mem_changesFrom {first i : Nat} {ops : List (LineOp α)} :
    i ∈ changesFrom first ops ↔
      first ≤ i ∧ ∃ op, ops[i - first]? = some op ∧ op.isKeep = false := by
  induction ops generalizing first with
  | nil => simp [changesFrom]
  | cons op ops ih =>
    rcases Nat.lt_trichotomy i first with hlt | rfl | hgt
    · have hnot : ¬first ≤ i ∧ ¬first + 1 ≤ i := by omega
      cases hop : op.isKeep <;> simp [changesFrom, hop, ih, hnot, hlt.ne]
    · cases hop : op.isKeep <;> simp [changesFrom, hop, ih]
    · have hstep : i - first = i - (first + 1) + 1 := by omega
      have hle : first ≤ i ∧ first + 1 ≤ i := by omega
      cases hop : op.isKeep <;> simp [changesFrom, hop, ih, hstep, hle, hgt.ne']

theorem changesFrom_sorted (first : Nat) (ops : List (LineOp α)) :
    (changesFrom first ops).Pairwise (· < ·) := by
  induction ops generalizing first with
  | nil => exact .nil
  | cons op ops ih =>
    unfold changesFrom
    split_ifs
    · exact ih (first + 1)
    · exact List.pairwise_cons.2 ⟨fun i hi => (mem_changesFrom.1 hi).1, ih (first + 1)⟩

theorem surrounds_hunkRanges (ops : List (LineOp α)) :
    Surrounds ops.length (changesFrom 0 ops).reverse (hunkRanges ops).reverse := by
  have hsize : ∀ i ∈ changesFrom 0 ops, i < ops.length := by
    intro i hi
    obtain ⟨-, op, hop, -⟩ := mem_changesFrom.1 hi
    exact (List.getElem?_eq_some_iff.1 hop).1
  simpa [hunkRanges] using
    (Surrounds.nil ops.length).foldl hsize (changesFrom_sorted 0 ops) (by simp)

/-- Between two hunks there is something that neither shows. -/
theorem hunkRanges_apart (ops : List (LineOp α)) :
    (hunkRanges ops).Pairwise fun earlier later => earlier.2 < later.1 :=
  List.pairwise_reverse.1 (surrounds_hunkRanges ops).apart

theorem hunkRanges_proper {ops : List (LineOp α)} {range : Nat × Nat}
    (h : range ∈ hunkRanges ops) : range.1 < range.2 ∧ range.2 ≤ ops.length :=
  (surrounds_hunkRanges ops).proper range (List.mem_reverse.2 h)

/-- What no hunk shows is kept. -/
theorem isKeep_of_not_within {ops : List (LineOp α)} {i : Nat} {op : LineOp α}
    (hop : ops[i]? = some op) (hnot : ∀ range ∈ hunkRanges ops, ¬Within range i) :
    op.isKeep = true := by
  by_contra hchanged
  have hchange : i ∈ changesFrom 0 ops :=
    mem_changesFrom.2 ⟨Nat.zero_le i, op, hop, by simpa using hchanged⟩
  have hnear : Near (changesFrom 0 ops).reverse i :=
    ⟨i, List.mem_reverse.2 hchange, Nat.le_add_right _ _, Nat.le_add_right _ _⟩
  obtain ⟨range, hrange, hwithin⟩ := ((surrounds_hunkRanges ops).within_iff i).2
    ⟨(List.getElem?_eq_some_iff.1 hop).1, hnear⟩
  exact hnot range (List.mem_reverse.1 hrange) hwithin

end Ranges

end LineDiff

end TypeMend
