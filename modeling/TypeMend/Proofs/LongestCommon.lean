import TypeMend.Proofs.LineScript

/-!
# The longest common subsequence

The table that a script is read from holds the lengths of the longest common subsequences of all
ends of the two lists, and the walk through it keeps as many lines as its first entry says. Taking
off what both lists begin and end with loses nothing: a common subsequence without its first and
last lines is one of what is left. So a script keeps a longest common subsequence.
-/
namespace TypeMend

namespace LineOp

variable {α : Type}

def kept? : LineOp α → Option α
  | keep line => some line
  | _ => none

@[simp] theorem kept?_keep (line : α) : (keep line).kept? = some line := rfl

@[simp] theorem kept?_remove (line : α) : (remove line).kept? = none := rfl

@[simp] theorem kept?_add (line : α) : (add line).kept? = none := rfl

theorem kept?_sublist_old? (ops : List (LineOp α)) :
    (ops.filterMap kept?).Sublist (ops.filterMap old?) := by
  induction ops with
  | nil => exact .slnil
  | cons op ops ih =>
    cases op with
    | keep line => exact ih.cons_cons line
    | remove line => exact ih.cons line
    | add line => exact ih

theorem kept?_sublist_new? (ops : List (LineOp α)) :
    (ops.filterMap kept?).Sublist (ops.filterMap new?) := by
  induction ops with
  | nil => exact .slnil
  | cons op ops ih =>
    cases op with
    | keep line => exact ih.cons_cons line
    | remove line => exact ih
    | add line => exact ih.cons line

theorem length_kept? (ops : List (LineOp α)) :
    (ops.filterMap kept?).length = ops.countP isKeep := by
  induction ops with
  | nil => rfl
  | cons op ops ih => cases op <;> simp [List.filterMap_cons, List.countP_cons, isKeep, ih]

end LineOp

namespace LineDiff

variable {α : Type}

/-- A list is a subsequence of two others, and no longer list is. -/
structure IsLongestCommon (common xs ys : List α) : Prop where
  left : common.Sublist xs
  right : common.Sublist ys
  longest : ∀ other : List α, other.Sublist xs → other.Sublist ys → other.length ≤ common.length

/-! ## What the ends of a list add -/

theorem take_sublist_take {xs ys : List α} (h : xs.Sublist ys) (back : Nat) :
    (xs.take (xs.length - back)).Sublist (ys.take (ys.length - back)) := by
  have hreverse := h.reverse.drop back
  rwa [List.drop_reverse, List.drop_reverse, List.reverse_sublist] at hreverse

/-- Without as many lines at both ends, a subsequence remains one. -/
theorem core_sublist_core {xs ys : List α} (h : xs.Sublist ys) (front back : Nat) :
    ((xs.drop front).take (xs.length - front - back)).Sublist
      ((ys.drop front).take (ys.length - front - back)) := by
  simpa using take_sublist_take (h.drop front) back

/-! ## The table -/

variable [DecidableEq α]

def commonLength : List α → List α → Nat
  | x :: xs, y :: ys =>
    if x = y then commonLength xs ys + 1
    else max (commonLength xs (y :: ys)) (commonLength (x :: xs) ys)
  | _, _ => 0

theorem commonLength_nil_left (ys : List α) : commonLength [] ys = 0 := by
  rw [commonLength]
  simp

theorem commonLength_nil_right (xs : List α) : commonLength xs [] = 0 := by
  rw [commonLength]
  simp

theorem length_le_commonLength {common xs ys : List α} (hxs : common.Sublist xs)
    (hys : common.Sublist ys) : common.length ≤ commonLength xs ys := by
  fun_induction commonLength xs ys generalizing common with
  | case1 xs y ys ih =>
    have htail := ih hxs.tail hys.tail
    rw [List.length_tail] at htail
    omega
  | case2 x xs y ys hxy ihOld ihNew =>
    rcases List.sublist_cons_iff.1 hxs with hxs' | ⟨rest, rfl, hrest⟩
    · exact (ihOld hxs' hys).trans (le_max_left _ _)
    · rcases List.sublist_cons_iff.1 hys with hys' | ⟨_, heq, -⟩
      · exact (ihNew hxs hys').trans (le_max_right _ _)
      · exact absurd (List.cons.inj heq).1 hxy
  | case3 xs ys hnil =>
    cases xs with
    | nil => simp [List.sublist_nil.1 hxs]
    | cons x xs =>
      cases ys with
      | nil => simp [List.sublist_nil.1 hys]
      | cons y ys => exact (hnil x xs y ys rfl rfl).elim

omit [DecidableEq α] in
theorem headD_map_tails {β : Type} (f : List α → β) (ys : List α) (default : β) :
    (ys.tails.map f).headD default = f ys := by
  cases ys <;> simp

theorem tableRow_eq (x : α) (xs ys : List α) :
    tableRow x ys (ys.tails.map (commonLength xs)) = ys.tails.map (commonLength (x :: xs)) := by
  induction ys with
  | nil => simp [tableRow, commonLength_nil_right]
  | cons y ys ih =>
    simp only [tableRow, List.tails_cons, List.map_cons, List.tail_cons, List.headD_cons, ih,
      headD_map_tails, commonLength]

/-- Each entry of the table belongs to one end of each list. -/
theorem table_eq (xs ys : List α) :
    table xs ys = xs.tails.map fun rest => ys.tails.map (commonLength rest) := by
  induction xs with
  | nil =>
    have hzero : commonLength ([] : List α) = fun _ => 0 := funext commonLength_nil_left
    simp [table, hzero, List.map_const']
  | cons x xs ih => rw [table, ih, headD_map_tails, tableRow_eq, List.tails_cons, List.map_cons]

/-- The rows of the table without a new line are the table without that line. -/
theorem map_tail_table (xs : List α) (y : α) (ys : List α) :
    (table xs (y :: ys)).map List.tail = table xs ys := by
  simp [table_eq, Function.comp_def]

/-! ## The walk -/

theorem length_kept?_walkLine (x : α) (xs ys : List α)
    (hnext : ∀ ys, ((walk xs ys (table xs ys)).filterMap LineOp.kept?).length =
      commonLength xs ys) :
    ((walkLine x (walk xs) ys (table (x :: xs) ys)).filterMap LineOp.kept?).length =
      commonLength (x :: xs) ys := by
  have htail (ys : List α) : (table (x :: xs) ys).tail = table xs ys := rfl
  induction ys with
  | nil =>
    have hrest := hnext []
    rw [commonLength_nil_right] at hrest ⊢
    rwa [walkLine, htail, List.filterMap_cons, LineOp.kept?_remove]
  | cons y ys ih =>
    have hright : ((table (x :: xs) (y :: ys)).headD []).tail.headD 0 =
        commonLength (x :: xs) ys := by
      rw [table_eq, headD_map_tails, List.tails_cons, List.map_cons, List.tail_cons,
        headD_map_tails]
    have hbelow : ((table (x :: xs) (y :: ys)).tail.headD []).headD 0 =
        commonLength xs (y :: ys) := by
      rw [htail, table_eq, headD_map_tails, headD_map_tails]
    rw [walkLine, hright, hbelow, htail, map_tail_table, map_tail_table, commonLength]
    split_ifs with hxy hle
    · simp [hnext]
    · simp [List.filterMap_cons, hnext, hle]
    · simp [List.filterMap_cons, ih]
      omega

theorem length_kept?_walk (xs ys : List α) :
    ((walk xs ys (table xs ys)).filterMap LineOp.kept?).length = commonLength xs ys := by
  induction xs generalizing ys with
  | nil => simp [walk, List.filterMap_map, Function.comp_def, commonLength_nil_left]
  | cons x xs ih => exact length_kept?_walkLine x xs ys ih

/-! ## Scripts -/

theorem length_le_kept?_script {common old new : List α} (hold : common.Sublist old)
    (hnew : common.Sublist new) :
    common.length ≤ ((script old new).filterMap LineOp.kept?).length := by
  set front := commonFront old new with hfront
  set back := commonBack (old.drop front) (new.drop front) with hback
  have hfrontOld : front ≤ old.length := commonFront_le_left old new
  have hbackOld : back ≤ old.length - front := by
    simpa using commonBack_le_left (old.drop front) (new.drop front)
  have hcore := length_le_commonLength (core_sublist_core hold front back)
    (core_sublist_core hnew front back)
  rw [List.length_take, List.length_drop] at hcore
  have hkeep (xs : List α) : (xs.map LineOp.keep).filterMap LineOp.kept? = xs := by
    simp [List.filterMap_map, Function.comp_def]
  simp only [script, ← hfront, ← hback, List.filterMap_append, List.length_append, hkeep,
    length_kept?_walk, List.length_take, List.length_drop]
  omega

/-- A script lists both of its lists, and what it keeps is a longest common subsequence of them. -/
theorem script_keeps_longestCommon (old new : List α) :
    (script old new).filterMap LineOp.old? = old ∧
      (script old new).filterMap LineOp.new? = new ∧
      IsLongestCommon ((script old new).filterMap LineOp.kept?) old new ∧
      (script old new).countP LineOp.isKeep =
        ((script old new).filterMap LineOp.kept?).length := by
  have hleft := LineOp.kept?_sublist_old? (script old new)
  have hright := LineOp.kept?_sublist_new? (script old new)
  rw [old_script] at hleft
  rw [new_script] at hright
  exact ⟨old_script old new, new_script old new,
    ⟨hleft, hright, fun _ hold hnew => length_le_kept?_script hold hnew⟩,
    (LineOp.length_kept? _).symm⟩

end LineDiff

end TypeMend
