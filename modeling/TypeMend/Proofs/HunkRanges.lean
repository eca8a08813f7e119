import Mathlib.Data.List.DropRight
import Mathlib.Data.List.Sort
import Mathlib.Tactic
import TypeMend.Proofs.LineScript

/-!
# Hunks show the context of changes

A step of a script is shown if and only if it is at most two steps away from a change. Two hunks
never touch, so the steps next to a hunk are shown nowhere and no change is close to them. Hence a
hunk has a change among its first three steps and one among its last three, and no other ranges that
stand apart show the same steps.
-/
namespace TypeMend.LineDiff

variable {α : Type} {ops : List (LineOp α)} {ranges others : List (Nat × Nat)}
  {range other : Nat × Nat} {i j : Nat}

/-- A script removes or adds a line at a position. -/
def ChangeAt (ops : List (LineOp α)) (i : Nat) : Prop :=
  ∃ line, ops[i]? = some (.remove line) ∨ ops[i]? = some (.add line)

/-- A position is at most two steps away from a change. -/
def NearChange (ops : List (LineOp α)) (i : Nat) : Prop :=
  ∃ j, ChangeAt ops j ∧ i ≤ j + 2 ∧ j ≤ i + 2

/-- A position is in one of some ranges. -/
def Covered (ranges : List (Nat × Nat)) (i : Nat) : Prop :=
  ∃ range ∈ ranges, Within range i

/-- Ranges of a script that hold what is near a change and nothing else. -/
structure ShowsContext (ops : List (LineOp α)) (ranges : List (Nat × Nat)) : Prop where
  /-- The ranges are in order, and between two of them there is a step that is in neither. -/
  apart : ranges.Pairwise fun earlier later => earlier.2 < later.1
  proper : ∀ range ∈ ranges, range.1 < range.2 ∧ range.2 ≤ ops.length
  covered_iff : ∀ i, Covered ranges i ↔ i < ops.length ∧ NearChange ops i

/-! ## Ranges that stand apart -/

section Apart

variable (hapart : ranges.Pairwise fun earlier later => earlier.2 < later.1)

include hapart

theorem apart_of_ne (hrange : range ∈ ranges) (hother : other ∈ ranges) (hne : range ≠ other) :
    range.2 < other.1 ∨ other.2 < range.1 := by
  have hsymm : Std.Symm fun a b : Nat × Nat => a.2 < b.1 ∨ b.2 < a.1 := ⟨fun _ _ h => h.symm⟩
  have hgaps : ranges.Pairwise fun a b => a.2 < b.1 ∨ b.2 < a.1 := hapart.imp fun h => .inl h
  exact hgaps.forall hrange hother hne

/-- Inside a range and right next to it, nothing is covered but the range. -/
theorem covered_iff_within (hrange : range ∈ ranges) (hfirst : range.1 ≤ i + 1)
    (hlast : i ≤ range.2) : Covered ranges i ↔ Within range i := by
  constructor
  · rintro ⟨other, hother, hstart, hstop⟩
    by_contra hnot
    have hne : range ≠ other := by
      rintro rfl
      exact hnot ⟨hstart, hstop⟩
    have hgap := apart_of_ne hapart hrange hother hne
    omega
  · exact fun hi => ⟨range, hrange, hi⟩

/-- The ranges are the stretches of covered positions that cannot be prolonged. -/
theorem mem_iff_maximal (hproper : ∀ range ∈ ranges, range.1 < range.2) :
    range ∈ ranges ↔ range.1 < range.2 ∧
      ∀ i, range.1 ≤ i + 1 → i ≤ range.2 → (Covered ranges i ↔ Within range i) := by
  constructor
  · intro hrange
    exact ⟨hproper range hrange, fun i => covered_iff_within hapart hrange⟩
  · rintro ⟨hlt, hexact⟩
    obtain ⟨other, hother, hfirst, hlast⟩ : Covered ranges range.1 :=
      (hexact range.1 (by omega) hlt.le).2 ⟨le_rfl, hlt⟩
    have hstart : other.1 = range.1 := by
      by_contra hne
      have hbefore : Covered ranges (range.1 - 1) := ⟨other, hother, by omega, by omega⟩
      have hwithin := (hexact (range.1 - 1) (by omega) (by omega)).1 hbefore
      exact absurd hwithin.1 (by omega)
    have hge : range.2 ≤ other.2 := by
      by_contra hshort
      have hnext : Covered ranges other.2 :=
        (hexact other.2 (by omega) (by omega)).2 ⟨by omega, by omega⟩
      have hwithin := (covered_iff_within hapart hother (by omega) le_rfl).1 hnext
      exact lt_irrefl _ hwithin.2
    have hle : other.2 ≤ range.2 := by
      by_contra hlong
      have hnext : Covered ranges range.2 := ⟨other, hother, by omega, by omega⟩
      have hwithin := (hexact range.2 (by omega) le_rfl).1 hnext
      exact lt_irrefl _ hwithin.2
    have heq : other = range := Prod.ext hstart (le_antisymm hle hge)
    rwa [← heq]

end Apart

/-! ## Changes among the steps of a range -/

theorem changeAt_iff : ChangeAt ops i ↔ ∃ op, ops[i]? = some op ∧ op.isKeep = false := by
  constructor
  · rintro ⟨line, h | h⟩
    · exact ⟨.remove line, h, rfl⟩
    · exact ⟨.add line, h, rfl⟩
  · rintro ⟨op, h, hchanged⟩
    obtain ⟨line, rfl | rfl⟩ := LineOp.isKeep_eq_false_iff.1 hchanged
    · exact ⟨line, .inl h⟩
    · exact ⟨line, .inr h⟩

theorem ChangeAt.lt (h : ChangeAt ops i) : i < ops.length := by
  obtain ⟨op, hop, -⟩ := changeAt_iff.1 h
  exact (List.getElem?_eq_some_iff.1 hop).1

theorem ChangeAt.exists_extract (h : ChangeAt ops i) (hi : Within range i) :
    ∃ op, (ops.extract range.1 range.2)[i - range.1]? = some op ∧ op.isKeep = false := by
  obtain ⟨op, hop, hchanged⟩ := changeAt_iff.1 h
  obtain ⟨hfirst, hlast⟩ := hi
  refine ⟨op, ?_, hchanged⟩
  rw [List.getElem?_take_of_lt (by omega), List.getElem?_drop, Nat.add_sub_cancel' hfirst, hop]

section Lists

variable {β : Type} {p : β → Bool} {xs : List β} {x : β}

theorem length_takeWhile_le (hx : xs[i]? = some x) (hp : p x = false) :
    (xs.takeWhile p).length ≤ i := by
  by_contra hlong
  rw [← List.takeWhile_append_dropWhile (p := p) (l := xs),
    List.getElem?_append_left (by omega)] at hx
  have htaken : p x = true := List.mem_takeWhile_imp (List.mem_of_getElem? hx)
  simp [hp] at htaken

theorem length_rtakeWhile_lt (hx : xs[i]? = some x) (hp : p x = false) :
    i + (xs.rtakeWhile p).length < xs.length := by
  have hi : i < xs.length := (List.getElem?_eq_some_iff.1 hx).1
  have hreverse : xs.reverse[xs.length - 1 - i]? = some x := by
    rw [List.getElem?_reverse (by omega), show xs.length - 1 - (xs.length - 1 - i) = i by omega, hx]
  have hle := length_takeWhile_le hreverse hp
  rw [List.rtakeWhile, List.length_reverse]
  omega

end Lists

/-! ## What follows from showing the context -/

namespace ShowsContext

theorem lt_of_mem (h : ShowsContext ops ranges) (hrange : range ∈ ranges) : range.1 < range.2 :=
  (h.proper range hrange).1

theorem starts_increasing (h : ShowsContext ops ranges) :
    ranges.Pairwise fun earlier later => earlier.1 < later.1 :=
  h.apart.imp_of_mem fun hearlier _ hgap => (h.lt_of_mem hearlier).trans hgap

/-- The ranges are determined by what they hold. -/
theorem unique (h : ShowsContext ops ranges) (hothers : ShowsContext ops others) :
    ranges = others := by
  have hcovered (i : Nat) : Covered ranges i ↔ Covered others i := by
    rw [h.covered_iff, hothers.covered_iff]
  have hmem (range : Nat × Nat) : range ∈ ranges ↔ range ∈ others := by
    rw [mem_iff_maximal h.apart fun _ => h.lt_of_mem,
      mem_iff_maximal hothers.apart fun _ => hothers.lt_of_mem]
    simp only [hcovered]
  have hirrefl : Std.Irrefl fun a b : Nat × Nat => a.1 < b.1 := ⟨fun a => lt_irrefl a.1⟩
  have hantisymm : Std.Antisymm fun a b : Nat × Nat => a.1 < b.1 :=
    ⟨fun _ _ hab hba => absurd hba (lt_asymm hab)⟩
  exact h.starts_increasing.eq_of_mem_iff hothers.starts_increasing hmem

/-- What is near a change and touches a range is in the range. -/
theorem within_of_nearChange (h : ShowsContext ops ranges) (hrange : range ∈ ranges)
    (hi : NearChange ops i) (hsize : i < ops.length) (hfirst : range.1 ≤ i + 1)
    (hlast : i ≤ range.2) : Within range i :=
  (covered_iff_within h.apart hrange hfirst hlast).1 ((h.covered_iff i).2 ⟨hsize, hi⟩)

/-- A change that is close to a step of a range is in the range itself. Otherwise the step next to
the range on its side would be close to it too. -/
theorem within_of_changeAt (h : ShowsContext ops ranges) (hrange : range ∈ ranges)
    (hi : Within range i) (hj : ChangeAt ops j) (hij : i ≤ j + 2) (hji : j ≤ i + 2) :
    Within range j := by
  obtain ⟨hfirst, hlast⟩ := hi
  have hsize := hj.lt
  constructor
  · by_contra hbefore
    have hproper := h.proper range hrange
    have hnear : NearChange ops (range.1 - 1) := ⟨j, hj, by omega, by omega⟩
    have hwithin := h.within_of_nearChange hrange hnear (by omega) (by omega) (by omega)
    exact absurd hwithin.1 (by omega)
  · by_contra hafter
    have hnear : NearChange ops range.2 := ⟨j, hj, by omega, by omega⟩
    have hwithin := h.within_of_nearChange hrange hnear (by omega) (by omega) le_rfl
    exact lt_irrefl _ hwithin.2

/-- Every step of a range is close to a change in the same range. -/
theorem exists_changeAt (h : ShowsContext ops ranges) (hrange : range ∈ ranges)
    (hi : Within range i) :
    ∃ j, ChangeAt ops j ∧ Within range j ∧ i ≤ j + 2 ∧ j ≤ i + 2 := by
  obtain ⟨-, j, hj, hij, hji⟩ := (h.covered_iff i).1 ⟨range, hrange, hi⟩
  exact ⟨j, hj, h.within_of_changeAt hrange hi hj hij hji, hij, hji⟩

theorem length_keeps_front (h : ShowsContext ops ranges) (hrange : range ∈ ranges) :
    ((ops.extract range.1 range.2).takeWhile LineOp.isKeep).length ≤ 2 := by
  have hfirst : Within range range.1 := ⟨le_rfl, h.lt_of_mem hrange⟩
  obtain ⟨j, hj, hwithin, -, hnear⟩ := h.exists_changeAt hrange hfirst
  obtain ⟨op, hop, hchanged⟩ := hj.exists_extract hwithin
  have hle := length_takeWhile_le hop hchanged
  omega

theorem length_keeps_back (h : ShowsContext ops ranges) (hrange : range ∈ ranges) :
    ((ops.extract range.1 range.2).rtakeWhile LineOp.isKeep).length ≤ 2 := by
  obtain ⟨hlt, hsize⟩ := h.proper range hrange
  have hlast : Within range (range.2 - 1) := ⟨by omega, by omega⟩
  obtain ⟨j, hj, hwithin, hnear, -⟩ := h.exists_changeAt hrange hlast
  obtain ⟨op, hop, hchanged⟩ := hj.exists_extract hwithin
  have hkeeps := length_rtakeWhile_lt hop hchanged
  have hlength : (ops.extract range.1 range.2).length = range.2 - range.1 := by
    rw [List.length_take, List.length_drop]
    omega
  have hstart := hwithin.1
  omega

end ShowsContext

/-! ## The ranges of the hunks -/

theorem nearChange_iff : NearChange ops i ↔ Near (changesFrom 0 ops).reverse i := by
  simp only [NearChange, Near, context, List.mem_reverse, mem_changesFrom, changeAt_iff,
    Nat.zero_le, true_and, Nat.sub_zero]
  exact exists_congr fun j => and_congr_right fun _ => and_comm

theorem showsContext_hunkRanges (ops : List (LineOp α)) : ShowsContext ops (hunkRanges ops) where
  apart := hunkRanges_apart ops
  proper := fun _ => hunkRanges_proper
  covered_iff := by
    intro i
    have hwithin := (surrounds_hunkRanges ops).within_iff i
    simpa only [Covered, List.mem_reverse, nearChange_iff] using hwithin

/-- The ranges of the hunks are in bounds, in order and apart, and they hold exactly the steps that
are at most two steps away from a change. No other ranges do so. Each of them has a change, and it
begins and ends with at most two lines that are kept. -/
theorem hunkRanges_cover_context (ops : List (LineOp α)) :
    ShowsContext ops (hunkRanges ops) ∧
      (∀ ranges, ShowsContext ops ranges → ranges = hunkRanges ops) ∧
      ∀ range ∈ hunkRanges ops, (∃ i, Within range i ∧ ChangeAt ops i) ∧
        ((ops.extract range.1 range.2).takeWhile LineOp.isKeep).length ≤ 2 ∧
        ((ops.extract range.1 range.2).rtakeWhile LineOp.isKeep).length ≤ 2 := by
  have hshows := showsContext_hunkRanges ops
  refine ⟨hshows, fun ranges hranges => hranges.unique hshows, fun range hrange => ⟨?_, ?_, ?_⟩⟩
  · have hfirst : Within range range.1 := ⟨le_rfl, hshows.lt_of_mem hrange⟩
    obtain ⟨i, hi, hwithin, -⟩ := hshows.exists_changeAt hrange hfirst
    exact ⟨i, hwithin, hi⟩
  · exact hshows.length_keeps_front hrange
  · exact hshows.length_keeps_back hrange

/-- The contexts of the two changes in front touch, that of the last one leaves a gap. -/
example : hunkRanges [.keep 'a', .remove 'b', .keep 'c', .keep 'd', .keep 'e', .keep 'f', .add 'g',
    .keep 'h', .keep 'i', .keep 'j', .keep 'k', .keep 'l', .remove 'm'] = [(0, 9), (10, 13)] := by
  decide

end TypeMend.LineDiff
