import Mathlib.Data.String.Basic
import Mathlib.Tactic
import TypeMend.Change

/-!
# Changes as one splice of the text

Applying changes moves through a text that grows and shrinks, with every position shifted by what
was written so far. `Spliced` says what comes out without any shifting: the text falls into gaps
and replaced parts, the gaps stay, and each replaced part gives way to what its change writes.
Changes that fit the text and do not touch each other are always applied, and the result is that
splice.
-/
namespace TypeMend

namespace Text

theorem utf8Size_ne_zero (c : Char) : c.utf8Size ≠ 0 := by
  have := Char.utf8Size_pos c
  omega

@[simp] theorem byteLength_eq_zero_iff (cs : List Char) : byteLength cs = 0 ↔ cs = [] := by
  cases cs with
  | nil => simp
  | cons c cs => simp [utf8Size_ne_zero c]

/-- Of two ways to divide a text, the one with the longer front divides the rest of the other. -/
theorem append_split {front rest front' rest' : List Char}
    (h : front ++ rest = front' ++ rest') (hlen : byteLength front ≤ byteLength front') :
    ∃ mid, front' = front ++ mid ∧ rest = mid ++ rest' := by
  rcases List.append_eq_append_iff.1 h with ⟨mid, hfront, hrest⟩ | ⟨mid, hfront, hrest⟩
  · exact ⟨mid, hfront, hrest⟩
  · have hmid : byteLength mid = 0 := by
      rw [hfront, byteLength_append] at hlen
      omega
    rw [byteLength_eq_zero_iff] at hmid
    subst hmid
    exact ⟨[], by simpa using hfront.symm, by simpa using hrest.symm⟩

theorem isBoundary_iff {n : Nat} {cs : List Char} :
    isBoundary n cs = true ↔ ∃ front rest, cs = front ++ rest ∧ byteLength front = n := by
  rw [isBoundary, Option.isSome_iff_exists]
  constructor
  · rintro ⟨⟨front, rest⟩, h⟩
    exact ⟨front, rest, cut?_eq_some_iff.1 h⟩
  · rintro ⟨front, rest, h⟩
    exact ⟨(front, rest), cut?_eq_some_iff.2 h⟩

theorem slice?_append (xs ys zs : List Char) :
    slice? (byteLength xs) (byteLength xs + byteLength ys) (xs ++ ys ++ zs) = some ys := by
  rw [slice?, ← byteLength_append, cut?_byteLength_append]
  simp [cut?_byteLength_append]

/-- A slice of a text in three parts, given by its offsets. -/
theorem slice?_of_eq {cs : List Char} {start stop : Nat} (xs ys zs : List Char)
    (h : cs = xs ++ ys ++ zs)
    (hstart : start = byteLength xs) (hstop : stop = byteLength xs + byteLength ys) :
    slice? start stop cs = some ys := by
  rw [h, hstart, hstop, slice?_append]

theorem splice?_append (front old new rest : List Char) :
    splice? (byteLength front) (byteLength front + byteLength old) new (front ++ old ++ rest) =
      some (front ++ new ++ rest) := by
  rw [splice?, ← byteLength_append, cut?_byteLength_append]
  simp [cut?_byteLength_append]

end Text

namespace TextChange

open Text

/-! ## The order of changes -/

theorem atMost_iff (a b : TextChange) :
    a.atMost b = true ↔ a.start < b.start ∨
      a.start = b.start ∧ (a.stop < b.stop ∨ a.stop = b.stop ∧ a.text ≤ b.text) := by
  simp only [atMost, Bool.or_eq_true, Bool.and_eq_true, decide_eq_true_eq, beq_iff_eq,
    Bool.not_eq_true', decide_eq_false_iff_not, not_lt]

theorem atMost_total (a b : TextChange) : (a.atMost b || b.atMost a) = true := by
  rw [Bool.or_eq_true, atMost_iff, atMost_iff]
  rcases lt_trichotomy a.start b.start with hstart | hstart | hstart
  · exact .inl (.inl hstart)
  · rcases lt_trichotomy a.stop b.stop with hstop | hstop | hstop
    · exact .inl (.inr ⟨hstart, .inl hstop⟩)
    · rcases le_total a.text b.text with htext | htext
      · exact .inl (.inr ⟨hstart, .inr ⟨hstop, htext⟩⟩)
      · exact .inr (.inr ⟨hstart.symm, .inr ⟨hstop.symm, htext⟩⟩)
    · exact .inr (.inr ⟨hstart.symm, .inl hstop⟩)
  · exact .inr (.inl hstart)

theorem atMost_trans (a b c : TextChange) (hab : a.atMost b = true) (hbc : b.atMost c = true) :
    a.atMost c = true := by
  rw [atMost_iff] at *
  rcases hab with hab | ⟨hab, hab' | ⟨hab', htext⟩⟩ <;>
    rcases hbc with hbc | ⟨hbc, hbc' | ⟨hbc', htext'⟩⟩
  case inr.inr.inr.inr => exact .inr ⟨hab.trans hbc, .inr ⟨hab'.trans hbc', htext.trans htext'⟩⟩
  all_goals omega

theorem atMost_antisymm (a b : TextChange) (hab : a.atMost b = true) (hba : b.atMost a = true) :
    a = b := by
  rw [atMost_iff] at *
  rcases hab with hab | ⟨hab, hab' | ⟨hab', htext⟩⟩ <;>
    rcases hba with hba | ⟨hba, hba' | ⟨hba', htext'⟩⟩
  case inr.inr.inr.inr =>
    cases a
    cases b
    exact congr (congrArg₂ mk hab hab') (le_antisymm htext htext')
  all_goals omega

/-- The changes in the order in which they are applied. -/
def inOrder (changes : List TextChange) : List TextChange :=
  changes.mergeSort atMost

theorem inOrder_perm (changes : List TextChange) : (inOrder changes).Perm changes :=
  List.mergeSort_perm changes atMost

theorem inOrder_sorted (changes : List TextChange) :
    (inOrder changes).Pairwise fun a b => a.atMost b = true :=
  List.pairwise_mergeSort atMost_trans atMost_total changes

/-- The order of application does not depend on the order of the list. -/
theorem inOrder_eq_of_perm {changes changes' : List TextChange} (h : changes.Perm changes') :
    inOrder changes = inOrder changes' := by
  have hperm : (inOrder changes).Perm (inOrder changes') :=
    (inOrder_perm changes).trans (h.trans (inOrder_perm changes').symm)
  exact hperm.eq_of_pairwise (fun a b _ _ => atMost_antisymm a b) (inOrder_sorted changes)
    (inOrder_sorted changes')

/-! ## Changes that do not touch -/

/-- Two changes touch if each begins before the other ends. -/
theorem intersects_iff (a b : TextChange) :
    a.intersects b = true ↔ a.start < b.stop ∧ b.start < a.stop := by
  unfold intersects
  cases ha : a.isInsertion <;> cases hb : b.isInsertion <;>
    simp only [isInsertion, beq_iff_eq, beq_eq_false_iff_ne] at ha hb <;>
    simp only [Bool.and_eq_true, decide_eq_true_eq, Bool.false_eq_true, false_iff] <;>
    omega

theorem intersects_comm (a b : TextChange) : a.intersects b = b.intersects a := by
  rw [Bool.eq_iff_iff, intersects_iff, intersects_iff, and_comm]

theorem fits_iff (change : TextChange) (cs : List Char) :
    change.fits cs = true ↔
      change.start ≤ change.stop ∧ isBoundary change.start cs = true ∧
        isBoundary change.stop cs = true := by
  simp [fits, and_assoc]

/-- Of two changes in order that do not touch, the first ends before the second begins. -/
theorem stop_le_start {a b : TextChange} (hb : b.start ≤ b.stop)
    (hab : a.atMost b = true) (hdisjoint : a.intersects b = false) : a.stop ≤ b.start := by
  rw [atMost_iff] at hab
  have hapart := mt (intersects_iff a b).2 (ne_true_of_eq_false hdisjoint)
  omega

/-- Changes in order that fit a text and do not touch follow one another. -/
theorem inOrder_chain {changes : List TextChange} {cs : List Char}
    (hfits : ∀ change ∈ changes, change.fits cs = true)
    (hdisjoint : changes.Pairwise fun a b => a.intersects b = false) :
    (inOrder changes).Pairwise fun a b => a.stop ≤ b.start := by
  have hperm := inOrder_perm changes
  have hdisjoint' : (inOrder changes).Pairwise fun a b => a.intersects b = false :=
    (hperm.pairwise_iff fun h => (intersects_comm _ _).trans h).2 hdisjoint
  refine List.Pairwise.imp_of_mem ?_ ((inOrder_sorted changes).and hdisjoint')
  intro a b _ hb h
  have hfb := (fits_iff b cs).1 (hfits b (hperm.mem_iff.1 hb))
  exact stop_le_start hfb.1 h.1 h.2

/-! ## The splice -/

/-- `Spliced previous pos changes old new` says how changes turn the text `old`, which begins at
offset `pos` of the whole text, into `new`: each change stands after a gap that is kept, replaces
the part from its start to its stop, and all that follows the last change is kept. -/
inductive Spliced : Option TextChange → Nat → List TextChange → List Char → List Char → Prop
  | rest (previous : Option TextChange) (pos : Nat) (cs : List Char) :
      Spliced previous pos [] cs cs
  | change {previous : Option TextChange} {pos : Nat} {change : TextChange}
      {changes : List TextChange} {gap replaced old new : List Char}
      (start_eq : pos + byteLength gap = change.start)
      (stop_eq : change.start + byteLength replaced = change.stop)
      (tail : Spliced (some change) change.stop changes old new) :
      Spliced previous pos (change :: changes) (gap ++ replaced ++ old)
        (gap ++ change.written previous ++ new)

/-- A splice has one result. -/
theorem Spliced.unique {previous : Option TextChange} {pos : Nat} {changes : List TextChange}
    {old new new' : List Char} (h : Spliced previous pos changes old new)
    (h' : Spliced previous pos changes old new') : new = new' := by
  induction h generalizing new' with
  | rest previous pos cs =>
    cases h'
    rfl
  | @change previous pos change changes gap replaced old new hstart hstop _ ih =>
    generalize hcs : gap ++ replaced ++ old = cs at h'
    cases h' with
    | @change _ _ _ _ gap' replaced' old' new' hstart' hstop' htail' =>
      rw [List.append_assoc, List.append_assoc] at hcs
      obtain ⟨mid, hgap, hrest⟩ := append_split hcs (by omega)
      have hmid : mid = [] := by
        rw [← byteLength_eq_zero_iff]
        rw [hgap, byteLength_append] at hstart'
        omega
      subst hmid
      simp only [List.nil_append] at hrest
      obtain ⟨mid, hreplaced, hold⟩ := append_split hrest (by omega)
      have hmid : mid = [] := by
        rw [← byteLength_eq_zero_iff]
        rw [hreplaced, byteLength_append] at hstop'
        omega
      subst hmid
      simp only [List.nil_append] at hold
      subst hold
      rw [ih htail', hgap, List.append_nil]

/-- Changes that follow one another and fit the whole text can be spliced into what is left of it
behind them. -/
theorem exists_spliced {changes : List TextChange} (front old : List Char)
    (previous : Option TextChange) (hchain : changes.Pairwise fun a b => a.stop ≤ b.start)
    (hfits : ∀ change ∈ changes, change.fits (front ++ old) = true)
    (hpos : ∀ change ∈ changes, byteLength front ≤ change.start) :
    ∃ new, Spliced previous (byteLength front) changes old new := by
  induction changes generalizing previous front old with
  | nil => exact ⟨old, .rest _ _ _⟩
  | cons change changes ih =>
    rw [List.pairwise_cons] at hchain
    obtain ⟨hle, hstart, hstop⟩ := (fits_iff _ _).1 (hfits change List.mem_cons_self)
    obtain ⟨before, after, hbefore, hbeforeLength⟩ := isBoundary_iff.1 hstart
    obtain ⟨upto, behind, hupto, huptoLength⟩ := isBoundary_iff.1 hstop
    obtain ⟨gap, rfl, rfl⟩ := append_split hbefore
      (by rw [hbeforeLength]; exact hpos change List.mem_cons_self)
    rw [hbefore] at hupto
    obtain ⟨replaced, rfl, rfl⟩ := append_split hupto (by omega)
    rw [byteLength_append] at hbeforeLength huptoLength
    have hassoc : front ++ (gap ++ (replaced ++ behind)) =
        front ++ gap ++ replaced ++ behind := by simp
    obtain ⟨new, hnew⟩ := ih (front ++ gap ++ replaced) behind (some change) hchain.2
      (fun later hlater => by
        rw [← hassoc]
        exact hfits later (List.mem_cons_of_mem _ hlater))
      (fun later hlater => by
        rw [byteLength_append, huptoLength]
        exact hchain.1 later hlater)
    rw [byteLength_append, huptoLength] at hnew
    rw [← List.append_assoc]
    exact ⟨_, .change hbeforeLength (by rw [byteLength_append] at huptoLength; omega) hnew⟩

/-- Applying changes with shifted positions does the splice. What was written so far stands
before the rest of the text, and `shift` says how much longer it is than what it replaced. -/
theorem applySorted_of_spliced {previous : Option TextChange} {pos : Nat}
    {changes : List TextChange} {old new : List Char} (h : Spliced previous pos changes old new)
    (done : List Char) (shift : Int) (hdone : (byteLength done : Int) = pos + shift) :
    applySorted previous shift changes (done ++ old) = some (done ++ new) := by
  induction h generalizing done shift with
  | rest previous pos cs => rfl
  | @change previous pos change changes gap replaced old new hstart hstop _ ih =>
    have hfrom : (change.start : Int) + shift = (byteLength (done ++ gap) : Nat) := by
      rw [byteLength_append]
      omega
    have hto : (change.stop : Int) + shift =
        (byteLength (done ++ gap) + byteLength replaced : Nat) := by
      omega
    have htext : done ++ (gap ++ replaced ++ old) = done ++ gap ++ replaced ++ old := by simp
    rw [applySorted, hfrom, hto]
    simp only [Int.toNat_natCast, htext, splice?_append]
    rw [if_neg (by omega), ih (done ++ gap ++ change.written previous)]
    · simp
    · simp only [byteLength_append] at hfrom ⊢
      omega

/-- Changes that fit a text and do not touch each other are applied, and what comes out is their
splice. -/
theorem applyAll?_eq_some {text : String} {changes : List TextChange}
    (hfits : ∀ change ∈ changes, change.fits text.toList = true)
    (hdisjoint : changes.Pairwise fun a b => a.intersects b = false) :
    ∃ new, Spliced none 0 (inOrder changes) text.toList new ∧
      applyAll? text changes = some (String.ofList new) := by
  have hperm := inOrder_perm changes
  obtain ⟨new, hnew⟩ := exists_spliced [] text.toList none
    (inOrder_chain hfits hdisjoint)
    (fun change h => hfits change (hperm.mem_iff.1 h)) (fun change _ => by simp)
  refine ⟨new, hnew, ?_⟩
  have happly := applySorted_of_spliced hnew [] 0 (by simp)
  rw [applyAll?]
  change (applySorted none 0 (inOrder changes) text.toList).map String.ofList = _
  rw [← List.nil_append text.toList, happly]
  rfl

end TextChange

end TypeMend
