import Mathlib.Data.List.DropRight
import Mathlib.Data.List.Forall2
import TypeMend.Proofs.Inheritance

/-!
# The members of a union

`TypeText.pieces` cuts a type text at the bars that no bracket encloses. A text whose brackets are
`Balanced` leaves the scan where it began, so that a bar behind it separates, and parentheses around
it make one piece of it. Blanks do not matter to the cuts: a text has the same members before and
after its blanks are normalized. A member is smaller than the text that it is a member of, in the
number of characters that are not blank, unless the text has no bar.
-/
namespace TypeMend

namespace Text

/-! ## Blanks at the ends -/

theorem trim_cons_of_isBlank {c : Char} (hc : isBlank c = true) (cs : List Char) :
    trim (c :: cs) = trim cs := by
  simp [trim, trimStart_cons, hc]

theorem trimEnd_cons_of_not_isBlank {c : Char} (hc : isBlank c = false) (cs : List Char) :
    trimEnd (c :: cs) = c :: trimEnd cs := by
  rw [trimEnd]
  cases trimEnd cs <;> simp [hc]

theorem trim_cons_of_not_isBlank {c : Char} (hc : isBlank c = false) (cs : List Char) :
    trim (c :: cs) = c :: trimEnd cs := by
  rw [trim, trimStart_cons, if_neg (by simp [hc]), trimEnd_cons_of_not_isBlank hc]

theorem trimEnd_cons_of_ne_nil (c : Char) {cs : List Char} (h : trimEnd cs ≠ []) :
    trimEnd (c :: cs) = c :: trimEnd cs := by
  rw [trimEnd]
  cases hcs : trimEnd cs with
  | nil => exact absurd hcs h
  | cons => rfl

theorem trimEnd_append_of_isBlank {c : Char} (hc : isBlank c = true) (cs : List Char) :
    trimEnd (cs ++ [c]) = trimEnd cs := by
  induction cs with
  | nil => simp [trimEnd, hc]
  | cons d cs ih => simp only [List.cons_append, trimEnd, ih]

theorem trimEnd_append_of_not_isBlank {c : Char} (hc : isBlank c = false) (cs : List Char) :
    trimEnd (cs ++ [c]) = cs ++ [c] := by
  induction cs with
  | nil => simp [trimEnd, hc]
  | cons d cs ih =>
    rw [List.cons_append, trimEnd, ih]
    cases cs <;> rfl

theorem trim_append_of_isBlank {c : Char} (hc : isBlank c = true) (cs : List Char) :
    trim (cs ++ [c]) = trim cs := by
  induction cs with
  | nil => exact trim_cons_of_isBlank hc []
  | cons d cs ih =>
    by_cases hd : isBlank d = true
    · rw [List.cons_append, trim_cons_of_isBlank hd, trim_cons_of_isBlank hd, ih]
    · simp only [trim, List.cons_append, trimStart_cons, hd, Bool.false_eq_true, if_false]
      exact trimEnd_append_of_isBlank hc (d :: cs)

/-- The characters that are not blank. -/
def solid (cs : List Char) : List Char :=
  cs.filter fun c => !isBlank c

def weight (cs : List Char) : Nat :=
  (solid cs).length

theorem solid_cons (c : Char) (cs : List Char) :
    solid (c :: cs) = if isBlank c then solid cs else c :: solid cs := by
  cases hc : isBlank c <;> simp [solid, hc]

@[simp] theorem weight_append (cs ds : List Char) : weight (cs ++ ds) = weight cs + weight ds := by
  simp [weight, solid]

end Text

namespace TypeText

open Text

/-! ## Normalized texts -/

theorem normalizeChars_cons {c : Char} (hc : isBlank c = false) (cs : List Char) :
    normalizeChars (c :: cs) = c :: collapse false cs := by
  simp [normalizeChars, trimStart_cons, hc, collapse]

theorem trimEnd_collapse (pending : Bool) (cs : List Char) :
    trimEnd (collapse pending cs) = collapse pending cs := by
  induction cs generalizing pending with
  | nil => simp [collapse]
  | cons c cs ih =>
    by_cases hc : isBlank c = true
    · simpa [collapse, hc] using ih true
    · have hc' : isBlank c = false := by simpa using hc
      have hrest : trimEnd (c :: collapse false cs) = c :: collapse false cs := by
        rw [trimEnd_cons_of_not_isBlank hc', ih]
      cases pending with
      | false => simpa [collapse, hc'] using hrest
      | true =>
        have hne : trimEnd (c :: collapse false cs) ≠ [] := by simp [hrest]
        simpa [collapse, hc', hrest] using trimEnd_cons_of_ne_nil ' ' hne

theorem trimStart_collapse (pending : Bool) (cs : List Char) :
    trimStart (collapse pending cs) = normalizeChars cs := by
  have hspace : isBlank ' ' = true := by decide
  induction cs generalizing pending with
  | nil => rfl
  | cons c cs ih =>
    by_cases hc : isBlank c
    · simpa [collapse, hc, normalizeChars, trimStart_cons] using ih true
    · cases pending <;> simp [collapse, hc, hspace, normalizeChars, trimStart_cons]

theorem trimEnd_normalizeChars (cs : List Char) : trimEnd (normalizeChars cs) = normalizeChars cs :=
  trimEnd_collapse _ _

theorem trim_collapse (pending : Bool) (cs : List Char) :
    trim (collapse pending cs) = normalizeChars cs := by
  rw [trim, trimStart_collapse, trimEnd_normalizeChars]

theorem collapse_trimEnd (pending : Bool) (cs : List Char) :
    collapse pending (trimEnd cs) = collapse pending cs := by
  induction cs generalizing pending with
  | nil => rfl
  | cons c cs ih =>
    by_cases hc : isBlank c = true
    · by_cases hcs : trimEnd cs = []
      · have hrest := ih true
        simp [trimEnd, hcs, hc, collapse] at hrest ⊢
        exact hrest
      · rw [trimEnd_cons_of_ne_nil c hcs]
        simp [collapse, hc, ih]
    · rw [trimEnd_cons_of_not_isBlank (by simpa using hc)]
      simp [collapse, hc, ih]

theorem normalizeChars_trim (cs : List Char) : normalizeChars (trim cs) = normalizeChars cs := by
  rw [trim, ← trimStart_collapse false, collapse_trimEnd, trimStart_collapse, normalizeChars,
    trimStart, trimStart, List.dropWhile_idempotent, ← trimStart, normalizeChars]

theorem normalizeChars_eq_nil_iff (cs : List Char) : normalizeChars cs = [] ↔ trim cs = [] := by
  induction cs with
  | nil => simp [normalizeChars, collapse, trim]
  | cons c cs ih =>
    by_cases hc : isBlank c = true
    · simpa [normalizeChars, trimStart_cons, hc, trim_cons_of_isBlank hc] using ih
    · have hc' : isBlank c = false := by simpa using hc
      simp [normalizeChars, trim, trimStart_cons, hc', collapse, trimEnd_cons_of_not_isBlank hc']

theorem solid_collapse (pending : Bool) (cs : List Char) :
    solid (collapse pending cs) = solid cs := by
  have hspace : isBlank ' ' = true := by decide
  induction cs generalizing pending with
  | nil => rfl
  | cons c cs ih =>
    by_cases hc : isBlank c = true
    · simp [collapse, solid_cons, hc, ih]
    · cases pending <;> simp [collapse, solid_cons, hc, hspace, ih]

theorem solid_trimStart (cs : List Char) : solid (trimStart cs) = solid cs := by
  induction cs with
  | nil => rfl
  | cons c cs ih =>
    by_cases hc : isBlank c = true
    · simp [trimStart_cons, solid_cons, hc, ih]
    · simp [trimStart_cons, solid_cons, hc]

theorem solid_normalizeChars (cs : List Char) : solid (normalizeChars cs) = solid cs := by
  rw [normalizeChars, solid_collapse, solid_trimStart]

/-- A character that is not blank survives normalizing. -/
theorem mem_normalizeChars_iff {c : Char} (hc : isBlank c = false) (cs : List Char) :
    c ∈ normalizeChars cs ↔ c ∈ cs := by
  have hsolid := congrArg (c ∈ ·) (solid_normalizeChars cs)
  simpa [solid, hc] using hsolid

theorem weight_normalizeChars (cs : List Char) : weight (normalizeChars cs) = weight cs := by
  rw [weight, solid_normalizeChars, weight]

/-! ## Where the cuts are -/

/-- The bracket depth after a text, where scanning begins at `depth` and `afterEquals` says that an
equals sign came just before. -/
def depthEnd : Int → Bool → List Char → Int
  | depth, _, [] => depth
  | depth, afterEquals, c :: cs => depthEnd (depthAfter depth afterEquals c) (c == '=') cs

/-- No bracket is closed that is not open, and in the end all are closed. -/
structure Balanced (cs : List Char) : Prop where
  nonneg : ∀ front, front <+: cs → 0 ≤ depthEnd 0 false front
  closed : depthEnd 0 false cs = 0

instance (cs : List Char) : Decidable (Balanced cs) :=
  decidable_of_iff
    ((∀ front ∈ cs.inits, 0 ≤ depthEnd 0 false front) ∧ depthEnd 0 false cs = 0)
    ⟨fun h => ⟨fun front hfront => h.1 front ((List.mem_inits _ _).2 hfront), h.2⟩,
      fun h => ⟨fun front hfront => h.nonneg front ((List.mem_inits _ _).1 hfront), h.closed⟩⟩

theorem depthAfter_add (depth k : Int) (afterEquals : Bool) (c : Char) :
    depthAfter (depth + k) afterEquals c = depthAfter depth afterEquals c + k := by
  unfold depthAfter
  split_ifs <;> omega

theorem depthEnd_add (depth k : Int) (afterEquals : Bool) (cs : List Char) :
    depthEnd (depth + k) afterEquals cs = depthEnd depth afterEquals cs + k := by
  induction cs generalizing depth afterEquals with
  | nil => rfl
  | cons c cs ih => rw [depthEnd, depthEnd, depthAfter_add, ih]

/-- Apart from `>`, what a character does to the depth does not depend on the one before. -/
theorem depthEnd_snoc (depth : Int) (afterEquals : Bool) (cs : List Char) {c : Char}
    (hc : c ≠ '>') : depthEnd depth afterEquals (cs ++ [c]) =
      depthAfter (depthEnd depth afterEquals cs) false c := by
  induction cs generalizing depth afterEquals with
  | nil => simp [depthEnd, depthAfter, hc]
  | cons d cs ih => exact ih _ _

theorem pieces_ne_nil (depth : Int) (afterEquals : Bool) (cs : List Char) :
    pieces depth afterEquals cs ≠ [] := by
  cases cs with
  | nil => simp [pieces]
  | cons c cs =>
    rw [pieces]
    split_ifs
    · simp
    · split <;> simp

theorem pieces_cons (depth : Int) (afterEquals : Bool) (c : Char) (cs : List Char) :
    pieces depth afterEquals (c :: cs) =
      if c = '|' ∧ depth = 0 then [] :: pieces 0 false cs
      else (pieces (depthAfter depth afterEquals c) (c == '=') cs).modifyHead (c :: ·) := by
  rw [pieces]
  cases hpieces : pieces (depthAfter depth afterEquals c) (c == '=') cs with
  | nil => exact absurd hpieces (pieces_ne_nil _ _ _)
  | cons => rfl

/-- A bar behind a text that ends at depth zero separates. -/
theorem pieces_append_bar {depth : Int} {afterEquals : Bool} {cs : List Char}
    (h : depthEnd depth afterEquals cs = 0) (ds : List Char) :
    pieces depth afterEquals (cs ++ '|' :: ds) =
      pieces depth afterEquals cs ++ pieces 0 false ds := by
  induction cs generalizing depth afterEquals with
  | nil =>
    have hdepth : depth = 0 := h
    simp [pieces, hdepth]
  | cons c cs ih =>
    rw [depthEnd] at h
    rw [List.cons_append, pieces_cons, pieces_cons, ih h]
    split_ifs with hc
    · obtain ⟨rfl, rfl⟩ := hc
      have hrest : depthEnd 0 false cs = 0 := by simpa [depthAfter] using h
      rw [ih hrest, List.cons_append]
    · obtain ⟨piece, rest, hpieces⟩ := List.exists_cons_of_ne_nil
        (pieces_ne_nil (depthAfter depth afterEquals c) (c == '=') cs)
      simp [hpieces]

/-- A text in which no bar stands at depth zero is one piece. -/
theorem pieces_eq_singleton {depth : Int} {afterEquals : Bool} {cs : List Char}
    (h : ∀ front rest, cs = front ++ '|' :: rest → depthEnd depth afterEquals front ≠ 0) :
    pieces depth afterEquals cs = [cs] := by
  induction cs generalizing depth afterEquals with
  | nil => rfl
  | cons c cs ih =>
    have hc : ¬(c = '|' ∧ depth = 0) := fun hc => h [] cs (by rw [hc.1]; rfl) hc.2
    have hrest := ih fun front rest heq => h (c :: front) rest (by rw [heq]; rfl)
    rw [pieces_cons, if_neg hc, hrest, List.modifyHead_cons]

/-- The pieces with bars between them are the text. -/
theorem intercalate_pieces (depth : Int) (afterEquals : Bool) (cs : List Char) :
    ['|'].intercalate (pieces depth afterEquals cs) = cs := by
  induction cs generalizing depth afterEquals with
  | nil => rfl
  | cons c cs ih =>
    rw [pieces_cons]
    split_ifs with hc
    · rw [List.intercalate_cons_of_ne_nil (pieces_ne_nil _ _ _), ih, hc.1]
      rfl
    · have hrest := ih (depthAfter depth afterEquals c) (c == '=')
      obtain ⟨piece, rest, hpieces⟩ := List.exists_cons_of_ne_nil
        (pieces_ne_nil (depthAfter depth afterEquals c) (c == '=') cs)
      rw [hpieces] at hrest ⊢
      rw [List.modifyHead_cons]
      cases rest with
      | nil => simpa using hrest
      | cons next rest => simpa [List.intercalate_cons_cons] using hrest

theorem weight_intercalate (ps : List (List Char)) :
    weight (['|'].intercalate ps) = (ps.map weight).sum + (ps.length - 1) := by
  have hbar : weight ['|'] = 1 := by decide
  induction ps with
  | nil => rfl
  | cons p ps ih =>
    cases ps with
    | nil => simp
    | cons q ps =>
      rw [List.intercalate_cons_cons, weight_append, weight_append, hbar, ih]
      simp only [List.map_cons, List.sum_cons, List.length_cons]
      omega

/-- A piece is smaller than the text, unless it is the whole text. -/
theorem weight_lt_of_mem_pieces {depth : Int} {afterEquals : Bool} {cs piece : List Char}
    (hmem : piece ∈ pieces depth afterEquals cs) (hne : pieces depth afterEquals cs ≠ [cs]) :
    weight piece < weight cs := by
  have hjoin := intercalate_pieces depth afterEquals cs
  have hsum := weight_intercalate (pieces depth afterEquals cs)
  rw [hjoin] at hsum
  have hle := List.le_sum_of_mem (List.mem_map_of_mem (f := weight) hmem)
  have hlength : 2 ≤ (pieces depth afterEquals cs).length := by
    match hpieces : pieces depth afterEquals cs with
    | [] => exact absurd hpieces (pieces_ne_nil _ _ _)
    | [p] =>
      rw [hpieces] at hjoin
      simp only [List.intercalate_singleton] at hjoin
      rw [hpieces, hjoin] at hne
      exact absurd rfl hne
    | _ :: _ :: _ => simp
  omega

/-! ## Members -/

theorem depthAfter_of_isBlank {c : Char} (hc : isBlank c = true) (depth : Int)
    (afterEquals : Bool) : depthAfter depth afterEquals c = depth := by
  unfold depthAfter
  split_ifs with hopen harrow hclose
  · rcases hopen with rfl | rfl | rfl | rfl <;> exact absurd hc (by decide)
  · rfl
  · rcases hclose with rfl | rfl | rfl | rfl <;> exact absurd hc (by decide)
  · rfl

theorem pieces_cons_of_isBlank {c : Char} (hc : isBlank c = true) (depth : Int)
    (afterEquals : Bool) (cs : List Char) :
    pieces depth afterEquals (c :: cs) = (pieces depth false cs).modifyHead (c :: ·) := by
  have hbar : c ≠ '|' := by
    rintro rfl
    exact absurd hc (by decide)
  have hequals : (c == '=') = false := by
    rw [beq_eq_false_iff_ne]
    rintro rfl
    exact absurd hc (by decide)
  rw [pieces_cons, if_neg (by simp [hbar]), depthAfter_of_isBlank hc, hequals]

theorem pieces_snoc_of_isBlank {c : Char} (hc : isBlank c = true) (depth : Int)
    (afterEquals : Bool) (cs : List Char) :
    ∃ front last, pieces depth afterEquals cs = front ++ [last] ∧
      pieces depth afterEquals (cs ++ [c]) = front ++ [last ++ [c]] := by
  induction cs generalizing depth afterEquals with
  | nil =>
    refine ⟨[], [], rfl, ?_⟩
    rw [List.nil_append, pieces_cons_of_isBlank hc]
    rfl
  | cons d cs ih =>
    rw [List.cons_append, pieces_cons, pieces_cons]
    split_ifs with hd
    · obtain ⟨front, last, hcs, hsnoc⟩ := ih 0 false
      exact ⟨[] :: front, last, by rw [hcs]; rfl, by rw [hsnoc]; rfl⟩
    · obtain ⟨front, last, hcs, hsnoc⟩ := ih (depthAfter depth afterEquals d) (d == '=')
      rw [hcs, hsnoc]
      cases front with
      | nil => exact ⟨[], d :: last, rfl, rfl⟩
      | cons piece front => exact ⟨(d :: piece) :: front, last, rfl, rfl⟩

theorem members_cons_of_isBlank {c : Char} (hc : isBlank c = true) (cs : List Char) :
    members (c :: cs) = members cs := by
  obtain ⟨piece, rest, hpieces⟩ := List.exists_cons_of_ne_nil (pieces_ne_nil 0 false cs)
  rw [members, members, pieces_cons_of_isBlank hc, hpieces, List.modifyHead_cons, List.map_cons,
    List.map_cons, trim_cons_of_isBlank hc]

theorem members_trimStart (cs : List Char) : members (trimStart cs) = members cs := by
  induction cs with
  | nil => rfl
  | cons c cs ih =>
    by_cases hc : isBlank c = true
    · simpa [trimStart_cons, hc, members_cons_of_isBlank hc] using ih
    · simp [trimStart_cons, hc]

theorem members_append_of_isBlank {c : Char} (hc : isBlank c = true) (cs : List Char) :
    members (cs ++ [c]) = members cs := by
  obtain ⟨front, last, hpieces, hsnoc⟩ := pieces_snoc_of_isBlank hc 0 false cs
  rw [members, members, hpieces, hsnoc, List.map_append, List.map_append, List.map_singleton,
    List.map_singleton, trim_append_of_isBlank hc]

/-- The members of a text with a bar at depth zero are those on both sides of it. -/
theorem members_append_bar {cs : List Char} (h : depthEnd 0 false cs = 0) (ds : List Char) :
    members (cs ++ '|' :: ds) = members cs ++ members ds := by
  rw [members, pieces_append_bar h, List.map_append, List.filter_append, ← members, ← members]

theorem weight_le_of_mem_members {cs member : List Char} (h : member ∈ members cs) :
    weight member ≤ weight cs := by
  obtain ⟨htrim, -⟩ := List.mem_filter.1 h
  obtain ⟨piece, hpiece, rfl⟩ := List.mem_map.1 htrim
  rw [← weight_normalizeChars (trim piece), normalizeChars_trim, weight_normalizeChars]
  by_cases hpieces : pieces 0 false cs = [cs]
  · rw [hpieces, List.mem_singleton] at hpiece
    rw [hpiece]
  · exact (weight_lt_of_mem_pieces hpiece hpieces).le

/-- Only a text without a bar is equal to one of its members up to blanks. -/
theorem members_eq_of_normalizeChars_mem {cs : List Char}
    (h : normalizeChars cs ∈ (members cs).map normalizeChars) : members cs = [trim cs] := by
  obtain ⟨member, hmember, hsame⟩ := List.mem_map.1 h
  obtain ⟨htrim, hne⟩ := List.mem_filter.1 hmember
  obtain ⟨piece, hpiece, rfl⟩ := List.mem_map.1 htrim
  have hpieces : pieces 0 false cs = [cs] := by
    by_contra hbar
    have hlt := weight_lt_of_mem_pieces hpiece hbar
    rw [← weight_normalizeChars cs, ← hsame, normalizeChars_trim, weight_normalizeChars] at hlt
    exact lt_irrefl _ hlt
  rw [hpieces, List.mem_singleton] at hpiece
  subst hpiece
  simpa [members, hpieces] using hne

/-- A text between two characters, of which none is a bar or blank, is one member when no bar
stands at depth zero. -/
theorem members_enclosed {left right : Char} {cs : List Char}
    (hleft : left ≠ '|' ∧ isBlank left = false) (hright : right ≠ '|' ∧ isBlank right = false)
    (h : ∀ front rest, cs = front ++ '|' :: rest →
      depthEnd (depthAfter 0 false left) (left == '=') front ≠ 0) :
    members (left :: cs ++ [right]) = [left :: cs ++ [right]] := by
  have hpieces : pieces 0 false (left :: cs ++ [right]) = [left :: cs ++ [right]] := by
    refine pieces_eq_singleton fun front rest heq => ?_
    cases front with
    | nil => exact absurd (List.cons.inj heq).1 hleft.1
    | cons c front =>
      rw [List.cons_append, List.cons_append, List.cons.injEq] at heq
      obtain ⟨rfl, heq⟩ := heq
      rcases List.append_eq_append_iff.1 heq with ⟨mid, -, hmid⟩ | ⟨mid, hmid, hbar⟩
      · rcases List.append_eq_singleton_iff.1 hmid.symm with ⟨-, hlast⟩ | ⟨-, hlast⟩
        · exact absurd (List.cons.inj hlast).1.symm hright.1
        · cases hlast
      · cases mid with
        | nil => exact absurd (List.cons.inj hbar).1.symm hright.1
        | cons d mid =>
          obtain ⟨rfl, -⟩ := List.cons.inj hbar
          exact h front mid hmid
  have htrim : trim (left :: cs ++ [right]) = left :: cs ++ [right] := by
    rw [List.cons_append, trim_cons_of_not_isBlank hleft.2,
      trimEnd_append_of_not_isBlank hright.2]
  simp only [members, hpieces, List.map_singleton, htrim]
  rfl

/-- In parentheses, a balanced text is one member. -/
theorem members_parenthesized {cs : List Char} (h : Balanced cs) :
    members ('(' :: cs ++ [')']) = ['(' :: cs ++ [')']] := by
  refine members_enclosed (by decide) (by decide) fun front rest heq => ?_
  have hnonneg := h.nonneg front ⟨'|' :: rest, heq.symm⟩
  have hadd := depthEnd_add 0 1 false front
  simp [depthAfter] at hadd ⊢
  omega

/-- What becomes of a piece when the blanks of a text are normalized. `pending` says that blanks
were dropped just before the piece; one space may stay before the bar that ends it. -/
def Squeezed (pending : Bool) (piece squeezed : List Char) : Prop :=
  squeezed = collapse pending piece ∨ squeezed = collapse pending piece ++ [' ']

theorem Squeezed.trim_eq {pending : Bool} {piece squeezed : List Char}
    (h : Squeezed pending piece squeezed) : trim squeezed = normalizeChars piece := by
  rcases h with rfl | rfl
  · exact trim_collapse _ _
  · rw [trim_append_of_isBlank (by decide), trim_collapse]

/-- Normalizing the blanks of a text squeezes its pieces, and leaves the cuts where they are. -/
theorem pieces_collapse (depth : Int) (afterEquals pending : Bool) (cs : List Char) :
    ∃ piece rest squeezed rest',
      pieces depth (afterEquals && !pending) cs = piece :: rest ∧
      pieces depth afterEquals (collapse pending cs) = squeezed :: rest' ∧
      Squeezed pending piece squeezed ∧ List.Forall₂ (Squeezed false) rest rest' := by
  induction cs generalizing depth afterEquals pending with
  | nil => exact ⟨[], [], [], [], rfl, rfl, .inl rfl, .nil⟩
  | cons c cs ih =>
    by_cases hc : isBlank c = true
    · obtain ⟨piece, rest, squeezed, rest', hpieces, hcollapse, hsqueezed, hrest⟩ :=
        ih depth afterEquals true
      rw [Bool.not_true, Bool.and_false] at hpieces
      refine ⟨c :: piece, rest, squeezed, rest', ?_, ?_, ?_, hrest⟩
      · rw [pieces_cons_of_isBlank hc, hpieces, List.modifyHead_cons]
      · simpa [collapse, hc] using hcollapse
      · simpa [Squeezed, collapse, hc] using hsqueezed
    · have hstart : pieces depth afterEquals (collapse pending (c :: cs)) =
          (pieces depth (afterEquals && !pending) (c :: collapse false cs)).modifyHead
            fun piece => if pending then ' ' :: piece else piece := by
        obtain ⟨piece, rest, hpieces⟩ := List.exists_cons_of_ne_nil
          (pieces_ne_nil depth (afterEquals && !pending) (c :: collapse false cs))
        have hspace : isBlank ' ' = true := by decide
        cases pending <;> simp_all [collapse, pieces_cons_of_isBlank]
      rw [hstart, pieces_cons, pieces_cons]
      by_cases hbar : c = '|' ∧ depth = 0
      · obtain ⟨piece, rest, squeezed, rest', hpieces, hcollapse, hsqueezed, hrest⟩ :=
          ih 0 false false
        rw [if_pos hbar, if_pos hbar]
        refine ⟨[], piece :: rest, if pending then [' '] else [], squeezed :: rest',
          congrArg _ hpieces, by rw [hcollapse, List.modifyHead_cons], ?_, .cons hsqueezed hrest⟩
        cases pending <;> simp [Squeezed, collapse]
      · obtain ⟨piece, rest, squeezed, rest', hpieces, hcollapse, hsqueezed, hrest⟩ :=
          ih (depthAfter depth (afterEquals && !pending) c) (c == '=') false
        rw [Bool.not_false, Bool.and_true] at hpieces
        rw [if_neg hbar, if_neg hbar]
        refine ⟨c :: piece, rest, if pending then ' ' :: c :: squeezed else c :: squeezed, rest',
          by rw [hpieces, List.modifyHead_cons],
          by rw [hcollapse, List.modifyHead_cons, List.modifyHead_cons], ?_, hrest⟩
        cases pending <;> simpa [Squeezed, collapse, hc] using hsqueezed

/-- The members of a text with its blanks normalized are the members with theirs normalized. -/
theorem members_normalizeChars (cs : List Char) :
    members (normalizeChars cs) = (members cs).map normalizeChars := by
  obtain ⟨piece, rest, squeezed, rest', hpieces, hcollapse, hsqueezed, hrest⟩ :=
    pieces_collapse 0 false false (trimStart cs)
  have htrim : (pieces 0 false (normalizeChars cs)).map trim =
      (pieces 0 false (trimStart cs)).map normalizeChars := by
    have hrest' : rest'.map trim = rest.map normalizeChars := by
      rw [← List.forall₂_eq_eq_eq, List.forall₂_map_left_iff, List.forall₂_map_right_iff]
      exact (hrest.imp fun _ _ h => h.trim_eq).flip
    rw [normalizeChars, hcollapse]
    rw [Bool.false_and] at hpieces
    rw [hpieces, List.map_cons, hsqueezed.trim_eq, hrest', List.map_cons]
  have hempty (piece : List Char) : (normalizeChars piece).isEmpty = (trim piece).isEmpty := by
    rw [Bool.eq_iff_iff, List.isEmpty_iff, List.isEmpty_iff, normalizeChars_eq_nil_iff]
  rw [← members_trimStart cs, members, htrim, members, List.filter_map, List.filter_map,
    List.map_map]
  simp only [Function.comp_def, hempty, normalizeChars_trim]

end TypeText

end TypeMend
