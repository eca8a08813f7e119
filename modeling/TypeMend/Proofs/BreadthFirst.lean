import Mathlib.Data.List.Basic
import Mathlib.Data.Nat.Find
import Mathlib.Logic.Relation

/-!
# Walking breadth first

A walk takes elements from the front of a queue, skips those that it has seen, and puts the
successors of each at the end. In a finite graph it meets everything that can be reached, and what
it meets first among the elements with some property is one at the least distance: the first such in
the earliest generation that has any. Generations are lists in which an element may occur many
times; the walk meets it once, but leaving out what was seen before does not change which element
comes first.
-/
namespace TypeMend.BreadthFirst

variable {α : Type} {next : α → List α}

/-- The elements a number of steps away from those of a list, each as often as there are ways. -/
def generation (next : α → List α) : Nat → List α → List α
  | 0, xs => xs
  | n + 1, xs => generation next n (xs.flatMap next)

/-- One element can be reached from another. -/
abbrev Reaches (next : α → List α) : α → α → Prop :=
  Relation.ReflTransGen fun x y => y ∈ next x

/-! ## Generations -/

theorem generation_flatMap {β : Type} (n : Nat) (f : β → List α) (xs : List β) :
    generation next n (xs.flatMap f) = xs.flatMap fun x => generation next n (f x) := by
  induction n generalizing f with
  | zero => rfl
  | succ n ih =>
    simp only [generation, List.flatMap_assoc]
    exact ih _

theorem generation_singleton (n : Nat) (x : α) :
    generation next (n + 1) [x] = generation next n (next x) := by
  rw [generation, List.flatMap_singleton]

theorem mem_generation_iff {n : Nat} {xs : List α} {y : α} :
    y ∈ generation next n xs ↔ ∃ x ∈ xs, y ∈ generation next n [x] := by
  have hsplit : generation next n (xs.flatMap fun x => [x]) =
      xs.flatMap fun x => generation next n [x] := generation_flatMap n _ xs
  rw [List.flatMap_singleton'] at hsplit
  rw [hsplit, List.mem_flatMap]

theorem generation_subset {n : Nat} {xs ys : List α} (h : xs ⊆ ys) :
    generation next n xs ⊆ generation next n ys := by
  intro y hy
  obtain ⟨x, hx, hy⟩ := mem_generation_iff.1 hy
  exact mem_generation_iff.2 ⟨x, h hx, hy⟩

theorem reaches_iff_exists_generation {x y : α} :
    Reaches next x y ↔ ∃ n, y ∈ generation next n [x] := by
  constructor
  · intro h
    induction h using Relation.ReflTransGen.head_induction_on with
    | refl => exact ⟨0, List.mem_singleton.2 rfl⟩
    | head hstep _ ih =>
      obtain ⟨n, hy⟩ := ih
      refine ⟨n + 1, ?_⟩
      rw [generation_singleton]
      exact mem_generation_iff.2 ⟨_, hstep, hy⟩
  · rintro ⟨n, hy⟩
    induction n generalizing x with
    | zero => rw [List.mem_singleton.1 hy]
    | succ n ih =>
      rw [generation_singleton] at hy
      obtain ⟨z, hz, hy⟩ := mem_generation_iff.1 hy
      exact .head hz (ih hy)

theorem find?_eq_none_of_subset {p : α → Bool} {xs ys : List α} (h : xs ⊆ ys)
    (hnone : ys.find? p = none) : xs.find? p = none := by
  rw [List.find?_eq_none] at hnone ⊢
  exact fun x hx => hnone x (h hx)

/-! ## A walk takes one generation after the other -/

variable [DecidableEq α]

/-- Visits the elements of a queue, putting the successors of each at its end. -/
def walk (next : α → List α) : Nat → List α → List α → List α
  | 0, _, _ => []
  | visits + 1, seen, queue =>
    match queue.dropWhile (· ∈ seen) with
    | [] => []
    | x :: queue => x :: walk next visits (x :: seen) (queue ++ next x)

/-- The elements of a queue that have not been seen, each once. -/
def fresh : List α → List α → List α
  | _, [] => []
  | seen, x :: queue => if x ∈ seen then fresh seen queue else x :: fresh (x :: seen) queue

theorem fresh_subset (seen queue : List α) : fresh seen queue ⊆ queue := by
  induction queue generalizing seen with
  | nil => simp [fresh]
  | cons x queue ih =>
    rw [fresh]
    split_ifs
    · exact List.subset_cons_of_subset x (ih seen)
    · exact List.cons_subset_cons x (ih (x :: seen))

/-- Number of elements of a list that have not been seen. -/
def unseen (all seen : List α) : Nat :=
  all.countP (· ∉ seen)

theorem unseen_cons_lt {all seen : List α} {x : α} (hx : x ∈ all) (hfresh : x ∉ seen) :
    unseen all (x :: seen) < unseen all seen := by
  have hle (ys : List α) : ys.countP (· ∉ x :: seen) ≤ ys.countP (· ∉ seen) :=
    List.countP_mono_left fun y _ => by simp
  obtain ⟨front, rest, rfl⟩ := List.append_of_mem hx
  have hfront := hle front
  have hrest := hle rest
  simp only [unseen, List.countP_append, List.countP_cons, List.mem_cons_self, hfresh] at *
  simp at *
  omega

theorem walk_skip {seen queue : List α} {x : α} (h : x ∈ seen) (visits : Nat) :
    walk next visits seen (x :: queue) = walk next visits seen queue := by
  cases visits with
  | zero => rfl
  | succ visits => simp [walk, h]

theorem walk_visit {seen queue : List α} {x : α} (h : x ∉ seen) (visits : Nat) :
    walk next (visits + 1) seen (x :: queue) =
      x :: walk next visits (x :: seen) (queue ++ next x) := by
  simp [walk, h]

/-- In a finite graph a walk visits no more than there is to see. -/
theorem length_walk_le {all : List α} (hall : ∀ x ∈ all, next x ⊆ all) (visits : Nat)
    {seen queue : List α} (hqueue : queue ⊆ all) :
    (walk next visits seen queue).length ≤ unseen all seen := by
  induction visits generalizing seen queue with
  | zero => exact Nat.zero_le _
  | succ visits ih =>
    rw [walk]
    cases hdrop : queue.dropWhile (· ∈ seen) with
    | nil => exact Nat.zero_le _
    | cons x rest =>
      have hsub : x :: rest ⊆ all := hdrop ▸ List.Subset.trans (List.dropWhile_subset _) hqueue
      obtain ⟨hx, hrest⟩ := List.cons_subset.1 hsub
      have hnew : x ∉ seen := by
        have hhead := List.head?_dropWhile_not (fun y => decide (y ∈ seen)) queue
        simpa [hdrop] using hhead
      have hlater : (walk next visits (x :: seen) (rest ++ next x)).length ≤
          unseen all (x :: seen) := ih (List.append_subset.2 ⟨hrest, hall x hx⟩)
      have hless := unseen_cons_lt hx hnew
      rw [List.length_cons]
      omega

/-- With more visits than a finite graph has elements, a walk ends before they are used up. -/
theorem length_walk_lt {all : List α} (hall : ∀ x ∈ all, next x ⊆ all) {x : α} (hx : x ∈ all)
    {visits : Nat} (hvisits : all.length < visits) : (walk next visits [] [x]).length < visits := by
  have hwalk : (walk next visits [] [x]).length ≤ unseen all [] :=
    length_walk_le hall visits (by simpa using hx)
  have hunseen : unseen all [] ≤ all.length := List.countP_le_length
  omega

/-- A walk first visits what is fresh in its queue, and then goes on with the successors. -/
theorem walk_append (next : α → List α) {all : List α} (visits : Nat) (seen queue later : List α)
    (hqueue : queue ⊆ all) (hvisits : unseen all seen < visits) :
    ∃ visits', unseen all ((fresh seen queue).reverse ++ seen) < visits' ∧
      walk next visits seen (queue ++ later) =
        fresh seen queue ++ walk next visits' ((fresh seen queue).reverse ++ seen)
          (later ++ (fresh seen queue).flatMap next) := by
  induction queue generalizing visits seen later with
  | nil => exact ⟨visits, hvisits, by simp [fresh]⟩
  | cons x queue ih =>
    have hrest : queue ⊆ all := fun y hy => hqueue (List.mem_cons_of_mem x hy)
    rw [fresh, List.cons_append]
    split_ifs with hx
    · rw [walk_skip hx]
      exact ih visits seen later hrest hvisits
    · have hlt := unseen_cons_lt (hqueue List.mem_cons_self) hx
      obtain ⟨visits, rfl⟩ : ∃ n, visits = n + 1 := ⟨visits - 1, by omega⟩
      obtain ⟨visits', hvisits', hwalk⟩ := ih visits (x :: seen) (later ++ next x) hrest (by omega)
      refine ⟨visits', by simpa using hvisits', ?_⟩
      rw [walk_visit hx, List.append_assoc, hwalk]
      simp

/-- Leaving out what was seen does not change what comes first. -/
theorem find?_flatMap_fresh {β : Type} (p : β → Bool) (f : α → List β) (queue : List α)
    {seen : List α} (hseen : ∀ x ∈ seen, (f x).find? p = none) :
    ((fresh seen queue).flatMap f).find? p = (queue.flatMap f).find? p := by
  induction queue generalizing seen with
  | nil => rfl
  | cons x queue ih =>
    rw [fresh, List.flatMap_cons, List.find?_append]
    split_ifs with hx
    · rw [ih hseen, hseen x hx, Option.none_or]
    · rw [List.flatMap_cons, List.find?_append]
      cases hfound : (f x).find? p with
      | some y => rfl
      | none =>
        rw [Option.none_or, Option.none_or]
        refine ih fun z hz => ?_
        rcases List.mem_cons.1 hz with rfl | hz
        · exact hfound
        · exact hseen z hz

/-! ## What a walk meets first -/

/-- What comes first in the earliest generation that has any is what a walk meets first, unless
something as near was seen before. -/
theorem find?_walk_of_generation {all : List α} (hall : ∀ x ∈ all, next x ⊆ all) {p : α → Bool}
    {n visits : Nat} {seen queue : List α} {y : α} (hqueue : queue ⊆ all)
    (hvisits : unseen all seen < visits)
    (hseen : ∀ x ∈ seen, ∀ m ≤ n, (generation next m [x]).find? p = none)
    (hbefore : ∀ m < n, (generation next m queue).find? p = none)
    (hfound : (generation next n queue).find? p = some y) :
    (walk next visits seen queue).find? p = some y := by
  induction n generalizing visits seen queue with
  | zero =>
    obtain ⟨visits', -, hwalk⟩ := walk_append next visits seen queue [] hqueue hvisits
    have hfirst := find?_flatMap_fresh p (fun x => [x]) queue fun x hx =>
      hseen x hx 0 (Nat.le_refl 0)
    rw [List.flatMap_singleton', List.flatMap_singleton'] at hfirst
    rw [List.append_nil] at hwalk
    rw [hwalk, List.find?_append, hfirst, show queue.find? p = some y from hfound, Option.some_or]
  | succ n ih =>
    obtain ⟨visits', hvisits', hwalk⟩ :=
      walk_append next visits seen queue [] hqueue hvisits
    have hfresh := fresh_subset seen queue
    have hnone : (fresh seen queue).find? p = none :=
      find?_eq_none_of_subset hfresh (hbefore 0 (Nat.succ_pos n))
    rw [List.append_nil, List.nil_append] at hwalk
    rw [hwalk, List.find?_append, hnone, Option.none_or]
    have hsteps {m : Nat} :
        generation next m ((fresh seen queue).flatMap next) ⊆ generation next (m + 1) queue := by
      refine generation_subset fun z hz => ?_
      obtain ⟨x, hx, hz⟩ := List.mem_flatMap.1 hz
      exact List.mem_flatMap.2 ⟨x, hfresh hx, hz⟩
    refine ih ?_ hvisits' (fun x hx m hm => ?_) (fun m hm => ?_) ?_
    · intro z hz
      obtain ⟨x, hx, hz⟩ := List.mem_flatMap.1 hz
      exact hall x (hqueue (hfresh hx)) hz
    · rcases List.mem_append.1 hx with hx | hx
      · have hmem : x ∈ queue := hfresh (List.mem_reverse.1 hx)
        refine find?_eq_none_of_subset (generation_subset ?_) (hbefore m (by omega))
        simpa using hmem
      · exact hseen x hx m (by omega)
    · exact find?_eq_none_of_subset hsteps (hbefore (m + 1) (by omega))
    · rw [generation_flatMap, find?_flatMap_fresh p, ← generation_flatMap]
      · exact hfound
      · intro x hx
        rw [← generation_singleton]
        exact hseen x hx (n + 1) (Nat.le_refl _)

theorem reaches_of_mem_walk {visits : Nat} {seen queue : List α} {y : α}
    (h : y ∈ walk next visits seen queue) : ∃ x ∈ queue, Reaches next x y := by
  induction visits generalizing seen queue with
  | zero => cases h
  | succ visits ih =>
    rw [walk] at h
    cases hdrop : queue.dropWhile (· ∈ seen) with
    | nil =>
      rw [hdrop] at h
      cases h
    | cons x rest =>
      have hsub : x :: rest ⊆ queue := hdrop ▸ List.dropWhile_subset _
      rw [hdrop] at h
      rcases List.mem_cons.1 h with rfl | h
      · exact ⟨y, hsub List.mem_cons_self, .refl⟩
      · obtain ⟨z, hz, hreaches⟩ := ih h
        rcases List.mem_append.1 hz with hz | hz
        · exact ⟨z, hsub (List.mem_cons_of_mem x hz), hreaches⟩
        · exact ⟨x, hsub List.mem_cons_self, .head hz hreaches⟩

/-- Where an element with a property can be reached, a walk through a finite graph meets one first
that comes first among all at the least distance. -/
theorem find?_walk_of_reaches {all : List α} (hall : ∀ x ∈ all, next x ⊆ all) {p : α → Bool}
    {x y : α} (hx : x ∈ all) {visits : Nat} (hvisits : all.length < visits)
    (hreaches : Reaches next x y) (hy : p y = true) :
    ∃ first n, (walk next visits [] [x]).find? p = some first ∧
      (generation next n [x]).find? p = some first ∧
      ∀ m < n, (generation next m [x]).find? p = none := by
  have hsome : ∃ n, ((generation next n [x]).find? p).isSome := by
    obtain ⟨n, hn⟩ := reaches_iff_exists_generation.1 hreaches
    exact ⟨n, List.find?_isSome.2 ⟨y, hn, hy⟩⟩
  obtain ⟨first, hfirst⟩ := Option.isSome_iff_exists.1 (Nat.find_spec hsome)
  have hbefore : ∀ m < Nat.find hsome, (generation next m [x]).find? p = none := by
    intro m hm
    simpa using Nat.find_min hsome hm
  have hunseen : unseen all [] < visits := by
    have hlength : unseen all [] ≤ all.length := List.countP_le_length
    omega
  exact ⟨first, Nat.find hsome, find?_walk_of_generation hall (by simpa using hx) hunseen
    (by simp) hbefore hfirst, hfirst, hbefore⟩

/-- A walk through a finite graph meets an element with a property exactly if one can be reached. -/
theorem find?_walk_eq_none_iff {all : List α} (hall : ∀ x ∈ all, next x ⊆ all) {p : α → Bool}
    {x : α} (hx : x ∈ all) {visits : Nat} (hvisits : all.length < visits) :
    (walk next visits [] [x]).find? p = none ↔ ∀ y, Reaches next x y → p y = false := by
  constructor
  · intro hnone y hreaches
    by_contra hy
    obtain ⟨first, n, hfirst, -⟩ :=
      find?_walk_of_reaches hall hx hvisits hreaches (by simpa using hy)
    rw [hnone] at hfirst
    cases hfirst
  · intro hnone
    rw [List.find?_eq_none]
    intro y hy
    obtain ⟨z, hz, hreaches⟩ := reaches_of_mem_walk hy
    rw [List.mem_singleton.1 hz] at hreaches
    simp [hnone y hreaches]

/-- What a walk through a finite graph meets first comes first among all at the least distance. -/
theorem exists_generation_of_find?_walk {all : List α} (hall : ∀ x ∈ all, next x ⊆ all)
    {p : α → Bool} {x y : α} (hx : x ∈ all) {visits : Nat} (hvisits : all.length < visits)
    (h : (walk next visits [] [x]).find? p = some y) :
    ∃ n, (generation next n [x]).find? p = some y ∧
      ∀ m < n, (generation next m [x]).find? p = none := by
  obtain ⟨z, hz, hreaches⟩ := reaches_of_mem_walk (List.mem_of_find?_eq_some h)
  rw [List.mem_singleton.1 hz] at hreaches
  obtain ⟨first, n, hfirst, hgeneration⟩ :=
    find?_walk_of_reaches hall hx hvisits hreaches (List.find?_some h)
  rw [h] at hfirst
  cases hfirst
  exact ⟨n, hgeneration⟩

end TypeMend.BreadthFirst
