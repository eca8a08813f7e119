import TypeMend.Proofs.Coverage
import TypeMend.Proofs.Likeness

/-!
# The layers of a problem

A problem has a stack of layers: the generic types around its pair, outermost first, then the pair
itself, and then the property to which it was narrowed, if it was. The generic types are found by a
walk outward, which is cut off by a bound, so that it ends also where the layers of a snapshot run
in a circle. `outward?` says what lies where without a bound and without a list.

A classification opens a problem with its stack and then goes one of three ways: it leaves the nodes
as they are, it narrows the problem to a property and puts that on the stack, or it moves the target
to where a slot is to be mended. Only the last way leaves the stack behind.
-/
namespace TypeMend

open Workspace

/-- A step that may fail, taken some number of times. -/
def iterate? {α : Type} (step : α → Option α) (a : α) : Nat → Option α
  | 0 => some a
  | n + 1 => (iterate? step a n).bind step

theorem iterate?_succ' {α : Type} (step : α → Option α) (a : α) (n : Nat) :
    iterate? step a (n + 1) = (step a).bind fun b => iterate? step b n := by
  induction n with
  | zero => cases h : step a <;> simp [iterate?, h]
  | succ n ih =>
    rw [iterate?, ih, Option.bind_assoc]
    rfl

/-- The first value that a list gives is the first by position. -/
theorem findSome?_eq_range {α β : Type} (f : α → Option β) (xs : List α) :
    xs.findSome? f = (List.range xs.length).findSome? fun n => xs[n]?.bind f := by
  induction xs with
  | nil => rfl
  | cons x xs ih =>
    rw [List.length_cons, List.range_succ_eq_map, List.findSome?_cons, List.findSome?_cons,
      List.findSome?_map, ih]
    simp only [List.getElem?_cons_zero, Option.bind_some, Function.comp_def,
      List.getElem?_cons_succ]

/-! ## The walk outward -/

namespace Snapshot

variable (snapshot : Snapshot)

/-- The pair some number of generic types outward. -/
def outward? (pair : NodePair) (n : Nat) : Option NodePair :=
  iterate? snapshot.enclosing? pair n

@[simp] theorem outward?_zero (pair : NodePair) : snapshot.outward? pair 0 = some pair := rfl

theorem outward?_succ (pair : NodePair) (n : Nat) :
    snapshot.outward? pair (n + 1) = (snapshot.outward? pair n).bind snapshot.enclosing? := rfl

/-- One turn of the walk outward, from the pairs found so far and the one where it stands. -/
def walkOut? (depth : Nat) (walk : List NodePair × NodePair) : Option (List NodePair × NodePair) :=
  if walk.1.length < depth then
    (snapshot.enclosing? walk.2).map fun outer => (walk.1 ++ [outer], outer)
  else none

theorem getElem?_enclosingChain (depth : Nat) (pair : NodePair) (n : Nat) :
    (snapshot.enclosingChain depth pair)[n]? =
      if n < depth then snapshot.outward? pair (n + 1) else none := by
  induction depth generalizing pair n with
  | zero => simp [enclosingChain]
  | succ depth ih =>
    rw [outward?, iterate?_succ']
    unfold enclosingChain
    cases snapshot.enclosing? pair with
    | none => simp
    | some outer =>
      cases n with
      | zero => simp [iterate?]
      | succ n => simp [ih, outward?]

theorem getElem?_cons_enclosingChain (depth : Nat) (pair : NodePair) (n : Nat) :
    (pair :: snapshot.enclosingChain depth pair)[n]? =
      if n ≤ depth then snapshot.outward? pair n else none := by
  cases n with
  | zero => simp
  | succ n => simp [getElem?_enclosingChain]

variable {snapshot} {depth n : Nat} {pair : NodePair}

/-- The walk goes as far outward as there are pairs and as the bound allows. -/
theorem le_length_enclosingChain_iff :
    n ≤ (snapshot.enclosingChain depth pair).length ↔
      n ≤ depth ∧ (snapshot.outward? pair n).isSome = true := by
  have hget := snapshot.getElem?_cons_enclosingChain depth pair n
  have hlength : n ≤ (snapshot.enclosingChain depth pair).length ↔
      ((pair :: snapshot.enclosingChain depth pair)[n]?).isSome = true := by
    rw [isSome_getElem?, List.length_cons, Nat.lt_succ_iff]
  rw [hlength, hget]
  by_cases h : n ≤ depth <;> simp [h]

/-- The walk finds one pair a turn. -/
theorem iterate?_walkOut? (h : n ≤ depth) :
    iterate? (snapshot.walkOut? depth) ([], pair) n =
      (snapshot.outward? pair n).map fun current =>
        ((snapshot.enclosingChain depth pair).take n, current) := by
  induction n with
  | zero => simp [iterate?]
  | succ n ih =>
    rw [iterate?, ih (Nat.le_of_succ_le h), outward?_succ]
    cases hcurrent : snapshot.outward? pair n with
    | none => rfl
    | some current =>
      have hnext : (snapshot.enclosingChain depth pair)[n]? = snapshot.enclosing? current := by
        rw [getElem?_enclosingChain, if_pos (Nat.lt_of_succ_le h), outward?_succ, hcurrent,
          Option.bind_some]
      have hreached : n ≤ (snapshot.enclosingChain depth pair).length :=
        le_length_enclosingChain_iff.2 ⟨Nat.le_of_succ_le h, by simp [hcurrent]⟩
      have hlength : ((snapshot.enclosingChain depth pair).take n).length < depth := by
        rw [List.length_take, min_eq_left hreached]
        exact h
      rw [Option.map_some, Option.bind_some, Option.bind_some, walkOut?, if_pos hlength,
        List.take_add_one, hnext]
      cases snapshot.enclosing? current <;> rfl

/-- The walk stops with what `enclosingChain` has, after as many turns as it found pairs. -/
theorem walkOut?_stops (snapshot : Snapshot) (depth : Nat) (pair : NodePair) :
    ∃ current, iterate? (snapshot.walkOut? depth) ([], pair)
        (snapshot.enclosingChain depth pair).length =
          some (snapshot.enclosingChain depth pair, current) ∧
      snapshot.walkOut? depth (snapshot.enclosingChain depth pair, current) = none := by
  obtain ⟨hdepth, hsome⟩ := le_length_enclosingChain_iff.1
    (le_refl (snapshot.enclosingChain depth pair).length)
  obtain ⟨current, hcurrent⟩ := Option.isSome_iff_exists.1 hsome
  refine ⟨current, ?_, ?_⟩
  · rw [iterate?_walkOut? hdepth, hcurrent, Option.map_some, List.take_length]
  · have hnext := snapshot.getElem?_enclosingChain depth pair
      (snapshot.enclosingChain depth pair).length
    rw [List.getElem?_eq_none le_rfl, outward?_succ, hcurrent, Option.bind_some] at hnext
    unfold walkOut?
    split_ifs with hlt
    · rw [if_pos hlt] at hnext
      rw [← hnext, Option.map_none]
    · rfl

/-- The first name on the way outward. -/
theorem findSome?_enclosingChain {α : Type} (f : NodePair → Option α) :
    (pair :: snapshot.enclosingChain depth pair).findSome? f =
      (List.range ((snapshot.enclosingChain depth pair).length + 1)).findSome? fun n =>
        (snapshot.outward? pair n).bind f := by
  rw [findSome?_eq_range, List.length_cons, ← List.head?_filterMap, ← List.head?_filterMap]
  congr 1
  refine List.filterMap_congr fun n hn => ?_
  have hreached := Nat.lt_succ_iff.1 (List.mem_range.1 hn)
  rw [getElem?_cons_enclosingChain, if_pos (le_length_enclosingChain_iff.1 hreached).1]

/-! ## What a slot means -/

/-- The key of the node at which a slot is to be mended: the name of the member that it means, or
the declaration that lacks it. -/
def slotKey? (snapshot : Snapshot) (slot : MemberSlot) : Option NodeKey :=
  (snapshot.declarationOf? slot.ownerType).map fun declaration =>
    (snapshot.memberKey? declaration slot).getD (declarationNode declaration).key

end Snapshot

/-! ## The stack that is opened -/

/-- Whether the problem was narrowed to a property. -/
def Problem.isNarrowed (problem : Problem) : Bool :=
  problem.stack.any fun layer => layer.kind == .property

namespace Engine

variable {engine : Engine} {ws ws' : Workspace} {pair : NodePair} {problem opened found : Problem}

/-- The pairs around a pair that an engine takes into account, from the inside out. -/
def surroundings (engine : Engine) (pair : NodePair) : List NodePair :=
  engine.snapshot.enclosingChain engine.options.maxLayerDepth pair

/-- A problem that was opened for a pair and not changed since. -/
structure Opened (engine : Engine) (pair : NodePair) (ws : Workspace) (opened : Problem) :
    Prop where
  kinds_eq : opened.stack.map Layer.kind =
    List.replicate (engine.surroundings pair).length .typeArgument ++ [.diagnostic]
  shows : List.Forall₂ ws.ShowsPair (pair :: engine.surroundings pair).reverse opened.stack
  last_eq : opened.stack.getLast? = some ⟨.diagnostic, opened.source, opened.target⟩
  functionName_eq : opened.functionName =
    (pair :: engine.surroundings pair).findSome? NodePair.functionName

theorem Opened.extends (h : engine.Opened pair ws opened) (hext : Extends ws ws') :
    engine.Opened pair ws' opened :=
  { h with shows := h.shows.imp fun _ _ => hext.showsPair }

/-- The two nodes of an opened problem are those of its pair. -/
theorem Opened.showsPair (h : engine.Opened pair ws opened) :
    ws.ShowsPair pair ⟨.diagnostic, opened.source, opened.target⟩ := by
  obtain ⟨outer, hstack⟩ := List.getLast?_eq_some_iff.1 h.last_eq
  have hshows := h.shows
  rw [← List.reverse_reverse opened.stack, List.forall₂_reverse_iff, hstack,
    List.reverse_concat] at hshows
  exact (List.forall₂_cons.1 hshows).1

theorem openProblem_opened (code : UInt32) (kind : ProblemKind) {outer : List Layer} {inner : Layer}
    (hkinds : outer.map Layer.kind =
      List.replicate (engine.surroundings pair).length .typeArgument)
    (houter : List.Forall₂ ws.ShowsPair (engine.surroundings pair).reverse outer)
    (hkind : inner.kind = .diagnostic) (hinner : ws.ShowsPair pair inner) :
    engine.Opened pair ws (openProblem code kind outer inner
      ((pair :: engine.surroundings pair).findSome? NodePair.functionName)) where
  kinds_eq := by simp [openProblem, hkinds, hkind]
  shows := by
    rw [List.reverse_cons]
    exact List.rel_append houter (.cons hinner .nil)
  last_eq := by simp [openProblem, ← hkind]
  functionName_eq := rfl

/-! ## Where a classification ends -/

/-- The two sides have shapes that disagree in one property and in nothing else. -/
def ClashesOnce (engine : Engine) (pair : NodePair) : Prop :=
  ∃ source target key, engine.snapshot.shapeOf? pair.source.typeText = some source ∧
    engine.snapshot.shapeOf? pair.target.typeText = some target ∧
    source.compare TypeText.assignable target = ⟨[], [key], []⟩

/-- Both sides have shapes. -/
def BetweenObjects (engine : Engine) (pair : NodePair) : Prop :=
  (engine.snapshot.shapeOf? pair.source.typeText).isSome = true ∧
    (engine.snapshot.shapeOf? pair.target.typeText).isSome = true

/-- How a problem that was opened is left. -/
inductive Ends (engine : Engine) (pair : NodePair) (ws : Workspace) (opened found : Problem) : Prop
  /-- With the nodes of the pair. -/
  | whole (plain : pair.source.placeholder = none) (apart : ¬engine.ClashesOnce pair)
      (kind_ne : engine.BetweenObjects pair → found.kind ≠ .mismatch)
      (source_eq : found.source = opened.source) (target_eq : found.target = opened.target)
      (stack_eq : found.stack = opened.stack)
      (functionName_eq : found.functionName = opened.functionName)
  /-- With the nodes of a property, which are on the stack. -/
  | property (plain : pair.source.placeholder = none) (clash : engine.ClashesOnce pair)
      (kind_eq : found.kind = .mismatch)
      (stack_eq : found.stack = opened.stack ++ [⟨.property, found.source, found.target⟩])
      (functionName_eq : found.functionName = opened.functionName)
  /-- With the node at which a slot is to be mended, which is not on the stack. -/
  | slot {slot : MemberSlot} (placeholder : pair.source.placeholder = some slot)
      (source_eq : found.source = opened.source)
      (target_eq : (engine.snapshot.slotKey? slot).elim (found.target = opened.target)
        fun key => ws.index.get? key = some found.target)
      (stack_eq : found.stack = opened.stack)
      (functionName_eq : found.functionName = opened.functionName)

/-- What is wrong is one property exactly if the comparison has a single key. -/
theorem ofComparison?_eq_propMismatch_iff (comparison : Comparison) :
    (ProblemKind.ofComparison? comparison = some .propMismatch ∧
        ∃ key, comparison.mismatch = [key]) ↔
      ∃ key, comparison = ⟨[], [key], []⟩ := by
  obtain ⟨missing, mismatch, reversedMissing⟩ := comparison
  constructor
  · rintro ⟨hkind, key, hkey⟩
    dsimp only at hkey
    subst hkey
    cases missing <;> cases reversedMissing <;> simp_all [ProblemKind.ofComparison?]
  · rintro ⟨key, hkey⟩
    cases hkey
    exact ⟨rfl, key, rfl⟩

theorem ofComparison?_ne_mismatch (comparison : Comparison) :
    ProblemKind.ofComparison? comparison ≠ some .mismatch := by
  unfold ProblemKind.ofComparison?
  split_ifs
  · simp
  · split <;> simp

theorem classifyObjects_ends (h : engine.Consistent ws) (hplain : pair.source.placeholder = none)
    {source target : Shape}
    (hsource : engine.snapshot.shapeOf? pair.source.typeText = some source)
    (htarget : engine.snapshot.shapeOf? pair.target.typeText = some target) :
    Runs engine.anywhere (engine.classifyObjects pair source target opened) ws fun result ws' =>
      ∀ found suggestions, result = some (.problem found suggestions) →
        engine.Ends pair ws' opened found := by
  have hclash : engine.ClashesOnce pair ↔
      ∃ key, source.compare TypeText.assignable target = ⟨[], [key], []⟩ := by
    unfold ClashesOnce
    rw [hsource, htarget]
    constructor
    · rintro ⟨_, _, key, ⟨⟩, ⟨⟩, hkey⟩
      exact ⟨key, hkey⟩
    · rintro ⟨key, hkey⟩
      exact ⟨source, target, key, rfl, rfl, hkey⟩
  unfold classifyObjects
  dsimp only
  cases hkind : ProblemKind.ofComparison? (source.compare TypeText.assignable target) with
  | none => exact .pure fun _ _ h => by cases h
  | some kind =>
    dsimp only
    rw [← ofComparison?_eq_propMismatch_iff, hkind, Option.some_inj] at hclash
    refine (resolve_runs h.sound _).bind fun sourceDeclaration ws₁ h₁ _ => ?_
    have hc₁ := h.evolves h₁
    refine (resolve_finds hc₁.sound hc₁.faithful _).bind
      fun targetDeclaration ws₂ h₂ hdeclared => ?_
    have hc₂ := hc₁.evolves h₂
    refine (sourceCarriers_finds hc₂ source sourceDeclaration _ ∅).bind
      fun carriers ws₃ h₃ hcarried => ?_
    refine (declaredMembers_finds (hc₂.evolves h₃)
      (hdeclared.imp fun _ _ => h₃.extends.stands) _).bind fun members ws₄ h₄ _ => ?_
    refine (narrow_cases target _).bind fun result ws₅ h₅ hresult => .pure ?_
    intro found suggestions heq
    cases heq
    rcases hresult with ⟨hone, _, _, rfl⟩ | ⟨rfl, hcarrier⟩
    · exact .property hplain (hclash.2 hone) rfl rfl rfl
    · have hmany : ¬engine.ClashesOnce pair := by
        intro hone
        obtain ⟨key, hkey, hnone⟩ := hcarrier (hclash.1 hone)
        obtain ⟨carrier, hsome⟩ := hcarried key (.inl (List.mem_append_right _ hkey))
        rw [hnone] at hsome
        cases hsome
      refine .whole hplain hmany (fun _ hmismatch => ?_) rfl rfl rfl rfl
      dsimp only at hmismatch
      rw [hmismatch] at hkind
      exact ofComparison?_ne_mismatch _ hkind

theorem classifyValues_ends (h : engine.Consistent ws) (hplain : pair.source.placeholder = none) :
    Runs engine.anywhere (engine.classifyValues pair opened) ws fun result ws' =>
      ∀ found suggestions, result = some (.problem found suggestions) →
        engine.Ends pair ws' opened found := by
  have hwhole (hnot : ¬engine.BetweenObjects pair) (kind : ProblemKind) (ws' : Workspace) :
      engine.Ends pair ws' opened { opened with kind := kind } := by
    refine .whole hplain (fun ⟨source, target, key, hsource, htarget, _⟩ => hnot ?_)
      (fun hboth => absurd hboth hnot) rfl rfl rfl rfl
    simp [BetweenObjects, hsource, htarget]
  unfold classifyValues
  cases hsource : engine.snapshot.shapeOf? pair.source.typeText with
  | none =>
    have hnot : ¬engine.BetweenObjects pair := by simp [BetweenObjects, hsource]
    cases engine.snapshot.shapeOf? pair.target.typeText with
    | none =>
      refine .pure fun found suggestions heq => ?_
      cases heq
      exact hwhole hnot opened.kind ws
    | some target =>
      refine .pure fun found suggestions heq => ?_
      cases heq
      exact hwhole hnot _ ws
  | some source =>
    cases htarget : engine.snapshot.shapeOf? pair.target.typeText with
    | none =>
      refine .pure fun found suggestions heq => ?_
      cases heq
      exact hwhole (by simp [BetweenObjects, htarget]) _ ws
    | some target => exact classifyObjects_ends h hplain hsource htarget

theorem classifyPlaceholder_ends (h : engine.Consistent ws) (hr : Rooted engine.snapshot ws)
    {slot : MemberSlot} (hslot : pair.source.placeholder = some slot) :
    Runs engine.anywhere (engine.classifyPlaceholder pair slot opened) ws fun result ws' =>
      ∀ found suggestions, result = some (.problem found suggestions) →
        engine.Ends pair ws' opened found := by
  unfold classifyPlaceholder
  refine (resolve_finds h.sound h.faithful _).bind fun declaration ws₁ h₁ hdeclared => ?_
  refine (slotMember_provides (h.evolves h₁) slot hdeclared).bind fun member ws₂ h₂ hmember => ?_
  cases member with
  | some member =>
    obtain ⟨key, hkey, hindex⟩ := hmember.of_right
    obtain ⟨owner, howner, hkey⟩ := Option.bind_eq_some_iff.1 hkey
    refine .get_bind ?_
    dsimp only
    split_ifs
    · exact .pure fun _ _ h => by cases h
    · refine .pure fun found suggestions heq => ?_
      cases heq
      refine .slot hslot rfl ?_ rfl rfl
      rw [anywhere_snapshot] at howner
      simpa [Snapshot.slotKey?, howner, hkey, clashingMember] using hindex
  | none =>
    have hadded : Evolves engine.anywhere ws₂ (ws₂.addDetached (slotCarrier pair.source slot)).2 :=
      (addDetached_spec (admits_of_unwritten rfl (.inr trivial))).1
    refine Runs.bind (.modifyGet (Q := fun _ _ => True) hadded trivial) fun carrier ws₃ h₃ _ => ?_
    refine .get_bind (.pure fun found suggestions heq => ?_)
    cases heq
    refine .slot hslot rfl ?_ rfl rfl
    rw [anywhere_snapshot] at hdeclared hmember
    unfold Snapshot.slotKey?
    generalize engine.snapshot.declarationOf? slot.ownerType = owner at hdeclared hmember ⊢
    cases hdeclared with
    | none => rfl
    | @some owner id hstands =>
      have hnone : engine.snapshot.memberKey? owner slot = none := by
        simpa using hmember.isSome_eq
      have hrooted : Rooted engine.snapshot ws₃ := (h₁.trans (h₂.trans h₃)).rooted hr
      have hindex := ((h₂.trans h₃).extends.stands hstands).index_eq hrooted
      simpa [hnone, absentMember] using hindex

/-- A problem is opened and then ends. -/
theorem classify_ends (h : engine.Consistent ws) (hr : Rooted engine.snapshot ws) (code : UInt32)
    (pair : NodePair) :
    Runs engine.anywhere (engine.classify code pair) ws fun classification ws' =>
      ∀ found suggestions, classification = .problem found suggestions →
        ∃ opened, engine.Opened pair ws' opened ∧ engine.Ends pair ws' opened found := by
  unfold classify
  dsimp only
  cases Family.ofCode? code with
  | none => exact .pure fun _ _ h => by cases h
  | some family =>
    refine (ensureFile_runs _).bind fun _ ws₁ h₁ _ => ?_
    have hc₁ := h.evolves h₁
    refine (internOuter_shows hc₁ _).bind fun outer ws₂ h₂ houter => ?_
    have hc₂ := hc₁.evolves h₂
    refine (internLayer_shows hc₂ _ pair).bind fun inner ws₃ h₃ hinner => ?_
    have hc₃ := hc₂.evolves h₃
    rw [List.length_reverse] at houter
    have hopened (kind : ProblemKind) := openProblem_opened code kind houter.1
      (houter.2.imp fun _ _ => h₃.extends.showsPair) hinner.1 hinner.2
    cases hslot : pair.source.placeholder with
    | some slot =>
      have hr₃ : Rooted engine.snapshot ws₃ := (h₁.trans (h₂.trans h₃)).rooted hr
      refine (classifyPlaceholder_ends hc₃ hr₃ hslot).bind fun result ws₄ h₄ hresult => ?_
      exact .pure fun found suggestions heq => ⟨_, (hopened _).extends h₄.extends,
        hresult found suggestions (Classification.eq_some_of_getD heq)⟩
    | none =>
      dsimp only
      split_ifs
      · exact .pure fun _ _ h => by cases h
      · refine (classifyValues_ends hc₃ hslot).bind fun result ws₄ h₄ hresult => ?_
        exact .pure fun found suggestions heq => ⟨_, (hopened _).extends h₄.extends,
          hresult found suggestions (Classification.eq_some_of_getD heq)⟩

theorem Poses.ends (h : engine.Poses pair ws problem) :
    ∃ opened, engine.Opened pair ws opened ∧ engine.Ends pair ws opened problem := by
  obtain ⟨before, code, suggestions, hreaches, hrun⟩ := h
  have hr : Rooted engine.snapshot before := hreaches.evolves.rooted (coherent_empty engine).rooted
  exact ((classify_ends hreaches.consistent hr code pair).of_ok hrun).2 _ _ rfl

/-! ## The last layer -/

/-- A number is filed under one key. -/
theorem Consistent.key_eq (h : engine.Consistent ws) {key other : NodeKey} {id : NodeId}
    (hkey : ws.index.get? key = some id) (hother : ws.index.get? other = some id) : key = other :=
  (h.faithful.keyed key id hkey).2.symm.trans (h.faithful.keyed other id hother).2

/-- What the last layer holds. Its source is always that of the problem. Its target is that of the
problem except where a slot is mended at a node other than the target of the pair: then the problem
has moved to that node, and the layer has not. -/
theorem last_layer_holds_iff (h : engine.Poses pair ws problem) :
    ∃ last, problem.stack.getLast? = some last ∧ last.source = problem.source ∧
      (last.target = problem.target ↔ ∀ slot key, pair.source.placeholder = some slot →
        engine.snapshot.slotKey? slot = some key → key = sourceKey pair.target) ∧
      ∀ slot key, pair.source.placeholder = some slot →
        engine.snapshot.slotKey? slot = some key → ws.index.get? key = some problem.target := by
  obtain ⟨opened, hopened, hends⟩ := h.ends
  cases hends with
  | whole plain _ _ source_eq target_eq stack_eq =>
    refine ⟨_, stack_eq ▸ hopened.last_eq, source_eq.symm, ?_, ?_⟩
    · simp [plain, target_eq]
    · simp [plain]
  | property plain _ _ stack_eq =>
    refine ⟨⟨.property, problem.source, problem.target⟩, ?_, rfl, ?_, ?_⟩
    · rw [stack_eq, List.getLast?_concat]
    · simp [plain]
    · simp [plain]
  | @slot slot placeholder source_eq target_eq stack_eq =>
    have hsame {other : MemberSlot} (hother : pair.source.placeholder = some other) :
        other = slot := Option.some.inj (hother.symm.trans placeholder)
    have hpair := hopened.showsPair.target_eq
    dsimp only at hpair
    refine ⟨_, stack_eq ▸ hopened.last_eq, source_eq.symm, ⟨fun hlast => ?_, fun hall => ?_⟩, ?_⟩
    · intro other key hother hkey
      obtain rfl := hsame hother
      rw [hkey] at target_eq
      dsimp only at hlast
      rw [hlast] at hpair
      exact h.consistent.key_eq target_eq hpair
    · cases hkey : engine.snapshot.slotKey? slot with
      | none =>
        rw [hkey] at target_eq
        exact target_eq.symm
      | some key =>
        rw [hkey] at target_eq
        rw [← hall slot key placeholder hkey] at hpair
        exact Option.some.inj (hpair.symm.trans target_eq)
    · intro other key hother hkey
      obtain rfl := hsame hother
      rwa [hkey] at target_eq

/-- A text stands where the age of a dog is asked for, which is a number. -/
def age : NodePair where
  source := ⟨"a.ts", 4, 7, "age", "string", "Identifier", false, some ⟨"age", "Dog", none⟩, none⟩
  target := ⟨"a.ts", 0, 3, "dog", "Dog", "Identifier", false, none, none⟩
  functionName := none

/-- The age is mended at its name in the declaration, while the layer has the dog. -/
theorem last_layer_holds_iff_age :
    ∃ problem ws last, kennel.Poses age ws problem ∧ problem.stack.getLast? = some last ∧
      last.source = problem.source ∧ last.target ≠ problem.target ∧
      ws.index.get? ⟨"dog.ts", 31, 34, "PropertySignature", false⟩ = some problem.target := by
  obtain ⟨problem, ws, hposes, -⟩ := exists_poses_of_checkPosed kennel 2339 age
    (fun _ _ => true) (by decide +kernel)
  obtain ⟨last, hlast, hsource, htarget, hmended⟩ := last_layer_holds_iff hposes
  have hkey : kennel.snapshot.slotKey? ⟨"age", "Dog", none⟩ =
      some ⟨"dog.ts", 31, 34, "PropertySignature", false⟩ := by decide +kernel
  refine ⟨problem, ws, last, hposes, hlast, hsource, fun hsame => ?_, hmended _ _ rfl hkey⟩
  have hpair := htarget.1 hsame _ _ rfl hkey
  revert hpair
  decide

/-- A text stands where the bark of a dog is asked for, which dogs do not declare. -/
def bark : NodePair where
  source := ⟨"a.ts", 4, 8, "bark", "string", "Identifier", false, some ⟨"bark", "Dog", none⟩, none⟩
  target := ⟨"a.ts", 0, 3, "dog", "Dog", "Identifier", false, none, none⟩
  functionName := none

/-- The last layer can hold another target than its problem. -/
theorem last_layer_misses_target :
    ∃ problem ws last, kennel.Poses bark ws problem ∧ problem.stack.getLast? = some last ∧
      last.target ≠ problem.target := by
  obtain ⟨problem, ws, hposes, hcheck⟩ := exists_poses_of_checkPosed kennel 2339 bark
    (fun problem _ => problem.stack.getLast?.any fun last => last.target != problem.target)
    (by decide +kernel)
  obtain ⟨last, hlast, hother⟩ := (Option.any_eq_true _ _).1 hcheck
  exact ⟨problem, ws, last, hposes, hlast, by simpa using hother⟩

/-! ## The whole stack -/

theorem isNarrowed_iff :
    problem.isNarrowed = true ↔ LayerKind.property ∈ problem.stack.map Layer.kind := by
  simp [Problem.isNarrowed]

theorem Opened.isNarrowed_eq (h : engine.Opened pair ws opened)
    (hstack : found.stack = opened.stack) : found.isNarrowed = false := by
  rw [Bool.eq_false_iff, ne_eq, isNarrowed_iff, hstack, h.kinds_eq]
  simp [List.mem_replicate]

/-- The layer some places from the outermost shows the pair that far from the end of the walk. -/
theorem Opened.getElem?_stack (h : engine.Opened pair ws opened) {i : Nat}
    (hi : i ≤ (engine.surroundings pair).length) :
    ∃ layer outer, opened.stack[i]? = some layer ∧
      engine.snapshot.outward? pair ((engine.surroundings pair).length - i) = some outer ∧
      ws.ShowsPair outer layer := by
  have hlength : (pair :: engine.surroundings pair).reverse.length =
      (engine.surroundings pair).length + 1 := by simp
  have hlt : i < (pair :: engine.surroundings pair).reverse.length := by omega
  have hlt' : i < opened.stack.length := by
    rw [← h.shows.length_eq]
    exact hlt
  refine ⟨opened.stack[i], (pair :: engine.surroundings pair).reverse[i],
    List.getElem?_eq_getElem hlt', ?_, h.shows.get hlt hlt'⟩
  have hdepth := (Snapshot.le_length_enclosingChain_iff.1
    (Nat.sub_le (engine.surroundings pair).length i)).1
  have hget := engine.snapshot.getElem?_cons_enclosingChain engine.options.maxLayerDepth pair
    ((engine.surroundings pair).length - i)
  rw [if_pos hdepth] at hget
  rw [← hget, ← List.getElem?_eq_getElem hlt, List.getElem?_reverse (by simpa using hlt)]
  simp [surroundings]

/-- The stack of a problem shows what lies around its pair. The walk outward goes as far as there are
pairs and the bound allows, with one turn for each, and then stops. The stack has the pairs it found,
outermost first, then the pair of the diagnostic, then at most one property; the function is the
first that is named on the way. A property is there exactly if the shapes of two objects disagree in
one property alone, and of the problems between objects just those are mismatches. A slot never has
one. -/
theorem stack_shows_surroundings (h : engine.Poses pair ws problem) :
    ∃ m, (∀ n, n ≤ m ↔ n ≤ engine.options.maxLayerDepth ∧
        (engine.snapshot.outward? pair n).isSome = true) ∧
      (∃ walk, iterate? (engine.snapshot.walkOut? engine.options.maxLayerDepth) ([], pair) m =
          some walk ∧
        engine.snapshot.walkOut? engine.options.maxLayerDepth walk = none ∧
        walk.1 = engine.surroundings pair) ∧
      problem.stack.map Layer.kind = List.replicate m .typeArgument ++ [.diagnostic] ++
        (if problem.isNarrowed then [.property] else []) ∧
      (∀ i ≤ m, ∃ layer outer, problem.stack[i]? = some layer ∧
        engine.snapshot.outward? pair (m - i) = some outer ∧ ws.ShowsPair outer layer) ∧
      problem.functionName = ((List.range (m + 1)).findSome? fun n =>
        (engine.snapshot.outward? pair n).bind NodePair.functionName) ∧
      (pair.source.placeholder = none →
        (problem.isNarrowed = true ↔ engine.ClashesOnce pair) ∧
        (engine.BetweenObjects pair → (problem.kind = .mismatch ↔ problem.isNarrowed = true))) ∧
      (pair.source.isPlaceholder = true → problem.isNarrowed = false) := by
  obtain ⟨opened, hopened, hends⟩ := h.ends
  obtain ⟨current, hwalk, hstops⟩ := Snapshot.walkOut?_stops engine.snapshot
    engine.options.maxLayerDepth pair
  have hname : opened.functionName = _ :=
    hopened.functionName_eq.trans (Snapshot.findSome?_enclosingChain _)
  refine ⟨(engine.surroundings pair).length, fun n => Snapshot.le_length_enclosingChain_iff,
    ⟨_, hwalk, hstops, rfl⟩, ?_⟩
  cases hends with
  | whole plain apart kind_ne _ _ stack_eq functionName_eq =>
    have hwhole := hopened.isNarrowed_eq stack_eq
    refine ⟨by simp [hwhole, stack_eq, hopened.kinds_eq], fun i hi => ?_,
      functionName_eq.trans hname, fun _ => ⟨?_, fun hboth => ?_⟩, fun _ => hwhole⟩
    · rw [stack_eq]
      exact hopened.getElem?_stack hi
    · simp [hwhole, apart]
    · simp [hwhole, kind_ne hboth]
  | property plain clash kind_eq stack_eq functionName_eq =>
    have hnarrowed : problem.isNarrowed = true := by
      rw [isNarrowed_iff, stack_eq]
      simp
    refine ⟨by simp [hnarrowed, stack_eq, hopened.kinds_eq], fun i hi => ?_,
      functionName_eq.trans hname, fun _ => ⟨?_, fun _ => ?_⟩, fun hslot => ?_⟩
    · obtain ⟨layer, outer, hlayer, hshown⟩ := hopened.getElem?_stack hi
      refine ⟨layer, outer, ?_, hshown⟩
      rw [stack_eq, List.getElem?_append_left (List.getElem?_eq_some_iff.1 hlayer).1, hlayer]
    · simp [hnarrowed, clash]
    · simp [hnarrowed, kind_eq]
    · simp [SourceNode.isPlaceholder, plain] at hslot
  | slot placeholder _ _ stack_eq functionName_eq =>
    have hwhole := hopened.isNarrowed_eq stack_eq
    refine ⟨by simp [hwhole, stack_eq, hopened.kinds_eq], fun i hi => ?_,
      functionName_eq.trans hname, fun hplain => ?_, fun _ => hwhole⟩
    · rw [stack_eq]
      exact hopened.getElem?_stack hi
    · rw [hplain] at placeholder
      cases placeholder

/-- A puppy stands in a list of puppies where one of dogs is expected. -/
def litter : NodePair where
  source := ⟨"a.ts", 5, 12, "[puppy]", "Puppy[]", "ArrayLiteral", false, none, none⟩
  target := ⟨"a.ts", 0, 3, "dog", "Dog[]", "Parameter", false, none, none⟩
  functionName := some "adopt"

/-- Around the puppy is the list, and around the list the puppy again. -/
def circle : Engine where
  snapshot :=
    { diagnostics := []
      locations := []
      shapes := .ofList [("Puppy", .ofList [("name", ⟨"number", false⟩)]),
        ("Dog", .ofList [("name", ⟨"string", false⟩)])]
      declarations := []
      layers := [⟨"a.ts", 6, litter⟩, ⟨"a.ts", 5, puppy⟩] }
  store := .ofTable (.ofList [("a.ts", "dog([puppy]);")])
  options := { Options.default with maxLayerDepth := 3 }

/-- The bound ends a walk in a circle, and the pair is narrowed to the name. -/
theorem stack_shows_surroundings_circle :
    ∃ problem ws, circle.Poses puppy ws problem ∧
      problem.stack.map Layer.kind =
        [.typeArgument, .typeArgument, .typeArgument, .diagnostic, .property] ∧
      (∃ layer, problem.stack[0]? = some layer ∧ ws.ShowsPair litter layer) ∧
      problem.functionName = some "adopt" ∧ problem.kind = .mismatch := by
  obtain ⟨problem, ws, hposes, -⟩ := exists_poses_of_checkPosed circle 2322 puppy
    (fun _ _ => true) (by decide +kernel)
  obtain ⟨m, hm, -, hkinds, hlayers, hname, hplain, -⟩ := stack_shows_surroundings hposes
  have hthree : 3 ≤ m := (hm 3).2 (by decide +kernel)
  have hbound : m ≤ 3 := ((hm m).1 le_rfl).1
  obtain rfl : m = 3 := Nat.le_antisymm hbound hthree
  have hclash : circle.ClashesOnce puppy :=
    ⟨.ofList [("name", ⟨"number", false⟩)], .ofList [("name", ⟨"string", false⟩)], "name",
      by decide +kernel, by decide +kernel, by decide +kernel⟩
  obtain ⟨hnarrowed, hkind⟩ := hplain rfl
  have hproperty := hnarrowed.2 hclash
  obtain ⟨layer, outer, hlayer, houter, hshows⟩ := hlayers 0 (Nat.zero_le _)
  have hlitter : circle.snapshot.outward? puppy 3 = some litter := by decide +kernel
  obtain rfl : litter = outer := Option.some.inj (hlitter.symm.trans houter)
  refine ⟨problem, ws, hposes, ?_, ⟨layer, hlayer, hshows⟩, ?_, ?_⟩
  · rw [hkinds, hproperty]
    rfl
  · rw [hname]
    decide +kernel
  · exact (hkind ⟨by decide +kernel, by decide +kernel⟩).2 hproperty

end Engine

end TypeMend
