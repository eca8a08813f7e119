import Mathlib.Data.List.TakeWhile
import Mathlib.Logic.Relation
import TypeMend.Proofs.Lookup
import TypeMend.Snapshot.Query

/-!
# Inheritance

The declarations of a snapshot with the extends relation form a graph that may have cycles and
diamonds. Two walks through it are used: the shape of a type collects properties depth first, and
a member is searched breadth first. `depthFirst` and `breadthFirst` are the orders in which the two
visit declarations. Both visit exactly the declarations that a type descends from, so they find the
same keys; which declaration comes first differs, and the first one that writes a key is the one
that counts.
-/
namespace TypeMend

namespace TypeText

open Text

theorem collapse_collapse (pending : Bool) (cs : List Char) :
    collapse false (collapse pending cs) = collapse pending cs := by
  have hspace : isBlank ' ' = true := by decide
  induction cs generalizing pending with
  | nil => simp [collapse]
  | cons c cs ih =>
    by_cases hc : isBlank c
    · simpa [collapse, hc] using ih true
    · cases pending <;> simp [collapse, hc, hspace, ih false]

theorem trimStart_collapse_trimStart (cs : List Char) :
    trimStart (collapse false (trimStart cs)) = collapse false (trimStart cs) := by
  induction cs with
  | nil => simp [collapse]
  | cons c cs ih =>
    by_cases hc : isBlank c
    · simpa [trimStart_cons, hc] using ih
    · simp [trimStart_cons, hc, collapse]

theorem normalize_normalize (text : String) : normalize (normalize text) = normalize text := by
  have hchars : normalizeChars (normalizeChars text.toList) = normalizeChars text.toList := by
    unfold normalizeChars
    rw [trimStart_collapse_trimStart, collapse_collapse]
  simp [normalize, hchars]

end TypeText

/-! ## What a declaration writes -/

/-- The member that counts among those of one name: the last. -/
def MemberDeclaration.last? (members : List MemberDeclaration) (key : String) :
    Option MemberDeclaration :=
  members.reverse.find? fun member => member.name == key

theorem MemberDeclaration.last?_snoc (members : List MemberDeclaration)
    (member : MemberDeclaration) (key : String) :
    last? (members ++ [member]) key =
      if member.name = key then some member else last? members key := by
  simp only [last?, List.reverse_append, List.reverse_singleton, List.singleton_append]
  split_ifs with h
  · exact List.find?_cons_of_pos (by simpa using h)
  · exact List.find?_cons_of_neg (by simpa using h)

namespace Declaration

def written? (declaration : Declaration) (key : String) : Option MemberDeclaration :=
  MemberDeclaration.last? declaration.members key

def writes (declaration : Declaration) (key : String) : Bool :=
  (declaration.written? key).isSome

theorem get?_ownShape (declaration : Declaration) (key : String) :
    declaration.ownShape.get? key = (declaration.written? key).map MemberDeclaration.property := by
  unfold ownShape written?
  induction declaration.members using List.reverseRecOn with
  | nil => rfl
  | append_singleton members member ih =>
    rw [MemberDeclaration.last?_snoc]
    simp only [Table.ofList, Table.insertAll, List.map_append, List.map_singleton,
      List.foldl_append, List.foldl_cons, List.foldl_nil, Table.get?_insert]
    by_cases h : key = member.name
    · simp [h]
    · have h' : ¬member.name = key := fun e => h e.symm
      simpa [h, h', Table.ofList, Table.insertAll] using ih

theorem keys_ownShape (declaration : Declaration) :
    declaration.ownShape.keys = (declaration.members.map MemberDeclaration.name).eraseDups := by
  rw [ownShape, Table.keys_ofList, List.map_map]
  rfl

end Declaration

theorem Shape.get?_inherit (shape base : Shape) (key : String) :
    (shape.inherit base).get? key = (shape.get? key).or (base.get? key) := by
  have hentries (entries : List (String × Property)) (shape : Shape) :
      (entries.foldl (fun shape entry => shape.insertNew entry.1 entry.2) shape).get? key =
        (shape.get? key).or (Table.find? key entries) := by
    induction entries generalizing shape with
    | nil => simp [Table.find?]
    | cons entry rest ih =>
      rw [List.foldl_cons, ih, Table.insertNew, Table.get?_alter, Table.find?]
      by_cases h : key = entry.1
      · cases hold : shape.get? entry.1 <;> simp [h, hold]
      · have h' : ¬entry.1 = key := fun e => h e.symm
        simp [h, h']
  exact hentries base.entries shape

namespace Shape

theorem keys_inherit (shape base : Shape) :
    (shape.inherit base).keys = (shape.keys ++ base.keys).eraseDups :=
  Table.keys_foldl_alter Prod.fst (fun entry old => old.getD entry.2) base.entries shape

/-- Shapes put together, each key as the first of them that has it. -/
def merge (shapes : List Shape) : Shape :=
  shapes.foldl inherit ∅

theorem merge_snoc (shapes : List Shape) (shape : Shape) :
    merge (shapes ++ [shape]) = (merge shapes).inherit shape := by
  simp [merge]

theorem keys_merge (shapes : List Shape) :
    (merge shapes).keys = (shapes.flatMap Table.keys).eraseDups := by
  induction shapes using List.reverseRecOn with
  | nil => rfl
  | append_singleton shapes shape ih =>
    rw [merge_snoc, keys_inherit, ih, ← List.eraseDups_append_eraseDups,
      (List.nodup_eraseDups _).eraseDups_eq, List.eraseDups_append_eraseDups]
    simp

theorem get?_merge (shapes : List Shape) (key : String) :
    (merge shapes).get? key = shapes.findSome? fun shape => shape.get? key := by
  induction shapes using List.reverseRecOn with
  | nil => rfl
  | append_singleton shapes shape ih =>
    rw [merge_snoc, get?_inherit, ih, List.findSome?_append]
    simp

theorem merge_singleton (shape : Shape) : merge [shape] = shape := by
  refine Table.eq_of_keys_of_get? ?_ fun key => ?_
  · simpa [keys_merge] using shape.nodup_keys.eraseDups_eq
  · simp [get?_merge]

theorem merge_append (shapes bases : List Shape) :
    merge (shapes ++ bases) = (merge shapes).inherit (merge bases) := by
  refine Table.eq_of_keys_of_get? ?_ fun key => ?_
  · rw [keys_inherit, keys_merge, keys_merge, keys_merge, List.eraseDups_append_eraseDups,
      List.flatMap_append]
  · rw [get?_inherit, get?_merge, get?_merge, get?_merge, List.findSome?_append]

end Shape

namespace Snapshot

variable {snapshot : Snapshot} {declaration : Declaration}

/-! ## The extends relation -/

/-- A declaration is the one that its name finds. Of several declarations with one name only the
first is. -/
def Named (snapshot : Snapshot) (declaration : Declaration) : Prop :=
  snapshot.declarationOf? declaration.name = some declaration

theorem name_of_declarationOf? {typeText : String}
    (h : snapshot.declarationOf? typeText = some declaration) :
    declaration.name = TypeText.normalize typeText := by
  simpa using List.find?_some h

theorem mem_of_declarationOf? {typeText : String}
    (h : snapshot.declarationOf? typeText = some declaration) :
    declaration ∈ snapshot.declarations :=
  List.mem_of_find?_eq_some h

theorem named_of_declarationOf? {typeText : String}
    (h : snapshot.declarationOf? typeText = some declaration) : snapshot.Named declaration := by
  unfold Named
  rw [name_of_declarationOf? h]
  simpa only [declarationOf?, TypeText.normalize_normalize] using h

theorem Named.eq_of_name {other : Declaration} (h : snapshot.Named declaration)
    (hother : snapshot.Named other) (hname : declaration.name = other.name) :
    declaration = other := by
  unfold Named at h hother
  rw [hname, hother] at h
  exact (Option.some.inj h).symm

/-- The declarations that a declaration extends, in written order, as far as they are known. -/
def basesOf (snapshot : Snapshot) (declaration : Declaration) : List Declaration :=
  declaration.bases.filterMap snapshot.declarationOf?

theorem named_of_mem_basesOf {base : Declaration} (h : base ∈ snapshot.basesOf declaration) :
    snapshot.Named base := by
  obtain ⟨_, _, hfound⟩ := List.mem_filterMap.1 h
  exact named_of_declarationOf? hfound

theorem mem_of_named (h : snapshot.Named declaration) : declaration ∈ snapshot.declarations :=
  mem_of_declarationOf? h

/-- The second declaration is the first or one that it inherits from. -/
abbrev Descends (snapshot : Snapshot) : Declaration → Declaration → Prop :=
  Relation.ReflTransGen fun declaration base => base ∈ snapshot.basesOf declaration

theorem mem_of_descends {other : Declaration} (h : snapshot.Descends declaration other)
    (hnamed : snapshot.Named declaration) : other ∈ snapshot.declarations := by
  cases h with
  | refl => exact mem_of_named hnamed
  | tail _ hbase => exact mem_of_named (named_of_mem_basesOf hbase)

def unvisited (snapshot : Snapshot) (visited : List Declaration) : List Declaration :=
  snapshot.declarations.filter fun declaration => declaration ∉ visited

theorem unvisited_sublist {visited visited' : List Declaration} (h : visited ⊆ visited') :
    List.Sublist (snapshot.unvisited visited') (snapshot.unvisited visited) := by
  refine List.monotone_filter_right _ fun other hother => ?_
  simp only [decide_eq_true_eq] at hother ⊢
  exact fun hmem => hother (h hmem)

theorem length_unvisited_lt {visited visited' : List Declaration} (h : visited ⊆ visited')
    (hmem : declaration ∈ snapshot.declarations) (hfresh : declaration ∉ visited)
    (hvisited : declaration ∈ visited') :
    (snapshot.unvisited visited').length < (snapshot.unvisited visited).length := by
  have hsub : List.Sublist (snapshot.unvisited visited') (snapshot.unvisited visited) :=
    unvisited_sublist h
  refine lt_of_le_of_ne hsub.length_le fun heq => ?_
  have hin : declaration ∈ snapshot.unvisited visited := by simp [unvisited, hmem, hfresh]
  rw [← hsub.eq_of_length heq] at hin
  simp [unvisited, hvisited] at hin

/-- A visit leaves fewer declarations to visit. -/
theorem length_unvisited_snoc_lt {visited : List Declaration} (hnamed : snapshot.Named declaration)
    (hfresh : declaration ∉ visited) :
    (snapshot.unvisited (visited ++ [declaration])).length <
      (snapshot.unvisited visited).length :=
  length_unvisited_lt (List.subset_append_left visited [declaration]) (mem_of_named hnamed) hfresh
    (by simp)

/-! ## Depth first -/

/-- Visits a declaration and then, one after the other, those of its bases that are not among the
visited ones, each with all below it. The visited declarations are listed in order. -/
def visit (snapshot : Snapshot) : Nat → List Declaration → Declaration → List Declaration
  | 0, visited, declaration => visited ++ [declaration]
  | depth + 1, visited, declaration =>
    (snapshot.basesOf declaration).foldl
      (fun visited base => if base ∈ visited then visited else snapshot.visit depth visited base)
      (visited ++ [declaration])

/-- The declarations that a declaration descends from, in the order of a depth-first walk. -/
def depthFirst (snapshot : Snapshot) (declaration : Declaration) : List Declaration :=
  snapshot.visit snapshot.declarations.length [] declaration

/-- What a walk from a declaration adds to the visited ones: it keeps those, and everything new is
something the declaration descends from, with all its bases visited. -/
structure Walked (snapshot : Snapshot) (declaration : Declaration)
    (visited result : List Declaration) : Prop where
  subset : visited ⊆ result
  descends : ∀ other ∈ result, other ∉ visited → snapshot.Descends declaration other
  closed : ∀ other ∈ result, other ∉ visited → ∀ base ∈ snapshot.basesOf other, base ∈ result

theorem Walked.refl (visited : List Declaration) :
    snapshot.Walked declaration visited visited :=
  ⟨List.Subset.refl _, fun _ h hnot => absurd h hnot, fun _ h hnot => absurd h hnot⟩

theorem Walked.trans {first second third : List Declaration}
    (h : snapshot.Walked declaration first second)
    (h' : snapshot.Walked declaration second third) :
    snapshot.Walked declaration first third where
  subset := List.Subset.trans h.subset h'.subset
  descends other hother hnot := by
    by_cases hsecond : other ∈ second
    · exact h.descends other hsecond hnot
    · exact h'.descends other hother hsecond
  closed other hother hnot base hbase := by
    by_cases hsecond : other ∈ second
    · exact h'.subset (h.closed other hsecond hnot base hbase)
    · exact h'.closed other hother hsecond base hbase

theorem visit_walked (depth : Nat) {visited : List Declaration}
    (hnamed : snapshot.Named declaration) (hfresh : declaration ∉ visited)
    (hdepth : (snapshot.unvisited visited).length ≤ depth) :
    snapshot.Walked declaration visited (snapshot.visit depth visited declaration) ∧
      declaration ∈ snapshot.visit depth visited declaration := by
  induction depth generalizing visited declaration with
  | zero =>
    have hlt := length_unvisited_snoc_lt hnamed hfresh
    omega
  | succ depth ih =>
    have hstart : (snapshot.unvisited (visited ++ [declaration])).length ≤ depth := by
      have hlt := length_unvisited_snoc_lt hnamed hfresh
      omega
    have hbases (bases : List Declaration) (hsub : bases ⊆ snapshot.basesOf declaration)
        {acc : List Declaration} (hacc : visited ++ [declaration] ⊆ acc) :
        let result := bases.foldl (fun visited base =>
          if base ∈ visited then visited else snapshot.visit depth visited base) acc
        snapshot.Walked declaration acc result ∧ ∀ base ∈ bases, base ∈ result := by
      induction bases generalizing acc with
      | nil => exact ⟨.refl acc, fun _ h => by simp at h⟩
      | cons base rest ihrest =>
        intro result
        have hbase := hsub List.mem_cons_self
        have hstep : snapshot.Walked declaration acc
            (if base ∈ acc then acc else snapshot.visit depth acc base) ∧
            base ∈ if base ∈ acc then acc else snapshot.visit depth acc base := by
          split_ifs with hin
          · exact ⟨.refl acc, hin⟩
          · obtain ⟨hwalked, hmem⟩ := ih (named_of_mem_basesOf hbase) hin
              ((unvisited_sublist hacc).length_le.trans hstart)
            exact ⟨{ hwalked with
              descends := fun other hother hnot =>
                .head hbase (hwalked.descends other hother hnot) }, hmem⟩
        obtain ⟨hrest, hall⟩ := ihrest (fun other h => hsub (List.mem_cons_of_mem _ h))
          (List.Subset.trans hacc hstep.1.subset)
        refine ⟨hstep.1.trans hrest, fun other hother => ?_⟩
        rcases List.mem_cons.1 hother with rfl | hother
        · exact hrest.subset hstep.2
        · exact hall other hother
    obtain ⟨hwalked, hall⟩ := hbases _ (List.Subset.refl _) (List.Subset.refl _)
    have hself : declaration ∈ snapshot.visit (depth + 1) visited declaration :=
      hwalked.subset (by simp)
    refine ⟨⟨fun other h => hwalked.subset (by simp [h]), fun other hother hnot => ?_,
      fun other hother hnot base hbase => ?_⟩, hself⟩
    · by_cases heq : other = declaration
      · exact heq ▸ .refl
      · exact hwalked.descends other hother (by simp [hnot, heq])
    · by_cases heq : other = declaration
      · exact hall base (heq ▸ hbase)
      · exact hwalked.closed other hother (by simp [hnot, heq]) base hbase

/-- A depth-first walk meets exactly what a declaration descends from. -/
theorem mem_depthFirst_iff (hnamed : snapshot.Named declaration) {other : Declaration} :
    other ∈ snapshot.depthFirst declaration ↔ snapshot.Descends declaration other := by
  obtain ⟨hwalked, hself⟩ := visit_walked snapshot.declarations.length hnamed
    (List.not_mem_nil) (List.length_filter_le _ _)
  refine ⟨fun h => hwalked.descends other h (by simp), fun h => ?_⟩
  induction h with
  | refl => exact hself
  | tail _ hbase ih => exact hwalked.closed _ ih (by simp) _ hbase

/-! ## Breadth first -/

/-- Visits the declarations of a queue, putting the bases of each at its end. -/
def visitQueue (snapshot : Snapshot) : Nat → List Declaration → List Declaration → List Declaration
  | 0, _, _ => []
  | visits + 1, seen, queue =>
    match queue.dropWhile fun declaration => declaration ∈ seen with
    | [] => []
    | declaration :: queue =>
      declaration ::
        snapshot.visitQueue visits (declaration :: seen) (queue ++ snapshot.basesOf declaration)

/-- The declarations that a declaration descends from, in the order of a breadth-first walk. -/
def breadthFirst (snapshot : Snapshot) (declaration : Declaration) : List Declaration :=
  snapshot.visitQueue (snapshot.declarations.length + 1) [] [declaration]

/-- The next declaration of a queue: those before it have been seen. -/
theorem dropWhile_seen {seen queue rest : List Declaration} {next : Declaration}
    (h : (queue.dropWhile fun declaration => declaration ∈ seen) = next :: rest) :
    next ∉ seen ∧ next ∈ queue ∧ rest ⊆ queue ∧
      ∀ other ∈ queue, other ∈ seen ∨ other = next ∨ other ∈ rest := by
  have hsub : next :: rest ⊆ queue := h ▸ List.dropWhile_subset _
  refine ⟨?_, hsub List.mem_cons_self, fun other hother => hsub (List.mem_cons_of_mem _ hother),
    fun other hother => ?_⟩
  · have hhead := List.head_dropWhile_not (fun declaration => decide (declaration ∈ seen))
      (l := queue) (by simp [h])
    simpa [h] using hhead
  · rw [← List.takeWhile_append_dropWhile (l := queue)
      (p := fun declaration => decide (declaration ∈ seen)), h] at hother
    rcases List.mem_append.1 hother with htaken | hleft
    · exact .inl (by simpa using List.mem_takeWhile_imp htaken)
    · exact .inr (by simpa using hleft)

/-- Enough visits are as good as more: a walk ends when everything has been seen. -/
theorem visitQueue_eq {visits visits' : Nat} {seen queue : List Declaration}
    (hqueue : ∀ other ∈ queue, snapshot.Named other)
    (h : (snapshot.unvisited seen).length < visits)
    (h' : (snapshot.unvisited seen).length < visits') :
    snapshot.visitQueue visits seen queue = snapshot.visitQueue visits' seen queue := by
  induction visits generalizing visits' seen queue with
  | zero => omega
  | succ visits ih =>
    obtain ⟨visits', rfl⟩ : ∃ n, visits' = n + 1 := ⟨visits' - 1, by omega⟩
    unfold visitQueue
    cases hnext : queue.dropWhile fun declaration => declaration ∈ seen with
    | nil => rfl
    | cons next rest =>
      obtain ⟨hfresh, hmem, hrest, -⟩ := dropWhile_seen hnext
      have hlt := length_unvisited_lt (List.subset_cons_self next seen)
        (mem_of_named (hqueue next hmem)) hfresh (by simp)
      have hnamed : ∀ other ∈ rest ++ snapshot.basesOf next, snapshot.Named other := by
        intro other hother
        rcases List.mem_append.1 hother with hother | hother
        · exact hqueue other (hrest hother)
        · exact named_of_mem_basesOf hother
      exact congrArg (next :: ·) (ih hnamed (by omega) (by omega))

/-- A walk from a queue reaches everything in it and is closed under bases, up to what was seen
before, and goes nowhere else. -/
theorem visitQueue_spec {visits : Nat} {seen queue : List Declaration}
    (hqueue : ∀ other ∈ queue, snapshot.Named other)
    (hvisits : (snapshot.unvisited seen).length < visits) :
    (∀ other ∈ queue, other ∈ seen ∨ other ∈ snapshot.visitQueue visits seen queue) ∧
      (∀ other ∈ snapshot.visitQueue visits seen queue, ∀ base ∈ snapshot.basesOf other,
        base ∈ seen ∨ base ∈ snapshot.visitQueue visits seen queue) ∧
      ∀ other ∈ snapshot.visitQueue visits seen queue,
        ∃ start ∈ queue, snapshot.Descends start other := by
  induction visits generalizing seen queue with
  | zero => omega
  | succ visits ih =>
    unfold visitQueue
    cases hnext : queue.dropWhile fun declaration => declaration ∈ seen with
    | nil =>
      have hseen := List.dropWhile_eq_nil_iff.1 hnext
      exact ⟨fun other h => .inl (by simpa using hseen other h), by simp, by simp⟩
    | cons next rest =>
      obtain ⟨hfresh, hmem, hrest, hsplit⟩ := dropWhile_seen hnext
      have hlt := length_unvisited_lt (List.subset_cons_self next seen)
        (mem_of_named (hqueue next hmem)) hfresh (by simp)
      have hnamed : ∀ other ∈ rest ++ snapshot.basesOf next, snapshot.Named other := by
        intro other hother
        rcases List.mem_append.1 hother with hother | hother
        · exact hqueue other (hrest hother)
        · exact named_of_mem_basesOf hother
      have hvisits' : (snapshot.unvisited (next :: seen)).length < visits := by omega
      obtain ⟨hreached, hclosed, hfrom⟩ := ih hnamed hvisits'
      dsimp only
      refine ⟨fun other hother => ?_, fun other hother base hbase => ?_, fun other hother => ?_⟩
      · rcases hsplit other hother with hseen | rfl | hlater
        · exact .inl hseen
        · exact .inr List.mem_cons_self
        · have := hreached other (List.mem_append_left _ hlater)
          simp only [List.mem_cons] at this ⊢
          tauto
      · have hfound : base ∈ next :: seen ∨
            base ∈ snapshot.visitQueue visits (next :: seen) (rest ++ snapshot.basesOf next) := by
          rcases List.mem_cons.1 hother with rfl | hlater
          · exact hreached base (List.mem_append_right _ hbase)
          · exact hclosed other hlater base hbase
        simp only [List.mem_cons] at hfound ⊢
        tauto
      · rcases List.mem_cons.1 hother with rfl | hlater
        · exact ⟨_, hmem, .refl⟩
        · obtain ⟨start, hstart, hdescends⟩ := hfrom other hlater
          rcases List.mem_append.1 hstart with hstart | hstart
          · exact ⟨start, hrest hstart, hdescends⟩
          · exact ⟨next, hmem, .head hstart hdescends⟩

/-- A breadth-first walk meets exactly what a declaration descends from. -/
theorem mem_breadthFirst_iff (hnamed : snapshot.Named declaration) {other : Declaration} :
    other ∈ snapshot.breadthFirst declaration ↔ snapshot.Descends declaration other := by
  have hlength : (snapshot.unvisited []).length < snapshot.declarations.length + 1 :=
    Nat.lt_succ_of_le (List.length_filter_le _ _)
  have hqueue : ∀ other ∈ [declaration], snapshot.Named other := by simpa using hnamed
  obtain ⟨hreached, hclosed, hfrom⟩ := visitQueue_spec hqueue hlength
  refine ⟨fun h => ?_, fun h => ?_⟩
  · obtain ⟨start, hstart, hdescends⟩ := hfrom other h
    rwa [List.mem_singleton.1 hstart] at hdescends
  · induction h with
    | refl => simpa [breadthFirst] using hreached declaration (by simp)
    | tail _ hbase ih => simpa [breadthFirst] using hclosed _ ih _ hbase

/-! ## The shape of a declaration -/

/-- The names of the visited declarations, the last visited first. -/
def seenNames (visited : List Declaration) : List String :=
  (visited.map Declaration.name).reverse

theorem seenNames_snoc (visited : List Declaration) (declaration : Declaration) :
    seenNames (visited ++ [declaration]) = declaration.name :: seenNames visited := by
  simp [seenNames]

theorem normalize_mem_seenNames_iff {visited : List Declaration} {base : String}
    (hvisited : ∀ other ∈ visited, snapshot.Named other)
    (hfound : snapshot.declarationOf? base = some declaration) :
    TypeText.normalize base ∈ seenNames visited ↔ declaration ∈ visited := by
  rw [← name_of_declarationOf? hfound, seenNames, List.mem_reverse, List.mem_map]
  refine ⟨fun ⟨other, hother, hname⟩ => ?_, fun h => ⟨declaration, h, rfl⟩⟩
  rwa [← (hvisited other hother).eq_of_name (named_of_declarationOf? hfound) hname]

/-- Adds what one base contributes to a shape, unless the base has been visited. -/
def addBase (snapshot : Snapshot) (depth : Nat) (collected : Shape × List String) (base : String) :
    Shape × List String :=
  if TypeText.normalize base ∈ collected.2 then collected
  else
    match snapshot.declarationOf? base with
    | none => collected
    | some found =>
      let below := snapshot.collectShape depth found collected.2
      (collected.1.inherit below.1, below.2)

theorem collectShape_succ (depth : Nat) (declaration : Declaration) (seen : List String) :
    snapshot.collectShape (depth + 1) declaration seen =
      declaration.bases.foldl (snapshot.addBase depth)
        (declaration.ownShape, declaration.name :: seen) := rfl

/-- Collecting the shape of a declaration visits declarations as a depth-first walk does and merges
what they write in the order of the walk. -/
theorem collectShape_spec (depth : Nat) {visited : List Declaration}
    (hnamed : snapshot.Named declaration) (hvisited : ∀ other ∈ visited, snapshot.Named other) :
    ∃ new, snapshot.visit depth visited declaration = visited ++ new ∧
      (∀ other ∈ new, snapshot.Named other) ∧
      snapshot.collectShape depth declaration (seenNames visited) =
        (Shape.merge (new.map Declaration.ownShape), seenNames (visited ++ new)) := by
  induction depth generalizing visited declaration with
  | zero =>
    exact ⟨[declaration], rfl, by simpa using hnamed,
      by simp [collectShape, seenNames_snoc, Shape.merge_singleton]⟩
  | succ depth ih =>
    have hbases (bases : List String) (added : List Declaration)
        (hadded : ∀ other ∈ added, snapshot.Named other) :
        ∃ new, (bases.filterMap snapshot.declarationOf?).foldl
            (fun visited base =>
              if base ∈ visited then visited else snapshot.visit depth visited base)
            (visited ++ added) = visited ++ new ∧
          (∀ other ∈ new, snapshot.Named other) ∧
          bases.foldl (snapshot.addBase depth)
              (Shape.merge (added.map Declaration.ownShape), seenNames (visited ++ added)) =
            (Shape.merge (new.map Declaration.ownShape), seenNames (visited ++ new)) := by
      induction bases generalizing added with
      | nil => exact ⟨added, rfl, hadded, rfl⟩
      | cons base rest ihrest =>
        have hall : ∀ other ∈ visited ++ added, snapshot.Named other := fun other h =>
          (List.mem_append.1 h).elim (hvisited other) (hadded other)
        cases hfound : snapshot.declarationOf? base with
        | none =>
          simp only [List.filterMap_cons, hfound, List.foldl_cons, addBase, ite_self]
          exact ihrest added hadded
        | some found =>
          simp only [List.filterMap_cons, hfound, List.foldl_cons, addBase,
            normalize_mem_seenNames_iff hall hfound]
          split_ifs with hseen
          · exact ihrest added hadded
          · obtain ⟨new, hvisit, hnew, hcollect⟩ := ih (named_of_declarationOf? hfound) hall
            rw [hvisit, hcollect, ← Shape.merge_append, ← List.map_append, List.append_assoc]
            exact ihrest (added ++ new) fun other h =>
              (List.mem_append.1 h).elim (hadded other) (hnew other)
    rw [collectShape_succ, ← seenNames_snoc, ← Shape.merge_singleton declaration.ownShape]
    exact hbases declaration.bases [declaration] (by simpa using hnamed)

/-- The shape of a declaration is made of what the declarations of a depth-first walk write. -/
theorem declaredShape_eq (hnamed : snapshot.Named declaration) :
    snapshot.declaredShape declaration =
      Shape.merge ((snapshot.depthFirst declaration).map Declaration.ownShape) := by
  obtain ⟨new, hvisit, -, hcollect⟩ :=
    collectShape_spec snapshot.declarations.length hnamed (List.forall_mem_nil _)
  have hwalk : snapshot.depthFirst declaration = new := hvisit
  rw [hwalk]
  exact congrArg Prod.fst hcollect

/-! ## Which declaration counts -/

/-- The first declaration of a depth-first walk that writes a key. -/
def writerByDepth? (snapshot : Snapshot) (declaration : Declaration) (key : String) :
    Option Declaration :=
  (snapshot.depthFirst declaration).find? fun other => other.writes key

/-- The first declaration of a breadth-first walk that writes a key. -/
def writerByBreadth? (snapshot : Snapshot) (declaration : Declaration) (key : String) :
    Option Declaration :=
  (snapshot.breadthFirst declaration).find? fun other => other.writes key

/-- The shape of a declaration has a key as the first declaration of a depth-first walk writes
it. -/
theorem get?_declaredShape (hnamed : snapshot.Named declaration) (key : String) :
    (snapshot.declaredShape declaration).get? key =
      (snapshot.writerByDepth? declaration key).bind fun writer =>
        (writer.written? key).map MemberDeclaration.property := by
  rw [declaredShape_eq hnamed, Shape.get?_merge, writerByDepth?]
  induction snapshot.depthFirst declaration with
  | nil => rfl
  | cons other rest ih =>
    rw [List.map_cons, List.findSome?_cons, List.find?_cons, Declaration.get?_ownShape,
      Declaration.writes]
    cases hwritten : other.written? key with
    | none => exact ih
    | some written => simp [hwritten]

theorem mem_of_writerByDepth? {key : String} {writer : Declaration}
    (hnamed : snapshot.Named declaration)
    (h : snapshot.writerByDepth? declaration key = some writer) :
    snapshot.Descends declaration writer ∧ writer.writes key = true := by
  have hwrites := List.find?_some h
  exact ⟨(mem_depthFirst_iff hnamed).1 (List.mem_of_find?_eq_some h), hwrites⟩

theorem mem_of_writerByBreadth? {key : String} {writer : Declaration}
    (hnamed : snapshot.Named declaration)
    (h : snapshot.writerByBreadth? declaration key = some writer) :
    snapshot.Descends declaration writer ∧ writer.writes key = true := by
  have hwrites := List.find?_some h
  exact ⟨(mem_breadthFirst_iff hnamed).1 (List.mem_of_find?_eq_some h), hwrites⟩

/-- Both walks meet a writer of a key, or neither does. -/
theorem isSome_writerByDepth?_eq (hnamed : snapshot.Named declaration) (key : String) :
    (snapshot.writerByDepth? declaration key).isSome =
      (snapshot.writerByBreadth? declaration key).isSome := by
  rw [Bool.eq_iff_iff, writerByDepth?, writerByBreadth?, List.find?_isSome, List.find?_isSome]
  simp only [mem_depthFirst_iff hnamed, mem_breadthFirst_iff hnamed]

/-- The shape of a declaration has a key exactly if a breadth-first walk meets a writer of it. -/
theorem isSome_get?_declaredShape (hnamed : snapshot.Named declaration) (key : String) :
    ((snapshot.declaredShape declaration).get? key).isSome =
      (snapshot.writerByBreadth? declaration key).isSome := by
  rw [get?_declaredShape hnamed, ← isSome_writerByDepth?_eq hnamed]
  cases hwriter : snapshot.writerByDepth? declaration key with
  | none => rfl
  | some writer => simpa [Declaration.writes] using (mem_of_writerByDepth? hnamed hwriter).2

/-- The two walks need not choose: the declaration writes the key itself, or at most one of those
it descends from does. -/
def Settled (snapshot : Snapshot) (declaration : Declaration) (key : String) : Prop :=
  declaration.writes key = true ∨
    ∀ one other, snapshot.Descends declaration one → snapshot.Descends declaration other →
      one.writes key = true → other.writes key = true → one = other

theorem visit_isPrefix (depth : Nat) (visited : List Declaration) (declaration : Declaration) :
    visited ++ [declaration] <+: snapshot.visit depth visited declaration := by
  induction depth generalizing visited declaration with
  | zero => exact List.prefix_rfl
  | succ depth ih =>
    unfold visit
    generalize visited ++ [declaration] = acc
    induction snapshot.basesOf declaration generalizing acc with
    | nil => exact List.prefix_rfl
    | cons base rest ihrest =>
      rw [List.foldl_cons]
      refine List.IsPrefix.trans ?_ (ihrest _)
      split_ifs
      · exact List.prefix_rfl
      · exact (List.prefix_append acc [base]).trans (ih acc base)

/-- Where there is no choice, both walks meet the same writer first. -/
theorem Settled.writer_eq {key : String} (h : snapshot.Settled declaration key)
    (hnamed : snapshot.Named declaration) :
    snapshot.writerByDepth? declaration key = snapshot.writerByBreadth? declaration key := by
  rcases h with hown | hsole
  · obtain ⟨rest, hdepth⟩ := snapshot.visit_isPrefix snapshot.declarations.length [] declaration
    have hbreadth : snapshot.breadthFirst declaration =
        declaration :: snapshot.visitQueue snapshot.declarations.length [declaration]
          (snapshot.basesOf declaration) := by
      simp [breadthFirst, visitQueue]
    rw [writerByDepth?, writerByBreadth?, depthFirst, ← hdepth, hbreadth]
    simp [hown]
  · have hsame := isSome_writerByDepth?_eq hnamed key
    cases hdepth : snapshot.writerByDepth? declaration key with
    | none =>
      rw [hdepth] at hsame
      exact (Option.isNone_iff_eq_none.1 (by simpa using hsame)).symm
    | some one =>
      rw [hdepth] at hsame
      obtain ⟨other, hbreadth⟩ := Option.isSome_iff_exists.1 hsame.symm
      obtain ⟨hone, hwrites⟩ := mem_of_writerByDepth? hnamed hdepth
      obtain ⟨hother, hwrites'⟩ := mem_of_writerByBreadth? hnamed hbreadth
      rw [hbreadth, hsole one other hone hother hwrites hwrites']

end Snapshot

end TypeMend
