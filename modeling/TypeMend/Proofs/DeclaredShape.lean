import TypeMend.Proofs.Inheritance

/-!
# The shape of a declaration

A declaration has the properties that it writes and those of what it extends. The shape is put
together in the order in which a depth-first walk first comes to a declaration, and of several
declarations that write a key the first in this order counts. `DepthFirstOrder` gives the order by
rules and without a bound on the depth: it exists and is the only one, also where types extend each
other in cycles and diamonds, so collecting a shape ends and leaving out what was seen before loses
no key.
-/
namespace TypeMend

/-! ## Depth-first order -/

/-- The order in which a depth-first walk through the elements of a list comes to what it has not
visited: an element comes before all that is met below it, and that before the next element of the
list. -/
inductive DepthFirstOrder {α : Type} (next : α → List α) : List α → List α → List α → Prop
  | done (visited : List α) : DepthFirstOrder next visited [] []
  | skip {x : α} {visited todo order : List α} (seen : x ∈ visited)
      (rest : DepthFirstOrder next visited todo order) :
      DepthFirstOrder next visited (x :: todo) order
  | visit {x : α} {visited todo below order : List α} (fresh : x ∉ visited)
      (inner : DepthFirstOrder next (visited ++ [x]) (next x) below)
      (rest : DepthFirstOrder next (visited ++ x :: below) todo order) :
      DepthFirstOrder next visited (x :: todo) (x :: below ++ order)

namespace DepthFirstOrder

variable {α : Type} {next : α → List α} {visited todo order order' : List α}

/-- The rules leave no choice. -/
theorem unique (h : DepthFirstOrder next visited todo order)
    (h' : DepthFirstOrder next visited todo order') : order = order' := by
  induction h generalizing order' with
  | done visited =>
    cases h'
    rfl
  | skip seen _ ih =>
    cases h' with
    | skip _ rest' => exact ih rest'
    | visit fresh' _ _ => exact absurd seen fresh'
  | visit fresh _ _ ihinner ihrest =>
    cases h' with
    | skip seen' _ => exact absurd seen' fresh
    | visit _ inner' rest' =>
      cases ihinner inner'
      rw [ihrest rest']

/-- Nothing is met that was visited before. -/
theorem fresh (h : DepthFirstOrder next visited todo order) : ∀ x ∈ order, x ∉ visited := by
  induction h with
  | done visited => simp
  | skip _ _ ih => exact ih
  | visit fresh _ _ ihinner ihrest =>
    intro y hy hvisited
    rcases List.mem_append.1 hy with hy | hy
    · rcases List.mem_cons.1 hy with rfl | hy
      · exact fresh hvisited
      · exact ihinner y hy (List.mem_append_left _ hvisited)
    · exact ihrest y hy (List.mem_append_left _ hvisited)

/-- Nothing is met twice. -/
theorem nodup (h : DepthFirstOrder next visited todo order) : order.Nodup := by
  induction h with
  | done visited => exact List.nodup_nil
  | skip _ _ ih => exact ih
  | @visit x visited todo below order fresh inner rest ihinner ihrest =>
    have hx : x ∉ below := fun hmem => inner.fresh x hmem (by simp)
    refine (List.nodup_cons.2 ⟨hx, ihinner⟩).append ihrest fun y hy hlater => ?_
    exact rest.fresh y hlater (List.mem_append_right _ hy)

end DepthFirstOrder

namespace Snapshot

variable {snapshot : Snapshot} {declaration : Declaration}

/-- A walk whose bound is not reached visits what the rules say. -/
theorem visit_order (depth : Nat) {visited : List Declaration}
    (hnamed : snapshot.Named declaration) (hfresh : declaration ∉ visited)
    (hdepth : (snapshot.unvisited visited).length ≤ depth) :
    ∃ below, snapshot.visit depth visited declaration = visited ++ declaration :: below ∧
      DepthFirstOrder snapshot.basesOf (visited ++ [declaration])
        (snapshot.basesOf declaration) below := by
  induction depth generalizing visited declaration with
  | zero =>
    have hlt := length_unvisited_snoc_lt hnamed hfresh
    omega
  | succ depth ih =>
    have hlt := length_unvisited_snoc_lt hnamed hfresh
    have hbases (bases : List Declaration) (hnamed : ∀ base ∈ bases, snapshot.Named base)
        {acc : List Declaration} (hacc : visited ++ [declaration] ⊆ acc) :
        ∃ below, bases.foldl (fun visited base =>
            if base ∈ visited then visited else snapshot.visit depth visited base) acc =
              acc ++ below ∧
          DepthFirstOrder snapshot.basesOf acc bases below := by
      induction bases generalizing acc with
      | nil => exact ⟨[], by simp, .done acc⟩
      | cons base rest ihrest =>
        obtain ⟨hbase, hrest⟩ := List.forall_mem_cons.1 hnamed
        rw [List.foldl_cons]
        split_ifs with hseen
        · obtain ⟨below, hfold, hpre⟩ := ihrest hrest hacc
          exact ⟨below, hfold, .skip hseen hpre⟩
        · have hle : (snapshot.unvisited acc).length ≤
              (snapshot.unvisited (visited ++ [declaration])).length :=
            (unvisited_sublist hacc).length_le
          obtain ⟨inner, hvisit, hinner⟩ := ih hbase hseen (by omega)
          obtain ⟨below, hfold, hpre⟩ := ihrest hrest
            (List.Subset.trans hacc (List.subset_append_left acc (base :: inner)))
          rw [hvisit]
          exact ⟨base :: inner ++ below, by rw [hfold, List.append_assoc],
            .visit hseen hinner hpre⟩
    obtain ⟨below, hfold, hpre⟩ := hbases (snapshot.basesOf declaration)
      (fun _ => named_of_mem_basesOf) (List.Subset.refl _)
    refine ⟨below, ?_, hpre⟩
    rw [visit, hfold, List.append_assoc, List.singleton_append]

/-- From a declaration, a walk of any sufficient depth follows the depth-first order. -/
theorem depthFirst_order (hnamed : snapshot.Named declaration) {depth : Nat}
    (hdepth : snapshot.declarations.length ≤ depth) :
    DepthFirstOrder snapshot.basesOf [] [declaration] (snapshot.visit depth [] declaration) := by
  have hlength : (snapshot.unvisited []).length ≤ depth :=
    (List.length_filter_le _ _).trans hdepth
  obtain ⟨below, hvisit, hpre⟩ := visit_order depth hnamed List.not_mem_nil hlength
  have horder : snapshot.visit depth [] declaration = declaration :: below ++ [] := by
    simpa using hvisit
  rw [horder]
  exact .visit List.not_mem_nil hpre (.done _)

/-! ## What the shape is made of -/

/-- A deeper bound on the recursion changes nothing: it is never reached. -/
theorem collectShape_of_le (hnamed : snapshot.Named declaration) {depth : Nat}
    (hdepth : snapshot.declarations.length ≤ depth) :
    snapshot.collectShape depth declaration [] =
      (Shape.merge ((snapshot.depthFirst declaration).map Declaration.ownShape),
        seenNames (snapshot.depthFirst declaration)) := by
  obtain ⟨new, hvisit, -, hcollect⟩ :=
    collectShape_spec depth hnamed (List.forall_mem_nil snapshot.Named)
  have horder : snapshot.visit depth [] declaration = snapshot.depthFirst declaration :=
    (depthFirst_order hnamed hdepth).unique (depthFirst_order hnamed le_rfl)
  rw [← horder, hvisit]
  exact hcollect

theorem get?_declaredShape_eq_findSome? (hnamed : snapshot.Named declaration) (key : String) :
    (snapshot.declaredShape declaration).get? key =
      (snapshot.depthFirst declaration).findSome? fun other =>
        (other.written? key).map MemberDeclaration.property := by
  simp only [declaredShape_eq hnamed, Shape.get?_merge, List.findSome?_map, Function.comp_def,
    Declaration.get?_ownShape]

theorem keys_declaredShape (hnamed : snapshot.Named declaration) :
    (snapshot.declaredShape declaration).keys =
      ((snapshot.depthFirst declaration).flatMap fun other =>
        other.members.map MemberDeclaration.name).eraseDups := by
  simp only [declaredShape_eq hnamed, Shape.keys_merge, List.flatMap_map,
    Declaration.keys_ownShape, List.eraseDups_flatMap_eraseDups]

theorem mem_keys_declaredShape_iff (hnamed : snapshot.Named declaration) {key : String} :
    key ∈ (snapshot.declaredShape declaration).keys ↔
      ∃ other, snapshot.Descends declaration other ∧ other.writes key = true := by
  rw [Table.mem_keys_iff, ← Option.isSome_iff_exists, isSome_get?_declaredShape hnamed,
    writerByBreadth?, List.find?_isSome]
  simp only [mem_breadthFirst_iff hnamed]

/-- Whatever extends what, collecting the shape of a declaration ends: the recursion goes no deeper
than there are declarations. The shape is what the declarations that it descends from write, put
together in depth-first order, each of them once. A key stands where it is first written in this
order, with the property that it has there. So the keys are those that some declaration writes that
can be reached, and what the declaration writes itself always counts. -/
theorem declaredShape_merges_in_order {typeText : String}
    (h : snapshot.declarationOf? typeText = some declaration) :
    ∃ order, DepthFirstOrder snapshot.basesOf [] [declaration] order ∧
      (∀ other, DepthFirstOrder snapshot.basesOf [] [declaration] other → other = order) ∧
      order.Nodup ∧ (∀ other, other ∈ order ↔ snapshot.Descends declaration other) ∧
      (∀ depth, snapshot.declarations.length ≤ depth →
        snapshot.collectShape depth declaration [] =
          snapshot.collectShape snapshot.declarations.length declaration []) ∧
      snapshot.declaredShape declaration = Shape.merge (order.map Declaration.ownShape) ∧
      (snapshot.declaredShape declaration).keys =
        (order.flatMap fun other => other.members.map MemberDeclaration.name).eraseDups ∧
      (∀ key, (snapshot.declaredShape declaration).get? key =
        order.findSome? fun other => (other.written? key).map MemberDeclaration.property) ∧
      (∀ key, key ∈ (snapshot.declaredShape declaration).keys ↔
        ∃ other, snapshot.Descends declaration other ∧ other.writes key = true) ∧
      ∀ key member, declaration.written? key = some member →
        (snapshot.declaredShape declaration).get? key = some member.property := by
  have hnamed := named_of_declarationOf? h
  have horder := depthFirst_order hnamed le_rfl
  refine ⟨snapshot.depthFirst declaration, horder, fun other hother => hother.unique horder,
    horder.nodup, fun other => mem_depthFirst_iff hnamed, fun depth hdepth => ?_,
    declaredShape_eq hnamed, keys_declaredShape hnamed, get?_declaredShape_eq_findSome? hnamed,
    fun key => mem_keys_declaredShape_iff hnamed, fun key member hmember => ?_⟩
  · rw [collectShape_of_le hnamed hdepth, collectShape_of_le hnamed le_rfl]
  · obtain ⟨rest, hwalk⟩ := snapshot.visit_isPrefix snapshot.declarations.length [] declaration
    rw [get?_declaredShape_eq_findSome? hnamed, depthFirst, ← hwalk]
    simp [hmember]

/-- A declaration in a cycle and at the top of a diamond. It writes one key itself that is also
written below it, and another is written on both ways. -/
def tangledTop : Declaration :=
  ⟨"A", "a.ts", 0, 45, [⟨"id", 31, 33, 35, 41, "number", false⟩], ["B", " C "]⟩

def tangled : Snapshot where
  diagnostics := []
  locations := []
  shapes := ∅
  declarations :=
    [⟨"D", "a.ts", 120, 160,
        [⟨"k", 130, 131, 133, 139, "string", true⟩, ⟨"id", 141, 143, 145, 151, "string", false⟩],
        ["Missing"]⟩,
      ⟨"C", "a.ts", 80, 119,
        [⟨"k", 95, 96, 98, 104, "number", false⟩, ⟨"m", 106, 107, 109, 116, "boolean", false⟩],
        ["D"]⟩,
      ⟨"B", "a.ts", 46, 79, [], ["A", "D"]⟩, tangledTop]
  layers := []

theorem declaredShape_merges_in_order_tangled :
    tangled.declarationOf? " A" = some tangledTop ∧
      ∃ order, DepthFirstOrder tangled.basesOf [] [tangledTop] order ∧
        order.map Declaration.name = ["A", "B", "D", "C"] ∧
        tangled.declaredShape tangledTop = Shape.merge (order.map Declaration.ownShape) ∧
        (tangled.declaredShape tangledTop).keys = ["id", "k", "m"] ∧
        (tangled.declaredShape tangledTop).get? "id" = some ⟨"number", false⟩ ∧
        (tangled.declaredShape tangledTop).get? "k" = some ⟨"string", true⟩ := by
  have hfound : tangled.declarationOf? " A" = some tangledTop := by decide +kernel
  obtain ⟨order, horder, hunique, -, -, -, hmerge, -, -, -, hown⟩ :=
    declaredShape_merges_in_order hfound
  have hwalk := hunique _ (depthFirst_order (named_of_declarationOf? hfound) le_rfl)
  refine ⟨hfound, order, horder, ?_, hmerge, by decide +kernel,
    hown "id" ⟨"id", 31, 33, 35, 41, "number", false⟩ (by decide +kernel), by decide +kernel⟩
  rw [← hwalk]
  decide +kernel

end Snapshot

end TypeMend
