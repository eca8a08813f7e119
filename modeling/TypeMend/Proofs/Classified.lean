import TypeMend.Proofs.Agreement
import TypeMend.Proofs.Lookup

/-!
# What classification leaves behind

Classifying a diagnostic takes steps of a session only. The problem it finds names nodes and
declarations that the workspace has and comes with at least one pair of nodes, and strict
evaluation finds the same.
-/
namespace TypeMend

open Workspace

namespace NodePair

/-- The written types of the two nodes of a pair. -/
def writtenTypes (pair : NodePair) : List SourceSpan :=
  pair.source.writtenType.toList ++ pair.target.writtenType.toList

/-- The written types that lie in neither file of a pair. -/
def strayTypes (pair : NodePair) : List SourceSpan :=
  pair.writtenTypes.filter fun span =>
    span.file ≠ pair.source.file ∧ span.file ≠ pair.target.file

end NodePair

namespace Snapshot

def pairs (snapshot : Snapshot) : List NodePair :=
  snapshot.locations ++ snapshot.layers.map EnclosingLayer.outer

/-- The written types that lie in neither file of their pair. -/
def strayTypes (snapshot : Snapshot) : List SourceSpan :=
  snapshot.pairs.flatMap NodePair.strayTypes

end Snapshot

/-- What the classification works against. Nodes outside the loaded files are stray types. -/
def Engine.setting (engine : Engine) : Setting where
  snapshot := engine.snapshot
  store := engine.store
  outside file := ∃ span ∈ engine.snapshot.strayTypes, span.file = file

namespace Workspace

variable {ws ws' : Workspace}

/-- The nodes that a table names are there. -/
def HoldsNodes (table : Table String NodeId) (ws : Workspace) : Prop :=
  ∀ key id, table.get? key = some id → id < ws.nodes.size

/-- The members that a table names are there. -/
def HoldsMembers (table : Table String Member) (ws : Workspace) : Prop :=
  ∀ key member, table.get? key = some member → ws.HoldsMember member

/-- A workspace has the nodes of a pair. -/
structure HoldsLayer (ws : Workspace) (layer : Layer) : Prop where
  source_lt : layer.source < ws.nodes.size
  target_lt : layer.target < ws.nodes.size

/-- A workspace has all nodes and declarations that a problem names, and the problem comes with
at least one pair. -/
structure HoldsProblem (ws : Workspace) (problem : Problem) : Prop where
  source_lt : problem.source < ws.nodes.size
  target_lt : problem.target < ws.nodes.size
  stack_ne : problem.stack ≠ []
  layer_held : ∀ layer ∈ problem.stack, ws.HoldsLayer layer
  property_lt : ws.HoldsNodes problem.sourceProperties
  member_held : ws.HoldsMembers problem.targetMembers
  source_declared : ws.HoldsDeclaration problem.sourceDeclaration
  target_declared : ws.HoldsDeclaration problem.targetDeclaration

theorem Extends.holdsNodes (h : Extends ws ws') {table : Table String NodeId}
    (htable : ws.HoldsNodes table) : ws'.HoldsNodes table :=
  fun key id hid => (htable key id hid).trans_le h.size_le

theorem Extends.holdsMembers (h : Extends ws ws') {table : Table String Member}
    (htable : ws.HoldsMembers table) : ws'.HoldsMembers table :=
  fun key member hmember => h.holdsMember (htable key member hmember)

theorem Extends.holdsLayer (h : Extends ws ws') {layer : Layer} (hlayer : ws.HoldsLayer layer) :
    ws'.HoldsLayer layer :=
  ⟨hlayer.source_lt.trans_le h.size_le, hlayer.target_lt.trans_le h.size_le⟩

theorem Extends.holdsProblem (h : Extends ws ws') {problem : Problem}
    (hproblem : ws.HoldsProblem problem) : ws'.HoldsProblem problem where
  source_lt := hproblem.source_lt.trans_le h.size_le
  target_lt := hproblem.target_lt.trans_le h.size_le
  stack_ne := hproblem.stack_ne
  layer_held layer hlayer := h.holdsLayer (hproblem.layer_held layer hlayer)
  property_lt := h.holdsNodes hproblem.property_lt
  member_held := h.holdsMembers hproblem.member_held
  source_declared := h.holdsDeclaration hproblem.source_declared
  target_declared := h.holdsDeclaration hproblem.target_declared

/-- What a classification says can be read in the workspace. -/
def HoldsClassification (ws : Workspace) : Classification → Prop
  | .problem problem _ => ws.HoldsProblem problem
  | _ => True

end Workspace

/-- A key that the declaration of the source does not write gets a node of its own. -/
theorem Engine.sourceCarriers_cons_of_none {pair : NodePair} {shape : Shape}
    {declaration : Option DeclId} {key : String} {keys : List String}
    {carriers : Table String NodeId} {ws : Workspace}
    (h : (declaration.bind fun id => (ws.declaration id).members.get? key) = none) :
    (modifyGet (sourceCarriers pair shape declaration (key :: keys) carriers) : Action _) ws =
      ((modifyGet fun ws => ws.addDetached (sourceCarrier pair.source shape key)) >>= fun id =>
        modifyGet (sourceCarriers pair shape declaration keys (carriers.insert key id)) :
          Action _) ws := by
  simp [sourceCarriers, h, Bind.bind, EStateM.bind]

namespace Strict

variable {s : Setting} {ws : Workspace}

/-! ## Members -/

theorem searchMember_agrees (hs : Sound s.outside ws) (key : String) (visits : Nat)
    (seen : List DeclId) {queue : List DeclId} (hqueue : ws.HoldsAll queue) :
    Agrees s (searchMember s.snapshot s.store key visits seen queue)
      (Workspace.searchMember s.snapshot s.store key visits seen queue) ws
      fun found ws' => ∀ member ∈ found, ws'.WritesKey key member := by
  induction visits generalizing ws seen queue with
  | zero => exact .pure fun member h => by simp at h
  | succ visits ih =>
    unfold searchMember Workspace.searchMember Workspace.searchStep
    cases hnext : queue.dropWhile seen.contains with
    | nil => exact .pure fun member h => by simp at h
    | cons id rest =>
      have hsub : id :: rest ⊆ queue := hnext ▸ List.dropWhile_subset _
      have hid := hqueue id (hsub List.mem_cons_self)
      refine .get_left (.demand (declaration?_eq hid) (.get_right ?_))
      dsimp only
      cases hmember : (ws.declaration id).members.get? key with
      | some member =>
        refine .pure fun other hother => ?_
        cases hother
        exact ⟨id, hid, hmember⟩
      | none =>
        refine (Agrees.lift (resolveAll_runs hs _)).bind fun bases ws₁ h₁ hbases => ?_
        refine ih (h₁.sound hs) (id :: seen) fun other hother => ?_
        rcases List.mem_append.1 hother with hrest | hbase
        · exact h₁.extends.holdsAll hqueue other (hsub (List.mem_cons_of_mem _ hrest))
        · exact hbases other hbase

theorem resolveMember_agrees (hs : Sound s.outside ws) {id : DeclId}
    (hid : id < ws.declarations.size) (key : String) :
    Agrees s (resolveMember s.snapshot s.store id key)
      (Workspace.resolveMember s.snapshot s.store id key) ws
      fun found ws' => ∀ member ∈ found, ws'.WritesKey key member := by
  refine .get_left (.get_right (searchMember_agrees hs key _ [] ?_))
  intro other hother
  rw [List.mem_singleton.1 hother]
  exact hid

variable {engine : Engine}

theorem slotMember_agrees (hs : Sound engine.setting.outside ws) (slot : MemberSlot)
    {declaration : Option DeclId} (hdeclaration : ws.HoldsDeclaration declaration) :
    Agrees engine.setting (slotMember engine slot declaration)
      (engine.slotMember slot declaration) ws
      fun found ws' => ∀ member ∈ found, ws'.WritesKey slot.key member := by
  have hnone : Agrees engine.setting (pure none) (pure none) ws
      fun (found : Option Member) ws' => ∀ member ∈ found, ws'.WritesKey slot.key member :=
    .pure fun member h => by simp at h
  unfold slotMember Engine.slotMember
  cases declaration with
  | none => exact hnone
  | some id =>
    cases slot.indexType with
    | some _ => exact hnone
    | none => exact resolveMember_agrees hs (hdeclaration id rfl) slot.key

/-! ## Placeholders -/

/-- A classification that reads nothing that the workspace lacks. -/
def Readable (result : Option Classification) (ws : Workspace) : Prop :=
  ∀ classification ∈ result, ws.HoldsClassification classification

theorem carrier_admits {outside : String → Prop} {owner : SourceNode} (h : ws.Loaded owner.file)
    (kindName text typeText : String) :
    ws.Admits outside (Engine.carrier owner kindName text typeText) :=
  admits_of_unwritten rfl (.inl h)

theorem holdsProblem_clashingMember {problem : Problem} (hproblem : ws.HoldsProblem problem)
    {member : Member} (hmember : ws.HoldsMember member) (key : String) :
    ws.HoldsProblem (Engine.clashingMember problem key member) :=
  { hproblem with
    target_lt := hmember.nameNode_lt
    property_lt := Table.insert_forall hproblem.property_lt hproblem.source_lt
    member_held := Table.insert_forall hproblem.member_held hmember }

theorem holdsProblem_absentMember {problem : Problem} (hproblem : ws.HoldsProblem problem)
    {declaration : Option NodeId} (hdeclaration : ∀ id, declaration = some id → id < ws.nodes.size)
    {carrier : NodeId} (hcarrier : carrier < ws.nodes.size) (key : String) :
    ws.HoldsProblem (Engine.absentMember problem key declaration carrier) :=
  { hproblem with
    target_lt := by
      cases declaration with
      | none => exact hproblem.target_lt
      | some id => exact hdeclaration id rfl
    property_lt := Table.insert_forall hproblem.property_lt hcarrier }

theorem classifyPlaceholder_agrees (hs : Sound engine.setting.outside ws) {pair : NodePair}
    (hsource : ws.Loaded pair.source.file) (slot : MemberSlot) {problem : Problem}
    (hproblem : ws.HoldsProblem problem) :
    Agrees engine.setting (classifyPlaceholder engine pair slot problem)
      (engine.classifyPlaceholder pair slot problem) ws Readable := by
  unfold classifyPlaceholder Engine.classifyPlaceholder
  refine (Agrees.lift (resolve_runs hs slot.ownerType)).bind fun declaration ws₁ h₁ hfiled => ?_
  have hs₁ := h₁.sound hs
  have hdeclaration := hs₁.holdsDeclaration hfiled
  have hproblem₁ : ws₁.HoldsProblem { problem with
      targetDeclaration := declaration, missingIndex := slot.indexType.isSome } :=
    { h₁.extends.holdsProblem hproblem with target_declared := hdeclaration }
  refine (slotMember_agrees hs₁ slot hdeclaration).bind fun found ws₂ h₂ hfound => ?_
  have hs₂ := h₂.sound hs₁
  cases found with
  | some member =>
    have hmember := hs₂.holdsMember (hfound member rfl)
    refine .get_left (.demand (node?_eq hmember.typeNode_lt) (.get_right ?_))
    dsimp only
    split_ifs
    · exact .pure fun _ h => by simp at h
    · refine .pure fun classification h => ?_
      cases h
      exact holdsProblem_clashingMember (h₂.extends.holdsProblem hproblem₁) hmember slot.key
  | none =>
    have hadmits : ws₂.Admits engine.setting.outside (Engine.slotCarrier pair.source slot) :=
      admits_of_unwritten rfl (.inl ((h₁.trans h₂).extends.loaded hsource))
    refine (Agrees.addDetached hadmits).bind fun carrier ws₃ h₃ hcarrier => ?_
    have hs₃ := h₃.sound hs₂
    have hdeclaration₃ := (h₂.trans h₃).extends.holdsDeclaration hdeclaration
    refine .get_left (.demand (mapM_declaration?_eq hdeclaration₃) (.get_right ?_))
    dsimp only
    rw [Option.map_map]
    refine Agrees.pure (Q := Readable) fun classification h => ?_
    cases h
    refine holdsProblem_absentMember ((h₂.trans h₃).extends.holdsProblem hproblem₁)
      (fun id hid => ?_) hcarrier slot.key
    obtain ⟨declared, hdeclared, rfl⟩ := Option.map_eq_some_iff.1 hid
    exact hs₃.entry_lt declared (hdeclaration₃ declared hdeclared)

/-! ## Objects -/

theorem sourceCarriers_agrees (hs : Sound s.outside ws) {pair : NodePair}
    (hsource : ws.Loaded pair.source.file) (shape : Shape) {declaration : Option DeclId}
    (hdeclaration : ws.HoldsDeclaration declaration)
    (keys : List String) {carriers : Table String NodeId} (hcarriers : HoldsNodes carriers ws) :
    Agrees s (sourceCarriers pair shape declaration keys carriers)
      (modifyGet (Engine.sourceCarriers pair shape declaration keys carriers)) ws HoldsNodes := by
  induction keys generalizing ws carriers with
  | nil => exact .pure hcarriers
  | cons key keys ih =>
    unfold sourceCarriers
    refine .get_left (.demand (mapM_declaration?_eq hdeclaration) ?_)
    cases hmember : (declaration.map ws.declaration).bind fun entry => entry.members.get? key with
    | some member =>
      obtain ⟨entry, hentry, hfound⟩ := Option.bind_eq_some_iff.1 hmember
      obtain ⟨id, hid, rfl⟩ := Option.map_eq_some_iff.1 hentry
      have hheld := hs.holdsMember ⟨id, hdeclaration id hid, hfound⟩
      refine .congr ?_ (ih hs hsource hdeclaration
        (Table.insert_forall hcarriers hheld.nameNode_lt))
      simp [Engine.sourceCarriers, hid, hfound]
    | none =>
      have hnone : (declaration.bind fun id => (ws.declaration id).members.get? key) = none := by
        cases declaration with
        | none => rfl
        | some id => exact hmember
      refine .congr (Engine.sourceCarriers_cons_of_none hnone)
        ((Agrees.addDetached (carrier_admits hsource _ _ _)).bind fun id ws₁ h₁ hid => ?_)
      exact ih (h₁.sound hs) (h₁.extends.loaded hsource)
        (h₁.extends.holdsDeclaration hdeclaration)
        (Table.insert_forall (h₁.extends.holdsNodes hcarriers) hid)

theorem targetMembers_agrees (hs : Sound engine.setting.outside ws) {declaration : DeclId}
    (hdeclaration : declaration < ws.declarations.size) (keys : List String)
    {members : Table String Member} (hmembers : HoldsMembers members ws) :
    Agrees engine.setting (targetMembers engine declaration keys members)
      (engine.targetMembers declaration keys members) ws HoldsMembers := by
  induction keys generalizing ws members with
  | nil => exact .pure hmembers
  | cons key keys ih =>
    unfold targetMembers Engine.targetMembers
    refine (resolveMember_agrees hs hdeclaration key).bind fun found ws₁ h₁ hfound => ?_
    have hs₁ := h₁.sound hs
    have hdeclaration₁ := hdeclaration.trans_le h₁.extends.declarations_le
    have hmembers₁ := h₁.extends.holdsMembers hmembers
    cases found with
    | some member =>
      exact ih hs₁ hdeclaration₁
        (Table.insert_forall hmembers₁ (hs₁.holdsMember (hfound member rfl)))
    | none => exact ih hs₁ hdeclaration₁ hmembers₁

theorem declaredMembers_agrees (hs : Sound engine.setting.outside ws) {declaration : Option DeclId}
    (hdeclaration : ws.HoldsDeclaration declaration) (keys : List String) :
    Agrees engine.setting (declaredMembers engine declaration keys)
      (engine.declaredMembers declaration keys) ws HoldsMembers := by
  have hempty : HoldsMembers ∅ ws := fun _ _ h => by simp at h
  cases declaration with
  | some id => exact targetMembers_agrees hs (hdeclaration id rfl) keys hempty
  | none => exact .pure hempty

theorem holdsProblem_narrowed {problem : Problem} (hproblem : ws.HoldsProblem problem)
    {source target : NodeId} (hsource : source < ws.nodes.size) (htarget : target < ws.nodes.size) :
    ws.HoldsProblem (Engine.narrowed problem source target) :=
  { hproblem with
    source_lt := hsource
    target_lt := htarget
    stack_ne := by simp [Engine.narrowed]
    layer_held := fun layer hlayer => by
      rcases List.mem_append.1 hlayer with houter | hlast
      · exact hproblem.layer_held layer houter
      · rw [List.mem_singleton.1 hlast]
        exact ⟨hsource, htarget⟩ }

theorem narrow_runs {pair : NodePair} (htarget : ws.Loaded pair.target.file) (shape : Shape)
    {problem : Problem} (hproblem : ws.HoldsProblem problem) :
    Runs s (Engine.narrow pair shape problem) ws
      fun narrowed ws' => ws'.HoldsProblem narrowed := by
  unfold Engine.narrow
  split
  · split
    · exact .pure hproblem
    · next source member hsource hmember =>
      exact .pure (holdsProblem_narrowed hproblem (hproblem.property_lt _ _ hsource)
        (hproblem.member_held _ _ hmember).nameNode_lt)
    · next source hsource _ =>
      refine (Agrees.addDetached (carrier_admits htarget _ _ _)).runs.bind
        fun carrier ws₁ h₁ hlt => .pure ?_
      exact holdsProblem_narrowed (h₁.extends.holdsProblem hproblem)
        ((hproblem.property_lt _ _ hsource).trans_le h₁.extends.size_le) hlt
  · exact .pure hproblem

theorem classifyObjects_agrees (hs : Sound engine.setting.outside ws) {pair : NodePair}
    (hsource : ws.Loaded pair.source.file) (htarget : ws.Loaded pair.target.file)
    (source target : Shape) {problem : Problem} (hproblem : ws.HoldsProblem problem) :
    Agrees engine.setting (classifyObjects engine pair source target problem)
      (engine.classifyObjects pair source target problem) ws Readable := by
  unfold classifyObjects Engine.classifyObjects
  dsimp only
  cases ProblemKind.ofComparison? (source.compare TypeText.assignable target) with
  | none => exact .pure fun _ h => by simp at h
  | some kind =>
    refine (Agrees.lift (resolve_runs hs _)).bind fun sourceDeclaration ws₁ h₁ hfiled₁ => ?_
    have hs₁ := h₁.sound hs
    have hsourceDeclaration := hs₁.holdsDeclaration hfiled₁
    refine (Agrees.lift (resolve_runs hs₁ _)).bind fun targetDeclaration ws₂ h₂ hfiled₂ => ?_
    have hs₂ := h₂.sound hs₁
    have hsourceDeclaration₂ := h₂.extends.holdsDeclaration hsourceDeclaration
    have htargetDeclaration := hs₂.holdsDeclaration hfiled₂
    refine (sourceCarriers_agrees hs₂ ((h₁.trans h₂).extends.loaded hsource) source
      hsourceDeclaration₂ _ fun _ _ h => by simp at h).bind fun carriers ws₃ h₃ hcarriers => ?_
    refine (declaredMembers_agrees (h₃.sound hs₂)
      (h₃.extends.holdsDeclaration htargetDeclaration) _).bind fun members ws₄ h₄ hmembers => ?_
    have hext := (h₁.trans (h₂.trans (h₃.trans h₄))).extends
    have hopen := hext.holdsProblem hproblem
    have hobject : ws₄.HoldsProblem { problem with
        kind := kind
        comparison := source.compare TypeText.assignable target
        sourceDeclaration := sourceDeclaration
        targetDeclaration := targetDeclaration
        sourceProperties := carriers
        targetMembers := members } :=
      { hopen with
        property_lt := h₄.extends.holdsNodes hcarriers
        member_held := hmembers
        source_declared := (h₃.trans h₄).extends.holdsDeclaration hsourceDeclaration₂
        target_declared := (h₃.trans h₄).extends.holdsDeclaration htargetDeclaration }
    refine (Agrees.lift (narrow_runs (hext.loaded htarget) target hobject)).bind
      fun narrowed ws₅ _ hnarrowed => .pure fun classification h => ?_
    cases h
    exact hnarrowed

/-! ## Diagnostics -/

theorem classifyValues_agrees (hs : Sound engine.setting.outside ws) {pair : NodePair}
    (hsource : ws.Loaded pair.source.file) (htarget : ws.Loaded pair.target.file)
    {problem : Problem} (hproblem : ws.HoldsProblem problem) :
    Agrees engine.setting (classifyValues engine pair problem)
      (engine.classifyValues pair problem) ws Readable := by
  have hsimple (kind : ProblemKind) (suggestions : List Suggestion) :
      Readable (some (.problem { problem with kind := kind } suggestions)) ws := by
    intro classification h
    cases h
    exact { hproblem with }
  unfold classifyValues Engine.classifyValues
  cases engine.snapshot.shapeOf? pair.source.typeText with
  | none =>
    cases engine.snapshot.shapeOf? pair.target.typeText with
    | none => exact .lift (.pure (hsimple problem.kind []))
    | some target => exact .lift (.pure (hsimple _ _))
  | some source =>
    cases engine.snapshot.shapeOf? pair.target.typeText with
    | none => exact .lift (.pure (hsimple _ _))
    | some target => exact classifyObjects_agrees hs hsource htarget source target hproblem

theorem loaded_or_stray {pair : NodePair} (hpair : pair ∈ engine.snapshot.pairs)
    (hsource : ws.Loaded pair.source.file) (htarget : ws.Loaded pair.target.file)
    {span : SourceSpan} (hspan : span ∈ pair.writtenTypes) :
    ws.Loaded span.file ∨ engine.setting.outside span.file := by
  by_cases hfirst : span.file = pair.source.file
  · exact .inl (hfirst ▸ hsource)
  by_cases hsecond : span.file = pair.target.file
  · exact .inl (hsecond ▸ htarget)
  refine .inr ⟨span, List.mem_flatMap.2 ⟨pair, hpair, ?_⟩, rfl⟩
  exact List.mem_filter.2 ⟨hspan, by simp [hfirst, hsecond]⟩

theorem internLayer_runs (hs : Sound engine.setting.outside ws) {pair : NodePair}
    (hpair : pair ∈ engine.snapshot.pairs) (hsource : ws.Loaded pair.source.file)
    (htarget : ws.Loaded pair.target.file) (kind : LayerKind) :
    Runs engine.setting (Engine.internLayer kind pair) ws
      fun layer ws' => ws'.HoldsLayer layer := by
  unfold Engine.internLayer
  refine (internSource_runs hs (.inl hsource) fun span hspan => ?_).bind
    fun source ws₁ h₁ hindex₁ => ?_
  · exact loaded_or_stray hpair hsource htarget (by simp [NodePair.writtenTypes, hspan])
  have hs₁ := h₁.sound hs
  have hsource₁ := h₁.extends.loaded hsource
  have htarget₁ := h₁.extends.loaded htarget
  refine (internSource_runs hs₁ (.inl htarget₁) fun span hspan => ?_).bind
    fun target ws₂ h₂ hindex₂ => .pure ?_
  · exact loaded_or_stray hpair hsource₁ htarget₁ (by simp [NodePair.writtenTypes, hspan])
  have hs₂ := h₂.sound hs₁
  exact ⟨hs₂.index_lt _ _ (h₂.extends.index_eq _ _ hindex₁), hs₂.index_lt _ _ hindex₂⟩

theorem internOuter_runs (hs : Sound engine.setting.outside ws) {pairs : List NodePair}
    (hpairs : ∀ pair ∈ pairs, pair ∈ engine.snapshot.pairs) :
    Runs engine.setting (engine.internOuter pairs) ws
      fun layers ws' => ∀ layer ∈ layers, ws'.HoldsLayer layer := by
  induction pairs generalizing ws with
  | nil => exact .pure fun layer h => by simp at h
  | cons pair rest ih =>
    unfold Engine.internOuter
    refine (ensureFile_runs pair.source.file).bind fun _ ws₁ h₁ ⟨hsource, _⟩ => ?_
    refine (ensureFile_runs pair.target.file).bind fun _ ws₂ h₂ ⟨htarget, _⟩ => ?_
    have hs₂ := h₂.sound (h₁.sound hs)
    refine (internLayer_runs hs₂ (hpairs pair List.mem_cons_self) (h₂.extends.loaded hsource)
      htarget .typeArgument).bind fun layer ws₃ h₃ hlayer => ?_
    refine (ih (h₃.sound hs₂) fun other hother => hpairs other (List.mem_cons_of_mem _ hother)).bind
      fun layers ws₄ h₄ hlayers => .pure fun other hother => ?_
    rcases List.mem_cons.1 hother with rfl | hrest
    · exact h₄.extends.holdsLayer hlayer
    · exact hlayers other hrest

theorem enclosingChain_subset (snapshot : Snapshot) (depth : Nat) (pair : NodePair) :
    snapshot.enclosingChain depth pair ⊆ snapshot.pairs := by
  induction depth generalizing pair with
  | zero => intro outer h; simp [Snapshot.enclosingChain] at h
  | succ depth ih =>
    intro outer h
    unfold Snapshot.enclosingChain at h
    cases hnext : snapshot.enclosing? pair with
    | none => simp [hnext] at h
    | some next =>
      rw [hnext] at h
      rcases List.mem_cons.1 h with rfl | hrest
      · obtain ⟨layer, hlayer, rfl⟩ := Option.map_eq_some_iff.1 hnext
        exact List.mem_append_right _
          (List.mem_map.2 ⟨layer, List.mem_of_find?_eq_some hlayer, rfl⟩)
      · exact ih next hrest

theorem mem_of_foldl_narrower {pairs : List NodePair} {best : Option NodePair} {pair : NodePair}
    (h : pairs.foldl Snapshot.narrower best = some pair) : best = some pair ∨ pair ∈ pairs := by
  induction pairs generalizing best with
  | nil => exact .inl h
  | cons other rest ih =>
    rcases ih h with hbest | hrest
    · unfold Snapshot.narrower at hbest
      split at hbest
      · cases hbest
        exact .inr List.mem_cons_self
      · split_ifs at hbest
        · cases hbest
          exact .inr List.mem_cons_self
        · exact .inl hbest
    · exact .inr (List.mem_cons_of_mem _ hrest)

theorem mem_of_locate? {snapshot : Snapshot} {file : String} {offset : UInt32} {pair : NodePair}
    (h : snapshot.locate? file offset = some pair) : pair ∈ snapshot.pairs := by
  rcases mem_of_foldl_narrower h with hnone | hmem
  · cases hnone
  · exact List.mem_append_left _ (List.mem_of_mem_filter hmem)

/-- The last pair of a stack is the one the problem is about. -/
theorem openProblem_eq (code : UInt32) (kind : ProblemKind) (outer : List Layer) (inner : Layer)
    (functionName : Option String) :
    openProblem code kind (outer ++ [inner]) functionName =
      some (Engine.openProblem code kind outer inner functionName) := by
  simp [openProblem, Engine.openProblem]

theorem holdsProblem_openProblem {outer : List Layer} {inner : Layer}
    (houter : ∀ layer ∈ outer, ws.HoldsLayer layer) (hinner : ws.HoldsLayer inner) (code : UInt32)
    (kind : ProblemKind) (functionName : Option String) :
    ws.HoldsProblem (Engine.openProblem code kind outer inner functionName) where
  source_lt := hinner.source_lt
  target_lt := hinner.target_lt
  stack_ne := by simp [Engine.openProblem]
  layer_held layer hlayer := by
    rcases List.mem_append.1 hlayer with h | h
    · exact houter layer h
    · rw [List.mem_singleton.1 h]
      exact hinner
  property_lt _ _ h := by simp [Engine.openProblem] at h
  member_held _ _ h := by simp [Engine.openProblem] at h
  source_declared _ h := by simp [Engine.openProblem] at h
  target_declared _ h := by simp [Engine.openProblem] at h

theorem Readable.getD {result : Option Classification} (h : Readable result ws)
    (unsupported : Unsupported) :
    ws.HoldsClassification (result.getD (.unsupported unsupported)) := by
  cases result with
  | none => trivial
  | some classification => exact h classification rfl

theorem classify_agrees (hs : Sound engine.setting.outside ws) {pair : NodePair}
    (hpair : pair ∈ engine.snapshot.pairs) (hsource : ws.Loaded pair.source.file)
    (code : UInt32) :
    Agrees engine.setting (classify engine code pair) (engine.classify code pair) ws
      fun classification ws' => ws'.HoldsClassification classification := by
  unfold classify Engine.classify
  dsimp only
  cases Family.ofCode? code with
  | none => exact .pure trivial
  | some family =>
    refine (Agrees.lift (ensureFile_runs pair.target.file)).bind
      fun _ ws₁ h₁ ⟨htarget, _⟩ => ?_
    have hchain := enclosingChain_subset engine.snapshot engine.options.maxLayerDepth pair
    refine (Agrees.lift (internOuter_runs (h₁.sound hs)
      fun outer h => hchain (List.mem_reverse.1 h))).bind fun outer ws₂ h₂ houter => ?_
    have hs₂ := h₂.sound (h₁.sound hs)
    have hsource₂ := (h₁.trans h₂).extends.loaded hsource
    have htarget₂ := h₂.extends.loaded htarget
    refine (Agrees.lift (internLayer_runs hs₂ hpair hsource₂ htarget₂ .diagnostic)).bind
      fun inner ws₃ h₃ hinner => ?_
    have hs₃ := h₃.sound hs₂
    have houter₃ : ∀ layer ∈ outer, ws₃.HoldsLayer layer :=
      fun layer h => h₃.extends.holdsLayer (houter layer h)
    have hopen := fun kind => holdsProblem_openProblem houter₃ hinner code kind
      ((pair :: engine.snapshot.enclosingChain engine.options.maxLayerDepth pair).findSome?
        NodePair.functionName)
    have hsource₃ := h₃.extends.loaded hsource₂
    cases pair.source.placeholder with
    | some slot =>
      refine .demand (openProblem_eq code _ outer inner _) ?_
      refine (classifyPlaceholder_agrees hs₃ hsource₃ slot (hopen .targetPropMissing)).bind
        fun result ws₄ _ hresult => .pure (hresult.getD _)
    | none =>
      dsimp only
      split_ifs
      · exact .pure trivial
      · refine .demand (openProblem_eq code _ outer inner _) ?_
        refine (classifyValues_agrees hs₃ hsource₃ (h₃.extends.loaded htarget₂)
          (hopen .mismatch)).bind fun result ws₄ _ hresult => .pure (hresult.getD _)

/-- Classifying a diagnostic does not break off, takes steps of a session only, and finds a
problem that the workspace can show. -/
theorem classifyDiagnostic_agrees (hs : Sound engine.setting.outside ws)
    (diagnostic : Diagnostic) :
    Agrees engine.setting (classifyDiagnostic engine diagnostic)
      (engine.classifyDiagnostic diagnostic) ws
      fun classification ws' => ws'.HoldsClassification classification := by
  unfold classifyDiagnostic Engine.classifyDiagnostic
  cases hpair : engine.snapshot.locate? diagnostic.file diagnostic.start with
  | none => exact .pure trivial
  | some pair =>
    refine (Agrees.lift (ensureFile_runs pair.source.file)).bind
      fun _ ws₁ h₁ ⟨hsource, _⟩ => ?_
    refine (Agrees.modifyGet (Q := fun _ _ => True) (markProcessed_evolves _ _) trivial).bind
      fun fresh ws₂ h₂ _ => ?_
    split_ifs
    · exact classify_agrees (h₂.sound (h₁.sound hs)) (mem_of_locate? hpair)
        (h₂.extends.loaded hsource) diagnostic.code
    · exact .pure trivial

end Strict

end TypeMend
