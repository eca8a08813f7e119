import TypeMend.Proofs.Descriptions
import TypeMend.Proofs.Steadiness

/-!
# Classification from two workspaces

Two workspaces of one engine number their nodes and declarations as they met them. A diagnostic that
is classified from either gives the same problem up to these numbers: numbers that take each other's
place stand for nodes with the same content, whose written types have the same content as well.
`Matches` carries this through classification action by action. It asks that all descriptions of one
key agree, and it is about two actions that both succeed.
-/
namespace TypeMend

namespace Table

variable {κ α β : Type} {r r' : α → β → Prop} {t : Table κ α} {t' : Table κ β}

/-- Two tables have the same keys in the same order, with related values. -/
def Rel (r : α → β → Prop) (t : Table κ α) (t' : Table κ β) : Prop :=
  List.Forall₂ (fun entry entry' => entry.1 = entry'.1 ∧ r entry.2 entry'.2) t.entries t'.entries

theorem Rel.empty : Rel r (∅ : Table κ α) (∅ : Table κ β) :=
  .nil

theorem Rel.imp (h : Rel r t t') (hr : ∀ a b, r a b → r' a b) : Rel r' t t' :=
  List.Forall₂.imp (fun _ _ hentry => ⟨hentry.1, hr _ _ hentry.2⟩) h

theorem Rel.values (h : Rel r t t') : List.Forall₂ r t.values t'.values := by
  rw [Table.values, Table.values, List.forall₂_map_left_iff, List.forall₂_map_right_iff]
  exact List.Forall₂.imp (fun _ _ hentry => hentry.2) h

variable [DecidableEq κ]

theorem Rel.insert (h : Rel r t t') (key : κ) {a : α} {b : β} (hab : r a b) :
    Rel r (t.insert key a) (t'.insert key b) := by
  change List.Forall₂ _ (alterEntries key _ t.entries) (alterEntries key _ t'.entries)
  unfold Rel at h
  generalize t.entries = entries at h ⊢
  generalize t'.entries = entries' at h ⊢
  induction h with
  | nil => exact .cons ⟨rfl, hab⟩ .nil
  | @cons entry entry' rest rest' hentry hrest ih =>
    obtain ⟨k, old⟩ := entry
    obtain ⟨k', old'⟩ := entry'
    obtain ⟨rfl, hold⟩ := hentry
    unfold alterEntries
    split_ifs
    · exact .cons ⟨rfl, hab⟩ hrest
    · exact .cons ⟨rfl, hold⟩ ih

theorem Rel.get? (h : Rel r t t') (key : κ) : Option.Rel r (t.get? key) (t'.get? key) := by
  change Option.Rel r (find? key t.entries) (find? key t'.entries)
  unfold Rel at h
  generalize t.entries = entries at h ⊢
  generalize t'.entries = entries' at h ⊢
  induction h with
  | nil => exact .none
  | @cons entry entry' rest rest' hentry hrest ih =>
    obtain ⟨k, value⟩ := entry
    obtain ⟨k', value'⟩ := entry'
    obtain ⟨rfl, hvalue⟩ := hentry
    unfold find?
    split_ifs
    · exact .some hvalue
    · exact ih

end Table

/-- A node without the number of its written type. -/
def Node.bare (node : Node) : Node :=
  { node with declaration := none }

open Workspace

/-! ## Numbers that take each other's place -/

namespace Workspace

variable {snapshot : Snapshot} {ws ws' v v' : Workspace}

/-- Two numbers, each of its own workspace, stand for nodes with the same content. -/
structure Like (ws ws' : Workspace) (id id' : NodeId) : Prop where
  lt : id < ws.nodes.size
  lt' : id' < ws'.nodes.size
  bare_eq : (ws.node id).bare = (ws'.node id').bare

/-- So do the numbers of their written types. -/
structure Alike (ws ws' : Workspace) (id id' : NodeId) : Prop extends Like ws ws' id id' where
  written : Option.Rel (Like ws ws') (ws.node id).declaration (ws'.node id').declaration

theorem Like.typeText_eq {id id' : NodeId} (h : Like ws ws' id id') :
    (ws.node id).typeText = (ws'.node id').typeText := by
  have hbare := congrArg Node.typeText h.bare_eq
  exact hbare

theorem Like.isPlaceholder_eq {id id' : NodeId} (h : Like ws ws' id id') :
    (ws.node id).isPlaceholder = (ws'.node id').isPlaceholder := by
  have hbare := congrArg Node.isPlaceholder h.bare_eq
  exact hbare

theorem Like.file_eq {id id' : NodeId} (h : Like ws ws' id id') :
    (ws.node id).file = (ws'.node id').file := by
  have hbare := congrArg Node.file h.bare_eq
  exact hbare

theorem Like.grow {id id' : NodeId} (h : Like ws ws' id id') (hv : Extends ws v)
    (hv' : Extends ws' v') : Like v v' id id' where
  lt := h.lt.trans_le hv.size_le
  lt' := h.lt'.trans_le hv'.size_le
  bare_eq := by rw [hv.node_eq _ h.lt, hv'.node_eq _ h.lt', h.bare_eq]

theorem Alike.grow {id id' : NodeId} (h : Alike ws ws' id id') (hv : Extends ws v)
    (hv' : Extends ws' v') : Alike v v' id id' where
  toLike := h.toLike.grow hv hv'
  written := by
    rw [hv.node_eq _ h.lt, hv'.node_eq _ h.lt']
    exact h.written.imp fun _ _ hlike => hlike.grow hv hv'

structure AlikeLayers (ws ws' : Workspace) (layer layer' : Layer) : Prop where
  kind_eq : layer.kind = layer'.kind
  source : Alike ws ws' layer.source layer'.source
  target : Alike ws ws' layer.target layer'.target

structure AlikeMembers (ws ws' : Workspace) (member member' : Member) : Prop where
  nameNode : Alike ws ws' member.nameNode member'.nameNode
  typeNode : Alike ws ws' member.typeNode member'.typeNode

/-- Two numbers stand for the same declaration of a snapshot. -/
def SameDeclaration (snapshot : Snapshot) (ws ws' : Workspace) (id id' : DeclId) : Prop :=
  ∃ declaration, Stands snapshot ws declaration id ∧ Stands snapshot ws' declaration id'

theorem AlikeLayers.grow {layer layer' : Layer} (h : AlikeLayers ws ws' layer layer')
    (hv : Extends ws v) (hv' : Extends ws' v') : AlikeLayers v v' layer layer' :=
  ⟨h.kind_eq, h.source.grow hv hv', h.target.grow hv hv'⟩

theorem AlikeMembers.grow {member member' : Member} (h : AlikeMembers ws ws' member member')
    (hv : Extends ws v) (hv' : Extends ws' v') : AlikeMembers v v' member member' :=
  ⟨h.nameNode.grow hv hv', h.typeNode.grow hv hv'⟩

theorem SameDeclaration.grow {id id' : DeclId} (h : SameDeclaration snapshot ws ws' id id')
    (hv : Extends ws v) (hv' : Extends ws' v') : SameDeclaration snapshot v v' id id' := by
  obtain ⟨declaration, hstands, hstands'⟩ := h
  exact ⟨declaration, hv.stands hstands, hv'.stands hstands'⟩

/-- Two problems say the same, each in its own workspace. -/
structure AlikeProblems (snapshot : Snapshot) (ws ws' : Workspace) (problem problem' : Problem) :
    Prop where
  kind_eq : problem.kind = problem'.kind
  comparison_eq : problem.comparison = problem'.comparison
  missingIndex_eq : problem.missingIndex = problem'.missingIndex
  source : Alike ws ws' problem.source problem'.source
  target : Alike ws ws' problem.target problem'.target
  stack : List.Forall₂ (AlikeLayers ws ws') problem.stack problem'.stack
  declared : Option.Rel (SameDeclaration snapshot ws ws') problem.targetDeclaration
    problem'.targetDeclaration
  properties : Table.Rel (Alike ws ws') problem.sourceProperties problem'.sourceProperties
  members : Table.Rel (AlikeMembers ws ws') problem.targetMembers problem'.targetMembers

theorem AlikeProblems.grow {problem problem' : Problem}
    (h : AlikeProblems snapshot ws ws' problem problem') (hv : Extends ws v)
    (hv' : Extends ws' v') : AlikeProblems snapshot v v' problem problem' where
  kind_eq := h.kind_eq
  comparison_eq := h.comparison_eq
  missingIndex_eq := h.missingIndex_eq
  source := h.source.grow hv hv'
  target := h.target.grow hv hv'
  stack := h.stack.imp fun _ _ hlayers => hlayers.grow hv hv'
  declared := h.declared.imp fun _ _ hsame => hsame.grow hv hv'
  properties := h.properties.imp fun _ _ halike => halike.grow hv hv'
  members := h.members.imp fun _ _ halike => halike.grow hv hv'

theorem AlikeProblems.narrowed {problem problem' : Problem}
    (h : AlikeProblems snapshot ws ws' problem problem') {source source' : NodeId}
    (hsource : Alike ws ws' source source') {target target' : NodeId}
    (htarget : Alike ws ws' target target') :
    AlikeProblems snapshot ws ws' (Engine.narrowed problem source target)
      (Engine.narrowed problem' source' target') :=
  { h with
    kind_eq := rfl
    source := hsource
    target := htarget
    stack := List.rel_append h.stack (.cons ⟨rfl, hsource, htarget⟩ .nil) }

/-- Nodes that are shared under one key have the same content. -/
theorem like_of_index (hsnapshot : snapshot.Unanimous) (h : Depicted snapshot ws)
    (h' : Depicted snapshot ws') {key : NodeKey} {id id' : NodeId}
    (hid : ws.index.get? key = some id) (hid' : ws'.index.get? key = some id') :
    Like ws ws' id id' := by
  obtain ⟨description, written, hshows⟩ := h key id hid
  obtain ⟨description', written', hshows'⟩ := h' key id' hid'
  have hsame : description = description' := hsnapshot _ hshows.mem _ hshows'.mem
    (hshows.key_eq.trans hshows'.key_eq.symm)
  subst hsame
  exact ⟨hshows.lt, hshows'.lt, by rw [hshows.node_eq, hshows'.node_eq]; rfl⟩

theorem alike_of_index (hsnapshot : snapshot.Unanimous) (h : Depicted snapshot ws)
    (h' : Depicted snapshot ws') {key : NodeKey} {id id' : NodeId}
    (hid : ws.index.get? key = some id) (hid' : ws'.index.get? key = some id') :
    Alike ws ws' id id' := by
  refine ⟨like_of_index hsnapshot h h' hid hid', ?_⟩
  obtain ⟨description, written, hshows⟩ := h key id hid
  obtain ⟨description', written', hshows'⟩ := h' key id' hid'
  have hsame : description = description' := hsnapshot _ hshows.mem _ hshows'.mem
    (hshows.key_eq.trans hshows'.key_eq.symm)
  subst hsame
  rw [hshows.node_eq, hshows'.node_eq]
  refine (hshows.known.join hshows'.known).imp fun number number' hspan => ?_
  obtain ⟨span, hnumber, hnumber'⟩ := hspan
  exact like_of_index hsnapshot h h' hnumber hnumber'

theorem alikeMembers_of_writes (hsnapshot : snapshot.Unanimous) (h : Depicted snapshot ws)
    (h' : Depicted snapshot ws') {owner owner' : DeclId} {file : String}
    {written : MemberDeclaration} {member member' : Member}
    (hwrites : ws.Writes owner file written member)
    (hwrites' : ws'.Writes owner' file written member') : AlikeMembers ws ws' member member' :=
  ⟨alike_of_index hsnapshot h h' hwrites.nameNode_eq hwrites'.nameNode_eq,
    alike_of_index hsnapshot h h' hwrites.typeNode_eq hwrites'.typeNode_eq⟩

theorem alikeMembers_of_provides (hsnapshot : snapshot.Unanimous) (h : Depicted snapshot ws)
    (h' : Depicted snapshot ws') {key : String} {declaration : Declaration}
    {member member' : Member} (hprovides : Provides snapshot ws key declaration member)
    (hprovides' : Provides snapshot ws' key declaration member') :
    AlikeMembers ws ws' member member' := by
  obtain ⟨written, -, hwritten, hwrites⟩ := hprovides
  obtain ⟨written', -, hwritten', hwrites'⟩ := hprovides'
  rw [hwritten] at hwritten'
  cases hwritten'
  exact alikeMembers_of_writes hsnapshot h h' hwrites hwrites'

/-- The node of a declaration is shared under the key of the declaration. -/
theorem Stands.index_eq (hr : Rooted snapshot ws) {declaration : Declaration} {id : DeclId}
    (h : Stands snapshot ws declaration id) :
    ws.index.get? (declarationNode declaration).key = some (ws.declaration id).node := by
  obtain ⟨other, hnamed, hname, hnode⟩ := hr id h.lt
  rwa [h.named.eq_of_name hnamed (h.name_eq.symm.trans hname)]

theorem SameDeclaration.alike (hsnapshot : snapshot.Unanimous) (h : Depicted snapshot ws)
    (h' : Depicted snapshot ws') (hr : Rooted snapshot ws) (hr' : Rooted snapshot ws')
    {id id' : DeclId} (hsame : SameDeclaration snapshot ws ws' id id') :
    Alike ws ws' (ws.declaration id).node (ws'.declaration id').node := by
  obtain ⟨declaration, hstands, hstands'⟩ := hsame
  exact alike_of_index hsnapshot h h' (hstands.index_eq hr) (hstands'.index_eq hr')

/-- The members that a declaration writes itself. -/
theorem SameDeclaration.members (hsnapshot : snapshot.Unanimous) (h : Depicted snapshot ws)
    (h' : Depicted snapshot ws') {id id' : DeclId}
    (hsame : SameDeclaration snapshot ws ws' id id') (key : String) :
    Option.Rel (AlikeMembers ws ws') ((ws.declaration id).members.get? key)
      ((ws'.declaration id').members.get? key) := by
  obtain ⟨declaration, hstands, hstands'⟩ := hsame
  refine ((hstands.provides key).join (hstands'.provides key)).imp fun _ _ hprovides => ?_
  obtain ⟨_, hprovides, hprovides'⟩ := hprovides
  exact alikeMembers_of_provides hsnapshot h h' hprovides hprovides'

end Workspace

/-! ## Two actions that both succeed -/

namespace Engine

variable {engine : Engine} {ws ws' v v' w w' : Workspace} {α β γ δ : Type}

/-- Two workspaces have grown into two others, which are coherent. -/
structure Abreast (engine : Engine) (ws ws' v v' : Workspace) : Prop where
  left : engine.Coherent v
  right : engine.Coherent v'
  grown : Extends ws v
  grown' : Extends ws' v'

theorem Abreast.refl (h : engine.Coherent ws) (h' : engine.Coherent ws') :
    engine.Abreast ws ws' ws ws' :=
  ⟨h, h', .refl ws, .refl ws'⟩

theorem Abreast.trans (h : engine.Abreast ws ws' v v') (h' : engine.Abreast v v' w w') :
    engine.Abreast ws ws' w w' :=
  ⟨h'.left, h'.right, h.grown.trans h'.grown, h.grown'.trans h'.grown'⟩

/-- Declarations that are the same stay so. -/
theorem Abreast.declared (h : engine.Abreast ws ws' v v') {id id' : Option DeclId}
    (hid : Option.Rel (SameDeclaration engine.snapshot ws ws') id id') :
    Option.Rel (SameDeclaration engine.snapshot v v') id id' :=
  hid.imp fun _ _ hsame => hsame.grow h.grown h.grown'

/-- Nodes that are alike stay so. -/
theorem Abreast.carriers (h : engine.Abreast ws ws' v v') {carriers carriers' : Table String NodeId}
    (hcarriers : Table.Rel (Alike ws ws') carriers carriers') :
    Table.Rel (Alike v v') carriers carriers' :=
  hcarriers.imp fun _ _ halike => halike.grow h.grown h.grown'

/-- What comes of two actions when both succeed. -/
def Matches (engine : Engine) (x : Action α) (y : Action β) (ws ws' : Workspace)
    (R : α → β → Workspace → Workspace → Prop) : Prop :=
  ∀ a b v v', x ws = .ok a v → y ws' = .ok b v' → engine.Abreast ws ws' v v' ∧ R a b v v'

namespace Matches

variable {x : Action α} {y : Action β} {f : α → Action γ} {g : β → Action δ}
  {R : α → β → Workspace → Workspace → Prop} {S : γ → δ → Workspace → Workspace → Prop}

theorem pure (h : engine.Coherent ws) (h' : engine.Coherent ws') {a : α} {b : β}
    (hR : R a b ws ws') : engine.Matches (pure a) (pure b) ws ws' R := by
  intro a' b' v v' hx hy
  cases hx
  cases hy
  exact ⟨.refl h h', hR⟩

theorem bind (hx : engine.Matches x y ws ws' R)
    (hf : ∀ a b v v', engine.Abreast ws ws' v v' → R a b v v' →
      engine.Matches (f a) (g b) v v' S) :
    engine.Matches (x >>= f) (y >>= g) ws ws' S := by
  intro c d w w' hleft hright
  obtain ⟨a, v, hfirst, hleft⟩ := ok_of_bind_eq_ok hleft
  obtain ⟨b, v', hfirst', hright⟩ := ok_of_bind_eq_ok hright
  obtain ⟨habreast, hR⟩ := hx a b v v' hfirst hfirst'
  obtain ⟨hrest, hS⟩ := hf a b v v' habreast hR c d w w' hleft hright
  exact ⟨habreast.trans hrest, hS⟩

theorem imp {T : α → β → Workspace → Workspace → Prop} (hx : engine.Matches x y ws ws' R)
    (h : ∀ a b v v', engine.Abreast ws ws' v v' → R a b v v' → T a b v v') :
    engine.Matches x y ws ws' T := by
  intro a b v v' hleft hright
  obtain ⟨habreast, hR⟩ := hx a b v v' hleft hright
  exact ⟨habreast, h a b v v' habreast hR⟩

/-- Only what the actions do from these workspaces matters. -/
theorem congr {x₁ : Action α} {y₁ : Action β} (hx : x ws = x₁ ws) (hy : y ws' = y₁ ws')
    (h : engine.Matches x₁ y₁ ws ws' R) : engine.Matches x y ws ws' R :=
  fun a b v v' hleft hright => h a b v v' (hx.symm.trans hleft) (hy.symm.trans hright)

/-- Both actions begin by reading their workspace. -/
theorem get_bind {f : Workspace → Action γ} {g : Workspace → Action δ}
    (h : engine.Matches (f ws) (g ws') ws ws' S) :
    engine.Matches (get >>= f) (get >>= g) ws ws' S :=
  h

/-- What is known of each action by itself. -/
theorem of_runs (h : engine.Coherent ws) (h' : engine.Coherent ws')
    {P : α → Workspace → Prop} {Q : β → Workspace → Prop} (hx : Runs engine.anywhere x ws P)
    (hy : Runs engine.anywhere y ws' Q) (hxquiet : Quietly engine.snapshot x)
    (hyquiet : Quietly engine.snapshot y) :
    engine.Matches x y ws ws' fun a b v v' => P a v ∧ Q b v' := by
  intro a b v v' hleft hright
  obtain ⟨hevolves, hP⟩ := hx.of_ok hleft
  obtain ⟨hevolves', hQ⟩ := hy.of_ok hright
  exact ⟨⟨h.quietens hevolves (hxquiet.of_ok hleft), h'.quietens hevolves' (hyquiet.of_ok hright),
    hevolves.extends, hevolves'.extends⟩, hP, hQ⟩

end Matches

/-! ## Looking up and adding -/

theorem ensureFile_matches (h : engine.Coherent ws) (h' : engine.Coherent ws') (file : String) :
    engine.Matches (ensureFile engine.store file) (ensureFile engine.store file) ws ws'
      fun _ _ _ _ => True := by
  have hmatches : engine.Matches (ensureFile engine.store file) (ensureFile engine.store file)
      ws ws' _ :=
    .of_runs h h' (ensureFile_runs file) (ensureFile_runs file) (ensureFile_quietly _ _)
      (ensureFile_quietly _ _)
  exact hmatches.imp fun _ _ _ _ _ _ => trivial

theorem resolve_matches (h : engine.Coherent ws) (h' : engine.Coherent ws') (typeText : String) :
    engine.Matches (resolve engine.snapshot engine.store typeText)
      (resolve engine.snapshot engine.store typeText) ws ws'
      fun id id' v v' => Option.Rel (SameDeclaration engine.snapshot v v') id id' := by
  have hmatches := Matches.of_runs h h' (resolve_finds h.sound h.faithful typeText)
    (resolve_finds h'.sound h'.faithful typeText) (resolve_quietly _ _) (resolve_quietly _ _)
  exact hmatches.imp fun _ _ _ _ _ hfound => hfound.1.join hfound.2

/-- A node without a written type is added on both sides. -/
theorem addDetached_matches (h : engine.Coherent ws) (h' : engine.Coherent ws') {node : Node}
    (hnode : node.declaration = none) :
    engine.Matches (modifyGet fun ws => ws.addDetached node)
      (modifyGet fun ws => ws.addDetached node) ws ws' fun id id' v v' => Alike v v' id id' := by
  have hruns (ws : Workspace) : Runs engine.anywhere (modifyGet fun ws => ws.addDetached node) ws
      fun id v => id < v.nodes.size ∧ v.node id = node := by
    have hadmits : ws.Admits engine.anywhere.outside node :=
      admits_of_unwritten hnode (.inr trivial)
    obtain ⟨hevolves, hlt⟩ := addDetached_spec hadmits
    exact .modifyGet hevolves ⟨hlt, getD_push_of_ge _ _ _ le_rfl hlt⟩
  have hquiet : Quietly engine.snapshot (modifyGet fun ws => ws.addDetached node) :=
    .modifyGet fun ws => .single (.detach ws node)
  refine (Matches.of_runs h h' (hruns ws) (hruns ws') hquiet hquiet).imp
    fun id id' v v' _ hfound => ?_
  obtain ⟨⟨hlt, heq⟩, hlt', heq'⟩ := hfound
  refine ⟨⟨hlt, hlt', by rw [heq, heq']⟩, ?_⟩
  rw [heq, heq', hnode]
  exact .none

section Unanimous

variable (hsnapshot : engine.snapshot.Unanimous)
include hsnapshot

theorem resolveMember_matches (h : engine.Coherent ws) (h' : engine.Coherent ws')
    {id id' : DeclId} (hid : SameDeclaration engine.snapshot ws ws' id id') (key : String) :
    engine.Matches (resolveMember engine.snapshot engine.store id key)
      (resolveMember engine.snapshot engine.store id' key) ws ws'
      fun member member' v v' => Option.Rel (AlikeMembers v v') member member' := by
  obtain ⟨declaration, hstands, hstands'⟩ := hid
  have hmatches := Matches.of_runs h h' (resolveMember_finds h.sound h.faithful hstands key)
    (resolveMember_finds h'.sound h'.faithful hstands' key) (resolveMember_quietly _ _ _)
    (resolveMember_quietly _ _ _)
  refine hmatches.imp fun member member' v v' habreast hfound => ?_
  refine (hfound.1.join hfound.2).imp fun _ _ hprovides => ?_
  obtain ⟨writer, hprovides, hprovides'⟩ := hprovides
  exact alikeMembers_of_provides hsnapshot habreast.left.depicted habreast.right.depicted hprovides
    hprovides'

theorem internSource_matches (h : engine.Coherent ws) (h' : engine.Coherent ws') {node : SourceNode}
    (hnode : node.descriptions ⊆ engine.snapshot.descriptions) :
    engine.Matches (modifyGet fun ws => ws.internSource node)
      (modifyGet fun ws => ws.internSource node) ws ws' fun id id' v v' => Alike v v' id id' := by
  have hquiet : Quietly engine.snapshot (modifyGet fun ws => ws.internSource node) :=
    .modifyGet (internSource_quietens hnode)
  have hmatches := Matches.of_runs h h' (internSource_finds h.toConsistent node)
    (internSource_finds h'.toConsistent node) hquiet hquiet
  exact hmatches.imp fun id id' v v' habreast hindex =>
    alike_of_index hsnapshot habreast.left.depicted habreast.right.depicted hindex.1 hindex.2

theorem internLayer_matches (h : engine.Coherent ws) (h' : engine.Coherent ws') {pair : NodePair}
    (hpair : pair ∈ engine.snapshot.pairs) (kind : LayerKind) :
    engine.Matches (internLayer kind pair) (internLayer kind pair) ws ws'
      fun layer layer' v v' => AlikeLayers v v' layer layer' := by
  obtain ⟨hsource, htarget⟩ := Snapshot.descriptions_of_pair hpair
  refine (internSource_matches hsnapshot h h' hsource).bind
    fun source source' v v' hv halike => ?_
  refine (internSource_matches hsnapshot hv.left hv.right htarget).bind
    fun target target' w w' hw halike' => ?_
  exact .pure hw.left hw.right ⟨rfl, halike.grow hw.grown hw.grown', halike'⟩

theorem internOuter_matches (h : engine.Coherent ws) (h' : engine.Coherent ws')
    {pairs : List NodePair} (hpairs : ∀ pair ∈ pairs, pair ∈ engine.snapshot.pairs) :
    engine.Matches (engine.internOuter pairs) (engine.internOuter pairs) ws ws'
      fun layers layers' v v' => List.Forall₂ (AlikeLayers v v') layers layers' := by
  induction pairs generalizing ws ws' with
  | nil => exact .pure h h' .nil
  | cons pair rest ih =>
    refine (ensureFile_matches h h' _).bind fun _ _ v v' hv _ => ?_
    refine (ensureFile_matches hv.left hv.right _).bind fun _ _ w w' hw _ => ?_
    refine (internLayer_matches hsnapshot hw.left hw.right (hpairs pair List.mem_cons_self) _).bind
      fun layer layer' u u' hu hlayer => ?_
    have hrest : ∀ other ∈ rest, other ∈ engine.snapshot.pairs := fun other hother =>
      hpairs other (List.mem_cons_of_mem _ hother)
    refine (ih hu.left hu.right hrest).bind fun layers layers' t t' ht hlayers => ?_
    exact .pure ht.left ht.right (.cons (hlayer.grow ht.grown ht.grown') hlayers)

/-! ## Placeholders -/

theorem slotMember_matches (h : engine.Coherent ws) (h' : engine.Coherent ws') (slot : MemberSlot)
    {declaration declaration' : Option DeclId}
    (hdeclaration : Option.Rel (SameDeclaration engine.snapshot ws ws') declaration declaration') :
    engine.Matches (engine.slotMember slot declaration) (engine.slotMember slot declaration') ws ws'
      fun member member' v v' => Option.Rel (AlikeMembers v v') member member' := by
  cases hdeclaration with
  | none => exact .pure h h' .none
  | some hsame =>
    unfold slotMember
    cases slot.indexType with
    | some _ => exact .pure h h' .none
    | none => exact resolveMember_matches hsnapshot h h' hsame slot.key

/-- Both classifications find nothing, or both find problems that say the same. -/
def MatchingFinds (engine : Engine) (result result' : Option Classification)
    (v v' : Workspace) : Prop :=
  Option.Rel (fun found found' => ∃ problem problem' suggestions suggestions',
    found = .problem problem suggestions ∧ found' = .problem problem' suggestions' ∧
      AlikeProblems engine.snapshot v v' problem problem') result result'

theorem classifyPlaceholder_matches (h : engine.Coherent ws) (h' : engine.Coherent ws')
    (pair : NodePair) (slot : MemberSlot) {problem problem' : Problem}
    (hproblem : AlikeProblems engine.snapshot ws ws' problem problem') :
    engine.Matches (engine.classifyPlaceholder pair slot problem)
      (engine.classifyPlaceholder pair slot problem') ws ws' engine.MatchingFinds := by
  unfold classifyPlaceholder
  refine (resolve_matches h h' _).bind fun declaration declaration' v v' hv hdeclared => ?_
  refine (slotMember_matches hsnapshot hv.left hv.right slot hdeclared).bind
    fun member member' w w' hw hmember => ?_
  have hproblem := (hproblem.grow hv.grown hv.grown').grow hw.grown hw.grown'
  have hdeclared := hw.declared hdeclared
  cases hmember with
  | @some member member' hmember =>
    refine .get_bind ?_
    dsimp only
    rw [hmember.typeNode.typeText_eq]
    split_ifs
    · exact .pure hw.left hw.right .none
    · refine .pure hw.left hw.right (.some ⟨_, _, [], [], rfl, rfl, ?_⟩)
      exact { hproblem with
        kind_eq := rfl
        comparison_eq := by simp only [clashingMember, hproblem.comparison_eq]
        missingIndex_eq := rfl
        target := hmember.nameNode
        declared := hdeclared
        properties := hproblem.properties.insert _ hproblem.source
        members := hproblem.members.insert _ hmember }
  | none =>
    refine (addDetached_matches hw.left hw.right rfl).bind
      fun carrier carrier' u u' hu hcarrier => ?_
    refine .get_bind (.pure hu.left hu.right (.some ⟨_, _, [], [], rfl, rfl, ?_⟩))
    have hproblem := hproblem.grow hu.grown hu.grown'
    have hdeclared := hu.declared hdeclared
    refine { hproblem with
      comparison_eq := by simp only [absentMember, hproblem.comparison_eq]
      missingIndex_eq := rfl
      target := ?_
      declared := hdeclared
      properties := hproblem.properties.insert _ hcarrier }
    cases hdeclared with
    | none => exact hproblem.target
    | some hsame =>
      exact hsame.alike hsnapshot hu.left.depicted hu.right.depicted hu.left.rooted hu.right.rooted

/-! ## Objects -/

theorem sourceCarriers_matches (h : engine.Coherent ws) (h' : engine.Coherent ws')
    (pair : NodePair) (shape : Shape) {declaration declaration' : Option DeclId}
    (hdeclaration : Option.Rel (SameDeclaration engine.snapshot ws ws') declaration declaration')
    (keys : List String) {carriers carriers' : Table String NodeId}
    (hcarriers : Table.Rel (Alike ws ws') carriers carriers') :
    engine.Matches (modifyGet (sourceCarriers pair shape declaration keys carriers))
      (modifyGet (sourceCarriers pair shape declaration' keys carriers')) ws ws'
      fun found found' v v' => Table.Rel (Alike v v') found found' := by
  induction keys generalizing ws ws' carriers carriers' with
  | nil => exact .pure h h' hcarriers
  | cons key keys ih =>
    have hmembers : Option.Rel (AlikeMembers ws ws')
        (declaration.bind fun id => (ws.declaration id).members.get? key)
        (declaration'.bind fun id => (ws'.declaration id).members.get? key) :=
      hdeclaration.bind fun _ _ hsame => hsame.members hsnapshot h.depicted h'.depicted key
    cases hmember : declaration.bind fun id => (ws.declaration id).members.get? key with
    | some member =>
      rw [hmember] at hmembers
      obtain ⟨member', hmember', halike⟩ := hmembers.of_left
      refine .congr ?_ ?_ (ih h h' hdeclaration (hcarriers.insert key halike.nameNode))
      · simp [sourceCarriers, hmember]
      · simp [sourceCarriers, hmember']
    | none =>
      have hmember' :
          (declaration'.bind fun id => (ws'.declaration id).members.get? key) = none := by
        simpa [hmember] using hmembers.isSome_eq
      refine .congr (sourceCarriers_cons_of_none hmember) (sourceCarriers_cons_of_none hmember') ?_
      refine (addDetached_matches h h' rfl).bind fun id id' v v' hv halike => ?_
      exact ih hv.left hv.right (hv.declared hdeclaration)
        ((hv.carriers hcarriers).insert key halike)

theorem targetMembers_matches (h : engine.Coherent ws) (h' : engine.Coherent ws') {id id' : DeclId}
    (hid : SameDeclaration engine.snapshot ws ws' id id') (keys : List String)
    {members members' : Table String Member}
    (hmembers : Table.Rel (AlikeMembers ws ws') members members') :
    engine.Matches (engine.targetMembers id keys members) (engine.targetMembers id' keys members')
      ws ws' fun found found' v v' => Table.Rel (AlikeMembers v v') found found' := by
  induction keys generalizing ws ws' members members' with
  | nil => exact .pure h h' hmembers
  | cons key keys ih =>
    refine (resolveMember_matches hsnapshot h h' hid key).bind fun found found' v v' hv hfound => ?_
    have hid := hid.grow hv.grown hv.grown'
    have hmembers := hmembers.imp fun _ _ hold => hold.grow hv.grown hv.grown'
    cases hfound with
    | none => exact ih hv.left hv.right hid hmembers
    | some hmember => exact ih hv.left hv.right hid (hmembers.insert key hmember)

theorem declaredMembers_matches (h : engine.Coherent ws) (h' : engine.Coherent ws')
    {declaration declaration' : Option DeclId}
    (hdeclaration : Option.Rel (SameDeclaration engine.snapshot ws ws') declaration declaration')
    (keys : List String) :
    engine.Matches (engine.declaredMembers declaration keys)
      (engine.declaredMembers declaration' keys) ws ws'
      fun found found' v v' => Table.Rel (AlikeMembers v v') found found' := by
  cases hdeclaration with
  | none => exact .pure h h' .empty
  | some hsame => exact targetMembers_matches hsnapshot h h' hsame keys .empty

omit hsnapshot in
theorem narrow_matches (h : engine.Coherent ws) (h' : engine.Coherent ws') (pair : NodePair)
    (target : Shape) {problem problem' : Problem}
    (hproblem : AlikeProblems engine.snapshot ws ws' problem problem') :
    engine.Matches (narrow pair target problem) (narrow pair target problem') ws ws'
      fun found found' v v' => AlikeProblems engine.snapshot v v' found found' := by
  have hkeep : engine.Matches (pure problem) (pure problem') ws ws'
      fun found found' v v' => AlikeProblems engine.snapshot v v' found found' :=
    .pure h h' hproblem
  unfold narrow
  rw [← hproblem.kind_eq, ← hproblem.comparison_eq]
  split
  · next key hkind hmismatch =>
    have hproperty := hproblem.properties.get? key
    have hmember := hproblem.members.get? key
    generalize problem.sourceProperties.get? key = property at *
    generalize problem'.sourceProperties.get? key = property' at *
    generalize problem.targetMembers.get? key = member at *
    generalize problem'.targetMembers.get? key = member' at *
    cases hproperty with
    | none => exact hkeep
    | some hproperty =>
      cases hmember with
      | some hmember => exact .pure h h' (hproblem.narrowed hproperty hmember.nameNode)
      | none =>
        refine (addDetached_matches h h' rfl).bind fun carrier carrier' v v' hv hcarrier => ?_
        exact .pure hv.left hv.right ((hproblem.grow hv.grown hv.grown').narrowed
          (hproperty.grow hv.grown hv.grown') hcarrier)
  · exact hkeep

theorem classifyObjects_matches (h : engine.Coherent ws) (h' : engine.Coherent ws')
    (pair : NodePair) (source target : Shape) {problem problem' : Problem}
    (hproblem : AlikeProblems engine.snapshot ws ws' problem problem') :
    engine.Matches (engine.classifyObjects pair source target problem)
      (engine.classifyObjects pair source target problem') ws ws' engine.MatchingFinds := by
  unfold classifyObjects
  dsimp only
  cases ProblemKind.ofComparison? (source.compare TypeText.assignable target) with
  | none => exact .pure h h' .none
  | some kind =>
    refine (resolve_matches h h' _).bind fun declared declared' v v' hv hsource => ?_
    refine (resolve_matches hv.left hv.right _).bind
      fun declaration declaration' w w' hw htarget => ?_
    refine (sourceCarriers_matches hsnapshot hw.left hw.right pair source (hw.declared hsource) _
      .empty).bind fun carriers carriers' u u' hu hcarriers => ?_
    have htarget := hu.declared htarget
    refine (declaredMembers_matches hsnapshot hu.left hu.right htarget _).bind
      fun members members' t t' ht hmembers => ?_
    have hgrown := ((hv.trans hw).trans hu).trans ht
    refine (narrow_matches ht.left ht.right pair target ?_).bind fun found found' r r' hr hfound =>
      .pure hr.left hr.right (.some ⟨_, _, [], [], rfl, rfl, hfound⟩)
    exact { hproblem.grow hgrown.grown hgrown.grown' with
      kind_eq := rfl
      comparison_eq := rfl
      declared := ht.declared htarget
      properties := ht.carriers hcarriers
      members := hmembers }

/-! ## Diagnostics -/

theorem classifyValues_matches (h : engine.Coherent ws) (h' : engine.Coherent ws')
    (pair : NodePair) {problem problem' : Problem}
    (hproblem : AlikeProblems engine.snapshot ws ws' problem problem') :
    engine.Matches (engine.classifyValues pair problem) (engine.classifyValues pair problem') ws ws'
      engine.MatchingFinds := by
  have hsimple (kind : ProblemKind) (suggestions : List Suggestion) : engine.MatchingFinds
      (some (.problem { problem with kind := kind } suggestions))
      (some (.problem { problem' with kind := kind } suggestions)) ws ws' :=
    .some ⟨_, _, _, _, rfl, rfl, { hproblem with kind_eq := rfl }⟩
  unfold classifyValues
  cases engine.snapshot.shapeOf? pair.source.typeText with
  | none =>
    cases engine.snapshot.shapeOf? pair.target.typeText with
    | none => exact .pure h h' (.some ⟨_, _, [], [], rfl, rfl, hproblem⟩)
    | some target => exact .pure h h' (hsimple _ _)
  | some source =>
    cases engine.snapshot.shapeOf? pair.target.typeText with
    | none => exact .pure h h' (hsimple _ _)
    | some target => exact classifyObjects_matches hsnapshot h h' pair source target hproblem

/-- Both classifications give a problem, and the problems say the same, or neither does. -/
def MatchingClassifications (engine : Engine) (found found' : Classification)
    (v v' : Workspace) : Prop :=
  (∃ problem problem' suggestions suggestions',
    found = .problem problem suggestions ∧ found' = .problem problem' suggestions' ∧
      AlikeProblems engine.snapshot v v' problem problem') ∨
  (∀ problem suggestions, found ≠ .problem problem suggestions) ∧
    ∀ problem suggestions, found' ≠ .problem problem suggestions

omit hsnapshot in
theorem MatchingFinds.getD {result result' : Option Classification}
    (h : engine.MatchingFinds result result' ws ws') (unsupported : Unsupported) :
    engine.MatchingClassifications (result.getD (.unsupported unsupported))
      (result'.getD (.unsupported unsupported)) ws ws' := by
  cases h with
  | none => exact .inr ⟨fun _ _ h => (by cases h), fun _ _ h => (by cases h)⟩
  | some hfound => exact .inl hfound

theorem classify_matches (h : engine.Coherent ws) (h' : engine.Coherent ws') {pair : NodePair}
    (hpair : pair ∈ engine.snapshot.pairs) (code : UInt32) :
    engine.Matches (engine.classify code pair) (engine.classify code pair) ws ws'
      engine.MatchingClassifications := by
  have hneither (entry : Unsupported) (v v' : Workspace) :
      engine.MatchingClassifications (.unsupported entry) (.unsupported entry) v v' :=
    .inr ⟨fun _ _ h => (by cases h), fun _ _ h => (by cases h)⟩
  have hchain := Strict.enclosingChain_subset engine.snapshot engine.options.maxLayerDepth pair
  unfold classify
  dsimp only
  cases Family.ofCode? code with
  | none => exact .pure h h' (hneither _ _ _)
  | some family =>
    refine (ensureFile_matches h h' _).bind fun _ _ v v' hv _ => ?_
    refine (internOuter_matches hsnapshot hv.left hv.right
      fun outer hmem => hchain (List.mem_reverse.1 hmem)).bind fun outer outer' w w' hw houter => ?_
    refine (internLayer_matches hsnapshot hw.left hw.right hpair _).bind
      fun inner inner' u u' hu hinner => ?_
    have hopen (kind : ProblemKind) (functionName : Option String) :
        AlikeProblems engine.snapshot u u' (openProblem code kind outer inner functionName)
          (openProblem code kind outer' inner' functionName) :=
      ⟨rfl, rfl, rfl, hinner.source, hinner.target,
        List.rel_append (houter.imp fun _ _ hlayer => hlayer.grow hu.grown hu.grown')
          (.cons hinner .nil), .none, .empty, .empty⟩
    cases pair.source.placeholder with
    | some slot =>
      exact (classifyPlaceholder_matches hsnapshot hu.left hu.right pair slot (hopen _ _)).bind
        fun result result' t t' ht hresult => .pure ht.left ht.right (hresult.getD _)
    | none =>
      dsimp only
      split_ifs
      · exact .pure hu.left hu.right (hneither _ _ _)
      · exact (classifyValues_matches hsnapshot hu.left hu.right pair (hopen _ _)).bind
          fun result result' t t' ht hresult => .pure ht.left ht.right (hresult.getD _)

end Unanimous

/-! ## Diagnostics whose place is not noted -/

/-- A place that is not noted becomes so, and no other does. -/
theorem note_of_fresh (h : engine.Coherent ws) {file : String} {offset : Nat}
    (hfresh : ¬Noted ws.files (file, offset)) {fresh : Bool}
    (hrun : (ensureFile engine.store file >>= fun _ =>
      modifyGet fun ws => ws.markProcessed file offset : Action Bool) ws = .ok fresh v) :
    fresh = true ∧ engine.Coherent v ∧ Extends ws v ∧
      ∀ place, Noted v.files place → Noted ws.files place ∨ place = (file, offset) := by
  obtain ⟨_, ws₁, hensure, hmarked⟩ := ok_of_bind_eq_ok hrun
  obtain ⟨buffer, hbuffer⟩ := loaded_of_ensureFile hensure
  have hruns : Runs engine.anywhere (ensureFile engine.store file) ws _ := ensureFile_runs file
  have hevolves := (hruns.of_ok hensure).1
  have hquiet : Quietens engine.snapshot ws ws₁ := (ensureFile_quietly _ _).of_ok hensure
  have hmark : Evolves engine.anywhere ws₁ (ws₁.markProcessed file offset).2 :=
    markProcessed_evolves file offset
  have hcoherent := (h.quietens hevolves hquiet).evolves hmark
    (markProcessed_depicted (hquiet.depicted h.depicted) file offset)
  have hextends := hevolves.extends.trans hmark.extends
  have hnew : offset ∉ buffer.processed := fun hmem =>
    hfresh (hquiet.noted ⟨buffer, hbuffer, hmem⟩)
  rw [modifyGet_apply] at hmarked
  rw [markProcessed_of_loaded hbuffer, if_neg hnew] at hmarked hcoherent hextends
  cases hmarked
  refine ⟨rfl, hcoherent, hextends, fun place hnoted => ?_⟩
  obtain ⟨other, hother, hmem⟩ := hnoted
  rw [withFiles_files, Table.get?_insert] at hother
  split_ifs at hother with hfile
  · cases hother
    rcases List.mem_cons.1 hmem with hoffset | hmem
    · exact .inr (Prod.ext hfile hoffset)
    · exact .inl (hquiet.noted ⟨buffer, hfile ▸ hbuffer, hmem⟩)
  · exact .inl (hquiet.noted ⟨other, hother, hmem⟩)

/-- A diagnostic whose place is noted on neither side is classified in the same way. -/
theorem classifyDiagnostic_matches (hsnapshot : engine.snapshot.Unanimous)
    (h : engine.Coherent ws) (h' : engine.Coherent ws') {diagnostic : Diagnostic}
    (hfresh : ∀ place ∈ engine.place? diagnostic, ¬Noted ws.files place)
    (hfresh' : ∀ place ∈ engine.place? diagnostic, ¬Noted ws'.files place) :
    engine.Matches (engine.classifyDiagnostic diagnostic) (engine.classifyDiagnostic diagnostic)
      ws ws' engine.MatchingClassifications := by
  unfold classifyDiagnostic
  unfold place? at hfresh hfresh'
  cases hpair : engine.snapshot.locate? diagnostic.file diagnostic.start with
  | none => exact .pure h h' (.inr ⟨fun _ _ h => (by cases h), fun _ _ h => (by cases h)⟩)
  | some pair =>
    rw [hpair] at hfresh hfresh'
    dsimp only
    rw [← bind_assoc]
    refine Matches.bind (R := fun fresh fresh' _ _ => fresh = true ∧ fresh' = true)
      (fun fresh fresh' v v' hleft hright => ?_) fun fresh fresh' v v' hv hboth => ?_
    · obtain ⟨hnew, hcoherent, hextends, -⟩ := note_of_fresh h (hfresh _ rfl) hleft
      obtain ⟨hnew', hcoherent', hextends', -⟩ := note_of_fresh h' (hfresh' _ rfl) hright
      exact ⟨⟨hcoherent, hcoherent', hextends, hextends'⟩, hnew, hnew'⟩
    · obtain ⟨rfl, rfl⟩ := hboth
      exact classify_matches hsnapshot hv.left hv.right (Strict.mem_of_locate? hpair) _

/-- Classifying a diagnostic notes no place but its own. -/
theorem classifyDiagnostic_noted (h : engine.Coherent ws) {diagnostic : Diagnostic}
    (hfresh : ∀ place ∈ engine.place? diagnostic, ¬Noted ws.files place)
    {found : Classification} (hrun : engine.classifyDiagnostic diagnostic ws = .ok found v)
    {place : Place} (hnoted : Noted v.files place) :
    Noted ws.files place ∨ engine.place? diagnostic = some place := by
  unfold classifyDiagnostic at hrun
  unfold place? at hfresh ⊢
  cases hpair : engine.snapshot.locate? diagnostic.file diagnostic.start with
  | none =>
    rw [hpair] at hrun
    cases hrun
    exact .inl hnoted
  | some pair =>
    rw [hpair] at hrun hfresh
    dsimp only at hrun
    rw [← bind_assoc] at hrun
    obtain ⟨fresh, ws₁, hnote, hrest⟩ := ok_of_bind_eq_ok hrun
    obtain ⟨rfl, -, -, honly⟩ := note_of_fresh h (hfresh _ rfl) hnote
    have hquiet := (classify_quietly (Strict.mem_of_locate? hpair) _).of_ok hrest
    exact (honly place (hquiet.noted hnoted)).imp id fun heq => by rw [heq]; rfl

end Engine

end TypeMend
