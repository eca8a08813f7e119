import TypeMend.Proofs.Alongside
import TypeMend.Proofs.Classified
import TypeMend.Proofs.Findings

/-!
# What a snapshot says of a node

A snapshot may describe a node several times: as a side of a pair or of a layer, as a written type,
as a declaration, or as the name or the type of a member. A workspace keeps the description that it
met first. If all descriptions of one key agree, then it does not matter which one that was: a
shared node has the content that the snapshot gives its key. To see this, the steps of a session are
looked at more closely than before. `Quiet` steps share described nodes only and note no place, and
classification takes no others once it has noted its own place.
-/
namespace TypeMend

open Workspace

/-- What a snapshot says of a node in one place. -/
structure Description where
  key : NodeKey
  text : String
  typeText : String
  isFunction : Bool
  /-- The annotation that declares the type of the node, if one is written. -/
  writtenType : Option SourceSpan
  deriving DecidableEq

/-- The written type of a member. -/
def MemberDeclaration.annotation (file : String) (member : MemberDeclaration) : SourceSpan :=
  ⟨file, member.typeStart, member.typeStop, member.typeText⟩

namespace Description

/-- The node of a description whose written type has a number. -/
def node (description : Description) (written : Option NodeId) : Node where
  file := description.key.file
  start := description.key.start
  stop := description.key.stop
  text := description.text
  typeText := description.typeText
  kindName := description.key.kindName
  isFunction := description.isFunction
  isPlaceholder := description.key.isPlaceholder
  declaration := written

/-- What a written type says of its own node. -/
def ofSpan (span : SourceSpan) : Description :=
  ⟨(spanNode span "TypeAnnotation").key, span.text, span.text, false, none⟩

/-- What a side of a pair says of its node. -/
def ofSource (node : SourceNode) : Description :=
  ⟨sourceKey node, node.text, node.typeText, node.isFunction, node.writtenType⟩

/-- What a declaration says of its own node. -/
def ofDeclaration (declaration : Declaration) : Description :=
  ⟨(declarationNode declaration).key, declaration.name, declaration.name, false, none⟩

/-- What a member says of the node of its name. -/
def ofMember (file : String) (member : MemberDeclaration) : Description :=
  ⟨(memberNameNode file member 0).key, member.name, member.typeText, false,
    some (member.annotation file)⟩

end Description

/-- The descriptions that a side of a pair gives. -/
def SourceNode.descriptions (node : SourceNode) : List Description :=
  .ofSource node :: node.writtenType.toList.map .ofSpan

/-- The descriptions that a declaration gives. -/
def Declaration.descriptions (declaration : Declaration) : List Description :=
  .ofDeclaration declaration :: declaration.members.flatMap fun member =>
    [.ofMember declaration.file member, .ofSpan (member.annotation declaration.file)]

namespace Snapshot

variable {snapshot : Snapshot}

def descriptions (snapshot : Snapshot) : List Description :=
  (snapshot.pairs.flatMap fun pair => pair.source.descriptions ++ pair.target.descriptions) ++
    snapshot.declarations.flatMap Declaration.descriptions

/-- All descriptions of one key agree. -/
def Unanimous (snapshot : Snapshot) : Prop :=
  ∀ one ∈ snapshot.descriptions, ∀ other ∈ snapshot.descriptions, one.key = other.key → one = other

instance (snapshot : Snapshot) : Decidable snapshot.Unanimous :=
  inferInstanceAs (Decidable (∀ one ∈ snapshot.descriptions, ∀ other ∈ snapshot.descriptions,
    one.key = other.key → one = other))

theorem descriptions_of_pair {pair : NodePair} (h : pair ∈ snapshot.pairs) :
    pair.source.descriptions ⊆ snapshot.descriptions ∧
      pair.target.descriptions ⊆ snapshot.descriptions := by
  have hpair : ∀ description ∈ pair.source.descriptions ++ pair.target.descriptions,
      description ∈ snapshot.descriptions := fun description hmem =>
    List.mem_append_left _ (List.mem_flatMap.2 ⟨pair, h, hmem⟩)
  exact ⟨fun _ hmem => hpair _ (List.mem_append_left _ hmem),
    fun _ hmem => hpair _ (List.mem_append_right _ hmem)⟩

theorem descriptions_of_declaration {declaration : Declaration}
    (h : declaration ∈ snapshot.declarations) :
    declaration.descriptions ⊆ snapshot.descriptions :=
  fun _ hmem => List.mem_append_right _ (List.mem_flatMap.2 ⟨declaration, h, hmem⟩)

/-- The written type of a description is described itself. -/
theorem mem_descriptions_of_writtenType {description : Description} {span : SourceSpan}
    (h : description ∈ snapshot.descriptions) (hspan : description.writtenType = some span) :
    Description.ofSpan span ∈ snapshot.descriptions := by
  have hsource {node : SourceNode} (hnode : node.descriptions ⊆ snapshot.descriptions)
      (hmem : description ∈ node.descriptions) :
      Description.ofSpan span ∈ snapshot.descriptions := by
    refine hnode ?_
    rcases List.mem_cons.1 hmem with rfl | hwritten
    · have hwritten : node.writtenType = some span := hspan
      simp [SourceNode.descriptions, hwritten]
    · obtain ⟨other, -, rfl⟩ := List.mem_map.1 hwritten
      cases hspan
  rcases List.mem_append.1 h with hpairs | hdeclarations
  · obtain ⟨pair, hpair, hmem⟩ := List.mem_flatMap.1 hpairs
    obtain ⟨hfirst, hsecond⟩ := descriptions_of_pair hpair
    rcases List.mem_append.1 hmem with hmem | hmem
    · exact hsource hfirst hmem
    · exact hsource hsecond hmem
  · obtain ⟨declaration, hdeclaration, hmem⟩ := List.mem_flatMap.1 hdeclarations
    refine descriptions_of_declaration hdeclaration ?_
    rcases List.mem_cons.1 hmem with rfl | hmember
    · cases hspan
    · obtain ⟨member, hin, hmem⟩ := List.mem_flatMap.1 hmember
      refine List.mem_cons_of_mem _ (List.mem_flatMap.2 ⟨member, hin, ?_⟩)
      rcases List.mem_pair.1 hmem with rfl | rfl
      · cases hspan
        simp
      · cases hspan

end Snapshot

/-! ## Quiet steps -/

namespace Workspace

variable {snapshot : Snapshot} {ws ws' : Workspace}

/-- The written type of a description has a number, if there is one. -/
def Written (ws : Workspace) (description : Description) (written : Option NodeId) : Prop :=
  Option.Rel (fun span id => ws.index.get? (Description.ofSpan span).key = some id)
    description.writtenType written

/-- A step that shares a described node, or that neither shares a node nor notes a place. -/
inductive Quiet (snapshot : Snapshot) : Workspace → Workspace → Prop
  | load {ws : Workspace} {file : String} (fresh : ws.files.get? file = none) (text : String) :
      Quiet snapshot ws { ws with files := ws.files.insert file ⟨text, []⟩ }
  | intern {ws : Workspace} {description : Description} {written : Option NodeId}
      (described : description ∈ snapshot.descriptions) (known : ws.Written description written) :
      Quiet snapshot ws (ws.intern (description.node written)).2
  | detach (ws : Workspace) (node : Node) : Quiet snapshot ws (ws.addDetached node).2
  | declare (ws : Workspace) (declarations : Array DeclarationEntry)
      (declarationIndex : Table String DeclId) (unresolved : List String) :
      Quiet snapshot ws { ws with
        declarations := declarations
        declarationIndex := declarationIndex
        unresolved := unresolved }

/-- Quiet steps one after the other. -/
abbrev Quietens (snapshot : Snapshot) : Workspace → Workspace → Prop :=
  Relation.ReflTransGen (Quiet snapshot)

/-- An action takes quiet steps only, whether it succeeds or fails. -/
def Quietly {α : Type} (snapshot : Snapshot) (x : Action α) : Prop :=
  ∀ ws, Quietens snapshot ws (after x ws)

namespace Quietly

variable {α β : Type} {x : Action α} {f : α → Action β}

theorem pure (a : α) : Quietly snapshot (pure a) :=
  fun _ => .refl

theorem preserves (hx : Quietly snapshot x) (ws : Workspace) :
    Preserves (Quietens snapshot ws) x :=
  fun ws' h => h.trans (hx ws')

theorem bind (hx : Quietly snapshot x) (hf : ∀ a, Quietly snapshot (f a)) :
    Quietly snapshot (x >>= f) :=
  fun ws => (hx.preserves ws).bind (fun a => (hf a).preserves ws) ws .refl

theorem get_bind {f : Workspace → Action β} (hf : ∀ ws, Quietly snapshot (f ws)) :
    Quietly snapshot (get >>= f) :=
  fun ws => hf ws ws

theorem modifyGet {g : Workspace → α × Workspace} (hg : ∀ ws, Quietens snapshot ws (g ws).2) :
    Quietly snapshot (modifyGet g) :=
  hg

theorem compositional (snapshot : Snapshot) : Compositional (Quietly snapshot) where
  pure := pure
  bind := bind
  get_bind _ hf := get_bind hf

theorem of_ok (hx : Quietly snapshot x) {a : α} (h : x ws = .ok a ws') :
    Quietens snapshot ws ws' := by
  have hquiet := hx ws
  unfold after at hquiet
  rwa [h] at hquiet

end Quietly

theorem ensureFile_quietly (store : Store) (file : String) :
    Quietly snapshot (ensureFile store file) := by
  intro ws
  unfold after ensureFile
  split_ifs with hloaded
  · exact .refl
  · have hfresh : ws.files.get? file = none := by
      simpa [Table.contains] using hloaded
    cases store file with
    | ok text => exact .single (.load hfresh text)
    | error fault => exact .refl

theorem internSource_quietens {node : SourceNode}
    (hnode : node.descriptions ⊆ snapshot.descriptions) (ws : Workspace) :
    Quietens snapshot ws (ws.internSource node).2 := by
  have hself : Description.ofSource node ∈ snapshot.descriptions := hnode List.mem_cons_self
  unfold internSource
  cases hwritten : node.writtenType with
  | none =>
    have hknown : ws.Written (.ofSource node) none := by
      simp only [Written, Description.ofSource, hwritten]
      exact .none
    exact .single (.intern hself hknown)
  | some span =>
    have hspan := Snapshot.mem_descriptions_of_writtenType hself hwritten
    have hknown : (ws.internSpan span "TypeAnnotation").2.Written (.ofSource node)
        (some (ws.internSpan span "TypeAnnotation").1) := by
      simp only [Written, Description.ofSource, hwritten]
      exact .some (index_intern ws _)
    exact .tail (.single (.intern hspan .none)) (.intern hself hknown)

/-! ## Declarations -/

theorem internMembers_quietens {declaration : Declaration}
    (h : declaration ∈ snapshot.declarations) (owner : DeclId) {list : List MemberDeclaration}
    (hlist : list ⊆ declaration.members) (members : Table String Member) (ws : Workspace) :
    Quietens snapshot ws (internMembers owner declaration.file list members ws).2 := by
  induction list generalizing members ws with
  | nil => exact .refl
  | cons member rest ih =>
    have hmember : member ∈ declaration.members := hlist List.mem_cons_self
    have hname : Description.ofMember declaration.file member ∈ snapshot.descriptions :=
      Snapshot.descriptions_of_declaration h
        (List.mem_cons_of_mem _ (List.mem_flatMap.2 ⟨member, hmember, by simp⟩))
    have htype := Snapshot.mem_descriptions_of_writtenType hname rfl
    have hknown : (ws.intern (memberTypeNode declaration.file member)).2.Written
        (.ofMember declaration.file member)
        (some (ws.intern (memberTypeNode declaration.file member)).1) :=
      .some (index_intern ws _)
    have hfirst : Quietens snapshot ws (ws.internMember owner declaration.file member).2 :=
      .tail (.single (.intern htype .none)) (.intern hname hknown)
    exact hfirst.trans (ih (fun other hother => hlist (List.mem_cons_of_mem _ hother)) _ _)

theorem register_quietens {declaration : Declaration} (h : declaration ∈ snapshot.declarations)
    (ws : Workspace) : Quietens snapshot ws (ws.register declaration).2 := by
  have hself : Description.ofDeclaration declaration ∈ snapshot.descriptions :=
    Snapshot.descriptions_of_declaration h List.mem_cons_self
  unfold register
  cases ws.declarationIndex.get? declaration.name with
  | some id => exact .refl
  | none =>
    have hmembers := internMembers_quietens h ws.declarations.size (List.Subset.refl _) ∅
      (ws.intern (declarationNode declaration)).2
    exact .tail (.head (.intern hself .none) hmembers) (.declare _ _ _ _)

theorem resolve_quietly (store : Store) (typeText : String) :
    Quietly snapshot (resolve snapshot store typeText) := by
  intro ws
  have hensure (declaration : Declaration) :
      Quietens snapshot ws (after (ensureFile store declaration.file) ws) :=
    ensureFile_quietly store declaration.file ws
  unfold after at hensure ⊢
  rw [resolve_eq]
  cases ws.declarationIndex.get? typeText with
  | some id => exact .refl
  | none =>
    dsimp only
    split_ifs
    · exact .refl
    · cases hfound : snapshot.declarationOf? typeText with
      | none => exact .single (.declare _ _ _ _)
      | some declaration =>
        have hfirst := hensure declaration
        cases hload : ensureFile store declaration.file ws with
        | error failure ws₁ =>
          simp only [hload] at hfirst ⊢
          exact hfirst
        | ok _ ws₁ =>
          simp only [hload] at hfirst ⊢
          have hregister := register_quietens (Snapshot.mem_of_declarationOf? hfound) ws₁
          exact .tail (hfirst.trans hregister) (.declare _ _ _ _)

theorem resolveMember_quietly (store : Store) (id : DeclId) (key : String) :
    Quietly snapshot (resolveMember snapshot store id key) :=
  (Quietly.compositional snapshot).resolveMember (resolve_quietly store) id key

end Workspace

/-! ## Classification -/

namespace Engine

variable {engine : Engine} {pair : NodePair}

theorem internLayer_quietly {snapshot : Snapshot} (h : pair ∈ snapshot.pairs) (kind : LayerKind) :
    Quietly snapshot (internLayer kind pair) := by
  obtain ⟨hsource, htarget⟩ := Snapshot.descriptions_of_pair h
  refine (Quietly.modifyGet (internSource_quietens hsource)).bind fun _ => ?_
  exact (Quietly.modifyGet (internSource_quietens htarget)).bind fun _ => .pure _

theorem quietly_operational (engine : Engine) : Operational engine (Quietly engine.snapshot) where
  toCompositional := Quietly.compositional engine.snapshot
  ensureFile := ensureFile_quietly engine.store
  resolve := resolve_quietly engine.store
  addDetached node := Quietly.modifyGet fun ws => .single (.detach ws node)

/-- Classifying a pair of the snapshot takes quiet steps only. -/
theorem classify_quietly (h : pair ∈ engine.snapshot.pairs) (code : UInt32) :
    Quietly engine.snapshot (engine.classify code pair) :=
  (quietly_operational engine).classify code (internLayer_quietly h) fun _ houter =>
    internLayer_quietly (Strict.enclosingChain_subset engine.snapshot _ pair houter)

end Engine

/-! ## Workspaces that show what is described -/

namespace Workspace

variable {snapshot : Snapshot} {s : Setting} {ws ws' : Workspace}

/-- A number has the node of a description of its key. -/
structure Shows (snapshot : Snapshot) (ws : Workspace) (key : NodeKey) (id : NodeId)
    (description : Description) (written : Option NodeId) : Prop where
  lt : id < ws.nodes.size
  mem : description ∈ snapshot.descriptions
  key_eq : description.key = key
  node_eq : ws.node id = description.node written
  known : ws.Written description written

/-- Every shared node is one that the snapshot describes. -/
def Depicted (snapshot : Snapshot) (ws : Workspace) : Prop :=
  ∀ key id, ws.index.get? key = some id → ∃ description written,
    ws.Shows snapshot key id description written

theorem depicted_empty (snapshot : Snapshot) : Depicted snapshot ∅ :=
  fun _ _ h => by cases h

/-- What is shown is still shown when nodes are added, and keys with them. -/
theorem Depicted.grow (h : Depicted snapshot ws) (hsize : ws.nodes.size ≤ ws'.nodes.size)
    (hnode : ∀ id, id < ws.nodes.size → ws'.node id = ws.node id)
    (hindex : ∀ key id, ws.index.get? key = some id → ws'.index.get? key = some id)
    (hnew : ∀ key id, ws'.index.get? key = some id → ws.index.get? key = some id ∨
      ∃ description written, ws'.Shows snapshot key id description written) :
    Depicted snapshot ws' := by
  intro key id hid
  rcases hnew key id hid with hold | hshows
  · obtain ⟨description, written, hshows⟩ := h key id hold
    exact ⟨description, written, hshows.lt.trans_le hsize, hshows.mem, hshows.key_eq,
      (hnode id hshows.lt).trans hshows.node_eq,
      hshows.known.imp fun span number hnumber => hindex _ _ hnumber⟩
  · exact hshows

theorem Depicted.of_eq (h : Depicted snapshot ws) (hnodes : ws'.nodes = ws.nodes)
    (hindex : ws'.index = ws.index) : Depicted snapshot ws' := by
  refine h.grow (by rw [hnodes]) (fun id _ => by rw [Workspace.node, Workspace.node, hnodes])
    (fun key id hid => by rw [hindex, hid]) fun key id hid => .inl ?_
  rw [← hindex, hid]

theorem Quiet.depicted (h : Quiet snapshot ws ws') (hd : Depicted snapshot ws) :
    Depicted snapshot ws' := by
  cases h with
  | load fresh text => exact hd.of_eq rfl rfl
  | declare declarations declarationIndex unresolved => exact hd.of_eq rfl rfl
  | detach node =>
    refine hd.grow (by simp [addDetached]) (fun id hid => getD_push_of_lt _ _ _ hid)
      (fun _ _ hid => hid) fun _ _ hid => .inl hid
  | @intern description written described known =>
    unfold Workspace.intern
    cases hfound : ws.index.get? (description.node written).key with
    | some id => exact hd
    | none =>
      -- The key is new, so that the other keys and the written type are found as before.
      have hold (key : NodeKey) (id : NodeId) (hid : ws.index.get? key = some id) :
          (ws.index.insert (description.node written).key ws.nodes.size).get? key = some id := by
        rw [Table.get?_insert_of_ne _ (fun heq => by rw [heq, hfound] at hid; cases hid), hid]
      refine hd.grow (by simp) (fun id hid => getD_push_of_lt _ _ _ hid) hold
        fun key id hid => ?_
      rw [Table.get?_insert] at hid
      split_ifs at hid with hkey
      · cases hid
        exact .inr ⟨description, written, by simp, described, hkey.symm,
          getD_push_of_ge _ _ _ le_rfl (by simp), known.imp fun span number => hold _ _⟩
      · exact .inl hid

theorem Quietens.depicted (h : Quietens snapshot ws ws') (hd : Depicted snapshot ws) :
    Depicted snapshot ws' := by
  induction h with
  | refl => exact hd
  | tail _ hstep ih => exact hstep.depicted ih

theorem markProcessed_depicted (hd : Depicted snapshot ws) (file : String) (offset : Nat) :
    Depicted snapshot (ws.markProcessed file offset).2 := by
  obtain ⟨files, unbuffered, heq, -⟩ := markProcessed_eq ws file offset
  rw [heq]
  exact hd.of_eq rfl rfl

/-- Quiet steps note no place. -/
theorem Quiet.noted {place : Place} (h : Quiet snapshot ws ws') (hnoted : Noted ws'.files place) :
    Noted ws.files place := by
  cases h with
  | declare declarations declarationIndex unresolved => exact hnoted
  | detach node => exact hnoted
  | @intern description written described known =>
    unfold Workspace.intern at hnoted
    split at hnoted <;> exact hnoted
  | @load file fresh text =>
    obtain ⟨buffer, hbuffer, hmem⟩ := hnoted
    rw [Table.get?_insert] at hbuffer
    split_ifs at hbuffer with hfile
    · cases hbuffer
      cases hmem
    · exact ⟨buffer, hbuffer, hmem⟩

theorem Quietens.noted {place : Place} (h : Quietens snapshot ws ws')
    (hnoted : Noted ws'.files place) : Noted ws.files place := by
  induction h with
  | refl => exact hnoted
  | tail _ hstep ih => exact ih (hstep.noted hnoted)

/-! ## The nodes of declarations and the texts of files -/

/-- Every registered declaration has the node of a declaration of the snapshot. -/
def Rooted (snapshot : Snapshot) (ws : Workspace) : Prop :=
  ∀ id, id < ws.declarations.size → ∃ declaration, snapshot.Named declaration ∧
    (ws.declaration id).name = declaration.name ∧
    ws.index.get? (declarationNode declaration).key = some (ws.declaration id).node

/-- Every loaded text is that of the store. -/
def ReadFrom (store : Store) (ws : Workspace) : Prop :=
  ∀ file text, ws.fileText? file = some text → store file = .ok text

theorem Step.rooted (h : Step s ws ws') (hr : Rooted s.snapshot ws) : Rooted s.snapshot ws' := by
  have hext := h.extends
  have hold : ∀ id, id < ws.declarations.size → ∃ declaration, s.snapshot.Named declaration ∧
      (ws'.declaration id).name = declaration.name ∧
      ws'.index.get? (declarationNode declaration).key = some (ws'.declaration id).node := by
    intro id hid
    obtain ⟨declaration, hnamed, hname, hnode⟩ := hr id hid
    rw [hext.declaration_eq id hid]
    exact ⟨declaration, hnamed, hname, hext.index_eq _ _ hnode⟩
  cases h with
  | load _ _ => exact hold
  | mark file offset =>
    obtain ⟨files, unbuffered, heq, -⟩ := markProcessed_eq ws file offset
    rw [heq] at hold ⊢
    exact hold
  | intern _ _ => exact hold
  | detach _ => exact hold
  | miss _ => exact hold
  | link _ _ _ => exact hold
  | @declare declaration entry named _ described =>
    intro id hid
    rcases Nat.lt_or_ge id ws.declarations.size with hlt | hge
    · exact hold id hlt
    · rw [Workspace.declaration, getD_push_of_ge _ _ _ hge hid]
      exact ⟨declaration, named, described.name_eq, described.node_eq⟩

theorem Step.readFrom (h : Step s ws ws') (hr : ReadFrom s.store ws) : ReadFrom s.store ws' := by
  cases h with
  | @load file text fresh read =>
    intro other found hfound
    rw [fileText?, Table.get?_insert] at hfound
    split_ifs at hfound with hother
    · cases hfound
      rw [hother, read]
    · exact hr other found hfound
  | mark file offset =>
    obtain ⟨files, unbuffered, heq, htexts⟩ := markProcessed_eq ws file offset
    rw [heq]
    exact fun other found hfound => hr other found ((htexts other).symm.trans hfound)
  | intern _ _ => exact hr
  | detach _ => exact hr
  | miss _ => exact hr
  | declare _ _ _ => exact hr
  | link _ _ _ => exact hr

theorem Evolves.rooted (h : Evolves s ws ws') (hr : Rooted s.snapshot ws) :
    Rooted s.snapshot ws' := by
  induction h with
  | refl => exact hr
  | tail _ hstep ih => exact hstep.rooted ih

theorem Evolves.readFrom (h : Evolves s ws ws') (hr : ReadFrom s.store ws) :
    ReadFrom s.store ws' := by
  induction h with
  | refl => exact hr
  | tail _ hstep ih => exact hstep.readFrom ih

end Workspace

namespace Engine

variable {engine : Engine} {ws ws' : Workspace}

/-- What holds of every workspace of an engine: its numbers are good, its memories are true, its
nodes are those of the snapshot and its texts those of the store. -/
structure Coherent (engine : Engine) (ws : Workspace) : Prop extends engine.Consistent ws where
  depicted : Depicted engine.snapshot ws
  rooted : Rooted engine.snapshot ws
  readFrom : ReadFrom engine.store ws

theorem coherent_empty (engine : Engine) : engine.Coherent ∅ where
  toConsistent := consistent_empty engine
  depicted := depicted_empty _
  rooted _ hid := absurd hid (Nat.not_lt_zero _)
  readFrom _ _ h := by cases h

theorem Coherent.evolves (h : engine.Coherent ws) (hevolves : Evolves engine.anywhere ws ws')
    (hdepicted : Depicted engine.snapshot ws') : engine.Coherent ws' where
  toConsistent := h.toConsistent.evolves hevolves
  depicted := hdepicted
  rooted := hevolves.rooted h.rooted
  readFrom := hevolves.readFrom h.readFrom

theorem Coherent.quietens (h : engine.Coherent ws) (hevolves : Evolves engine.anywhere ws ws')
    (hquiet : Quietens engine.snapshot ws ws') : engine.Coherent ws' :=
  h.evolves hevolves (Quietens.depicted hquiet h.depicted)

end Engine

end TypeMend
