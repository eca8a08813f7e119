import Mathlib.Logic.Relation
import TypeMend.Proofs.Inheritance
import TypeMend.Workspace.Declaration

/-!
# How a workspace grows

Everything a session does to its workspace is a sequence of seven kinds of step: it loads a file,
notes an offset, adds a shared or a detached node, notes that a type has no declaration, adds a
declaration, or files a known declaration under a further text. No step takes anything back, so
numbers, texts and look-ups stay good. What holds of every workspace of a session is proved here
step by step: `Sound` says that every number a workspace holds is one that it has given out, and
that the file of every node is loaded unless a written type lies in it.
-/
namespace TypeMend.Workspace

/-- What a session works against. -/
structure Setting where
  snapshot : Snapshot
  store : Store
  /-- Holds of the files in which written types may lie. -/
  outside : String → Prop

def Loaded (ws : Workspace) (file : String) : Prop :=
  ∃ text, ws.fileText? file = some text

/-- A node may be added: the node of its written type is there, and its file is loaded unless a
written type lies in it. -/
structure Admits (outside : String → Prop) (ws : Workspace) (node : Node) : Prop where
  written_lt : ∀ id, node.declaration = some id → id < ws.nodes.size
  file_loaded : ws.Loaded node.file ∨ outside node.file

theorem admits_of_unwritten {outside : String → Prop} {ws : Workspace} {node : Node}
    (hnone : node.declaration = none) (hfile : ws.Loaded node.file ∨ outside node.file) :
    ws.Admits outside node :=
  ⟨fun id hid => by simp [hnone] at hid, hfile⟩

theorem admits_of_written {outside : String → Prop} {ws : Workspace} {node : Node}
    {written : NodeId} (hsome : node.declaration = some written) (hlt : written < ws.nodes.size)
    (hfile : ws.Loaded node.file ∨ outside node.file) : ws.Admits outside node := by
  refine ⟨fun id hid => ?_, hfile⟩
  rw [hsome] at hid
  cases hid
  exact hlt

/-- The workspace has the nodes of a member that a declaration writes. -/
structure Writes (ws : Workspace) (owner : DeclId) (file : String) (written : MemberDeclaration)
    (member : Member) : Prop where
  name_eq : member.name = written.name
  optional_eq : member.optional = written.optional
  owner_eq : member.owner = owner
  typeNode_eq : ws.index.get? (memberTypeNode file written).key = some member.typeNode
  nameNode_eq : ws.index.get? (memberNameNode file written member.typeNode).key =
    some member.nameNode

/-- A table has exactly the members of a list, each under its name and the last where several
have one name. -/
def Lists (ws : Workspace) (owner : DeclId) (file : String) (list : List MemberDeclaration)
    (members : Table String Member) : Prop :=
  ∀ key, Option.Rel (ws.Writes owner file) (MemberDeclaration.last? list key) (members.get? key)

theorem Lists.exists_writes {ws : Workspace} {owner : DeclId} {file : String}
    {list : List MemberDeclaration} {members : Table String Member}
    (h : ws.Lists owner file list members) {key : String} {member : Member}
    (hmember : members.get? key = some member) :
    ∃ written, MemberDeclaration.last? list key = some written ∧
      ws.Writes owner file written member := by
  exact (hmember ▸ h key).of_right

/-- An entry for a declaration may be added: its nodes are there, and its members are those that
the declaration writes. -/
structure Describes (ws : Workspace) (declaration : Declaration) (entry : DeclarationEntry) :
    Prop where
  name_eq : entry.name = declaration.name
  bases_eq : entry.bases = declaration.bases
  node_eq : ws.index.get? (declarationNode declaration).key = some entry.node
  lists : ws.Lists ws.declarations.size declaration.file declaration.members entry.members

inductive Step (s : Setting) : Workspace → Workspace → Prop
  | load {ws : Workspace} {file text : String} (fresh : ws.files.get? file = none)
      (read : s.store file = .ok text) :
      Step s ws { ws with files := ws.files.insert file ⟨text, []⟩ }
  | mark (ws : Workspace) (file : String) (offset : Nat) :
      Step s ws (ws.markProcessed file offset).2
  | intern {ws : Workspace} {node : Node} (fresh : ws.index.get? node.key = none)
      (admitted : ws.Admits s.outside node) :
      Step s ws { ws with
        nodes := ws.nodes.push node
        index := ws.index.insert node.key ws.nodes.size }
  | detach {ws : Workspace} {node : Node} (admitted : ws.Admits s.outside node) :
      Step s ws { ws with nodes := ws.nodes.push node }
  | miss {ws : Workspace} {typeText : String}
      (unknown : s.snapshot.declarationOf? typeText = none) :
      Step s ws { ws with unresolved := typeText :: ws.unresolved }
  | declare {ws : Workspace} {declaration : Declaration} {entry : DeclarationEntry}
      (named : s.snapshot.Named declaration)
      (fresh : ws.declarationIndex.get? declaration.name = none)
      (described : ws.Describes declaration entry) :
      Step s ws { ws with
        declarations := ws.declarations.push entry
        declarationIndex := ws.declarationIndex.insert declaration.name ws.declarations.size }
  | link {ws : Workspace} {typeText : String} {declaration : Declaration} {id : DeclId}
      (found : s.snapshot.declarationOf? typeText = some declaration)
      (known : ws.declarationIndex.get? declaration.name = some id)
      (agrees : ∀ old, ws.declarationIndex.get? typeText = some old → old = id) :
      Step s ws { ws with declarationIndex := ws.declarationIndex.insert typeText id }

abbrev Evolves (s : Setting) : Workspace → Workspace → Prop :=
  Relation.ReflTransGen (Step s)

theorem Evolves.trans {s : Setting} {ws ws' ws'' : Workspace} (h : Evolves s ws ws')
    (h' : Evolves s ws' ws'') : Evolves s ws ws'' :=
  Relation.ReflTransGen.trans h h'

/-! ## Nothing is taken back -/

/-- The second workspace holds all that the first one does, under the same numbers. -/
structure Extends (ws ws' : Workspace) : Prop where
  size_le : ws.nodes.size ≤ ws'.nodes.size
  node_eq : ∀ id, id < ws.nodes.size → ws'.node id = ws.node id
  declarations_le : ws.declarations.size ≤ ws'.declarations.size
  declaration_eq : ∀ id, id < ws.declarations.size → ws'.declaration id = ws.declaration id
  index_eq : ∀ key id, ws.index.get? key = some id → ws'.index.get? key = some id
  declarationIndex_eq : ∀ text id, ws.declarationIndex.get? text = some id →
    ws'.declarationIndex.get? text = some id
  fileText_eq : ∀ file text, ws.fileText? file = some text → ws'.fileText? file = some text

theorem Extends.refl (ws : Workspace) : Extends ws ws :=
  ⟨le_rfl, fun _ _ => rfl, le_rfl, fun _ _ => rfl, fun _ _ h => h, fun _ _ h => h,
    fun _ _ h => h⟩

theorem Extends.trans {ws ws' ws'' : Workspace} (h : Extends ws ws') (h' : Extends ws' ws'') :
    Extends ws ws'' where
  size_le := h.size_le.trans h'.size_le
  node_eq id hid := (h'.node_eq id (hid.trans_le h.size_le)).trans (h.node_eq id hid)
  declarations_le := h.declarations_le.trans h'.declarations_le
  declaration_eq id hid :=
    (h'.declaration_eq id (hid.trans_le h.declarations_le)).trans (h.declaration_eq id hid)
  index_eq key id hid := h'.index_eq key id (h.index_eq key id hid)
  declarationIndex_eq text id hid :=
    h'.declarationIndex_eq text id (h.declarationIndex_eq text id hid)
  fileText_eq file text htext := h'.fileText_eq file text (h.fileText_eq file text htext)

theorem Extends.loaded {ws ws' : Workspace} (h : Extends ws ws') {file : String}
    (hloaded : ws.Loaded file) : ws'.Loaded file := by
  obtain ⟨text, htext⟩ := hloaded
  exact ⟨text, h.fileText_eq file text htext⟩

theorem Extends.admits {ws ws' : Workspace} (h : Extends ws ws') {outside : String → Prop}
    {node : Node} (hnode : ws.Admits outside node) : ws'.Admits outside node where
  written_lt id hid := (hnode.written_lt id hid).trans_le h.size_le
  file_loaded := hnode.file_loaded.imp_left h.loaded

theorem Extends.writes {ws ws' : Workspace} (h : Extends ws ws') {owner : DeclId} {file : String}
    {written : MemberDeclaration} {member : Member} (hw : ws.Writes owner file written member) :
    ws'.Writes owner file written member :=
  { hw with
    typeNode_eq := h.index_eq _ _ hw.typeNode_eq
    nameNode_eq := h.index_eq _ _ hw.nameNode_eq }

theorem Extends.lists {ws ws' : Workspace} (h : Extends ws ws') {owner : DeclId} {file : String}
    {list : List MemberDeclaration} {members : Table String Member}
    (hlists : ws.Lists owner file list members) : ws'.Lists owner file list members :=
  fun key => (hlists key).imp fun _ _ => h.writes

theorem getD_push_of_lt {α : Type} (xs : Array α) (x d : α) {i : Nat} (h : i < xs.size) :
    (xs.push x).getD i d = xs.getD i d := by
  simp [Array.getD_eq_getD_getElem?, Array.getElem?_push_lt, h]

theorem getD_push_of_ge {α : Type} (xs : Array α) (x d : α) {i : Nat} (hge : xs.size ≤ i)
    (hlt : i < (xs.push x).size) : (xs.push x).getD i d = x := by
  have hlast : i = xs.size := by
    rw [Array.size_push] at hlt
    omega
  simp [hlast, Array.getD_eq_getD_getElem?]

/-- Noting an offset leaves all but the notes alone. -/
theorem markProcessed_eq (ws : Workspace) (file : String) (offset : Nat) :
    ∃ files unbuffered, (ws.markProcessed file offset).2 =
        { ws with files := files, unbuffered := unbuffered } ∧
      ∀ other, (files.get? other).map FileBuffer.text = ws.fileText? other := by
  unfold markProcessed
  split_ifs
  · exact ⟨ws.files, ws.unbuffered, rfl, fun _ => rfl⟩
  · cases hbuffer : ws.files.get? file with
    | none => exact ⟨ws.files, _, rfl, fun _ => rfl⟩
    | some buffer =>
      refine ⟨_, ws.unbuffered, rfl, fun other => ?_⟩
      rw [fileText?, Table.get?_insert]
      split_ifs with hother
      · simp [hother, hbuffer]
      · rfl

/-- A new declaration takes nothing away. -/
theorem extends_declare {ws : Workspace} {name : String}
    (hfresh : ws.declarationIndex.get? name = none) (entry : DeclarationEntry) :
    Extends ws { ws with
      declarations := ws.declarations.push entry
      declarationIndex := ws.declarationIndex.insert name ws.declarations.size } := by
  refine { Extends.refl ws with
    declarations_le := by simp, declaration_eq := ?_, declarationIndex_eq := ?_ }
  · exact fun id hid => getD_push_of_lt _ _ _ hid
  · intro text id hid
    have htext : text ≠ name := by
      rintro rfl
      simp [hfresh] at hid
    rw [Table.get?_insert, if_neg htext]
    exact hid

theorem Step.extends {s : Setting} {ws ws' : Workspace} (h : Step s ws ws') : Extends ws ws' := by
  cases h with
  | @load file text fresh _ =>
    refine { Extends.refl ws with fileText_eq := fun other text htext => ?_ }
    have hother : other ≠ file := by
      rintro rfl
      simp [fileText?, fresh] at htext
    simpa [fileText?, Table.get?_insert, hother] using htext
  | mark file offset =>
    obtain ⟨files, unbuffered, heq, htexts⟩ := markProcessed_eq ws file offset
    rw [heq]
    exact { Extends.refl ws with
      fileText_eq := fun other text htext => (htexts other).trans htext }
  | @intern node fresh _ =>
    refine { Extends.refl ws with size_le := by simp, node_eq := ?_, index_eq := ?_ }
    · exact fun id hid => getD_push_of_lt _ _ _ hid
    · intro key id hid
      have hkey : key ≠ node.key := by
        rintro rfl
        simp [fresh] at hid
      rw [Table.get?_insert, if_neg hkey]
      exact hid
  | @detach node _ =>
    exact { Extends.refl ws with
      size_le := by simp
      node_eq := fun id hid => getD_push_of_lt _ _ _ hid }
  | miss _ => exact { Extends.refl ws with }
  | @declare declaration entry _ fresh _ => exact extends_declare fresh entry
  | @link typeText declaration id _ _ agrees =>
    refine { Extends.refl ws with declarationIndex_eq := fun text old hold => ?_ }
    rw [Table.get?_insert]
    split_ifs with htext
    · rw [agrees old (htext ▸ hold)]
    · exact hold

theorem Evolves.extends {s : Setting} {ws ws' : Workspace} (h : Evolves s ws ws') :
    Extends ws ws' := by
  induction h with
  | refl => exact .refl ws
  | tail _ hstep ih => exact ih.trans hstep.extends

/-! ## Every number is one that was given out -/

/-- The numbers of a member are ones that the workspace has given out. -/
structure HoldsMember (ws : Workspace) (member : Member) : Prop where
  owner_lt : member.owner < ws.declarations.size
  nameNode_lt : member.nameNode < ws.nodes.size
  typeNode_lt : member.typeNode < ws.nodes.size

theorem Extends.holdsMember {ws ws' : Workspace} (h : Extends ws ws') {member : Member}
    (hmember : ws.HoldsMember member) : ws'.HoldsMember member where
  owner_lt := hmember.owner_lt.trans_le h.declarations_le
  nameNode_lt := hmember.nameNode_lt.trans_le h.size_le
  typeNode_lt := hmember.typeNode_lt.trans_le h.size_le

/-- Every number that a workspace holds is one that it has given out, and the files of its nodes
are loaded, unless written types lie in them. -/
structure Sound (outside : String → Prop) (ws : Workspace) : Prop where
  node_admitted : ∀ id, id < ws.nodes.size → ws.Admits outside (ws.node id)
  index_lt : ∀ key id, ws.index.get? key = some id → id < ws.nodes.size
  entry_lt : ∀ id, id < ws.declarations.size → (ws.declaration id).node < ws.nodes.size
  member_held : ∀ id, id < ws.declarations.size →
    ∀ key member, (ws.declaration id).members.get? key = some member → ws.HoldsMember member
  declarationIndex_lt : ∀ text id, ws.declarationIndex.get? text = some id →
    id < ws.declarations.size

theorem sound_empty (outside : String → Prop) : Sound outside ∅ where
  node_admitted _ hid := absurd hid (Nat.not_lt_zero _)
  index_lt _ _ h := by cases h
  entry_lt _ hid := absurd hid (Nat.not_lt_zero _)
  member_held _ hid := absurd hid (Nat.not_lt_zero _)
  declarationIndex_lt _ _ h := by cases h

/-- What a workspace had stays sound when it grows, so that only what is new has to be looked
at. -/
theorem Sound.of_extends {outside : String → Prop} {ws ws' : Workspace} (hs : Sound outside ws)
    (hext : Extends ws ws')
    (hnode : ∀ id, ws.nodes.size ≤ id → id < ws'.nodes.size → ws'.Admits outside (ws'.node id))
    (hindex : ∀ key id, ws'.index.get? key = some id → id < ws'.nodes.size)
    (hentry : ∀ id, ws.declarations.size ≤ id → id < ws'.declarations.size →
      (ws'.declaration id).node < ws'.nodes.size ∧
        ∀ key member, (ws'.declaration id).members.get? key = some member →
          ws'.HoldsMember member)
    (hdeclarationIndex : ∀ text id, ws'.declarationIndex.get? text = some id →
      id < ws'.declarations.size) :
    Sound outside ws' where
  node_admitted id hid := by
    rcases Nat.lt_or_ge id ws.nodes.size with hlt | hge
    · rw [hext.node_eq id hlt]
      exact hext.admits (hs.node_admitted id hlt)
    · exact hnode id hge hid
  index_lt := hindex
  entry_lt id hid := by
    rcases Nat.lt_or_ge id ws.declarations.size with hlt | hge
    · rw [hext.declaration_eq id hlt]
      exact (hs.entry_lt id hlt).trans_le hext.size_le
    · exact (hentry id hge hid).1
  member_held id hid key member hmember := by
    rcases Nat.lt_or_ge id ws.declarations.size with hlt | hge
    · rw [hext.declaration_eq id hlt] at hmember
      exact hext.holdsMember (hs.member_held id hlt key member hmember)
    · exact (hentry id hge hid).2 key member hmember
  declarationIndex_lt := hdeclarationIndex

/-- A new declaration has the numbers of nodes that are there. -/
theorem Sound.declare {outside : String → Prop} {ws : Workspace} {declaration : Declaration}
    {entry : DeclarationEntry} (hs : Sound outside ws)
    (hfresh : ws.declarationIndex.get? declaration.name = none)
    (hdescribed : ws.Describes declaration entry) :
    Sound outside { ws with
      declarations := ws.declarations.push entry
      declarationIndex := ws.declarationIndex.insert declaration.name ws.declarations.size } := by
  have hext := extends_declare hfresh entry
  refine hs.of_extends hext (fun _ hge hlt => absurd hlt hge.not_gt) hs.index_lt
    (fun id hge hlt => ?_) ?_
  · rw [Workspace.declaration, getD_push_of_ge _ _ _ hge hlt]
    refine ⟨hs.index_lt _ _ hdescribed.node_eq, fun key member hmember => ?_⟩
    obtain ⟨_, _, hwrites⟩ := hdescribed.lists.exists_writes hmember
    exact ⟨by simp [hwrites.owner_eq], hs.index_lt _ _ hwrites.nameNode_eq,
      hs.index_lt _ _ hwrites.typeNode_eq⟩
  · exact Table.insert_forall
      (fun text id hid => (hs.declarationIndex_lt text id hid).trans_le hext.declarations_le)
      (by simp)

theorem Step.sound {s : Setting} {ws ws' : Workspace} (h : Step s ws ws')
    (hs : Sound s.outside ws) : Sound s.outside ws' := by
  have hext := h.extends
  cases h with
  | load _ _ =>
    exact hs.of_extends hext (fun _ hge hlt => absurd hlt hge.not_gt) hs.index_lt
      (fun _ hge hlt => absurd hlt hge.not_gt) hs.declarationIndex_lt
  | mark file offset =>
    obtain ⟨files, unbuffered, heq, -⟩ := markProcessed_eq ws file offset
    rw [heq] at hext ⊢
    exact hs.of_extends hext (fun _ hge hlt => absurd hlt hge.not_gt) hs.index_lt
      (fun _ hge hlt => absurd hlt hge.not_gt) hs.declarationIndex_lt
  | @intern node _ admitted =>
    refine hs.of_extends hext (fun id hge hlt => ?_) ?_
      (fun _ hge hlt => absurd hlt hge.not_gt) hs.declarationIndex_lt
    · rw [Workspace.node, getD_push_of_ge _ _ _ hge hlt]
      exact hext.admits admitted
    · exact Table.insert_forall
        (fun key id hid => (hs.index_lt key id hid).trans_le hext.size_le) (by simp)
  | @detach node admitted =>
    refine hs.of_extends hext (fun id hge hlt => ?_)
      (fun key id hid => (hs.index_lt key id hid).trans_le hext.size_le)
      (fun _ hge hlt => absurd hlt hge.not_gt) hs.declarationIndex_lt
    rw [Workspace.node, getD_push_of_ge _ _ _ hge hlt]
    exact hext.admits admitted
  | miss _ =>
    exact hs.of_extends hext (fun _ hge hlt => absurd hlt hge.not_gt) hs.index_lt
      (fun _ hge hlt => absurd hlt hge.not_gt) hs.declarationIndex_lt
  | declare _ fresh described => exact hs.declare fresh described
  | link _ known _ =>
    exact hs.of_extends hext (fun _ hge hlt => absurd hlt hge.not_gt) hs.index_lt
      (fun _ hge hlt => absurd hlt hge.not_gt)
      (Table.insert_forall hs.declarationIndex_lt (hs.declarationIndex_lt _ _ known))

/-- A session keeps its workspace sound. -/
theorem Evolves.sound {s : Setting} {ws ws' : Workspace} (h : Evolves s ws ws')
    (hs : Sound s.outside ws) : Sound s.outside ws' := by
  induction h with
  | refl => exact hs
  | tail _ hstep ih => exact hstep.sound ih

end TypeMend.Workspace
