import TypeMend.Workspace.Basic

/-!
# Declarations in a workspace

A declaration is registered once for each type name, with nodes for the name and the type of each
member. Members that a declaration inherits are found on the base that writes them. Look-ups are
remembered, also those that found nothing.
-/
namespace TypeMend.Workspace

/-- The registered declaration with a number. Every number that a workspace gave out has one. -/
def declaration (ws : Workspace) (id : DeclId) : DeclarationEntry :=
  ws.declarations.getD id default

/-- The description of a whole declaration. -/
def declarationNode (declaration : Declaration) : Node where
  file := declaration.file
  start := declaration.start.toNat
  stop := declaration.stop.toNat
  text := declaration.name
  typeText := declaration.name
  kindName := "Declaration"
  isFunction := false
  isPlaceholder := false
  declaration := none

/-- The description of the type of a member. -/
def memberTypeNode (file : String) (member : MemberDeclaration) : Node where
  file := file
  start := member.typeStart.toNat
  stop := member.typeStop.toNat
  text := member.typeText
  typeText := member.typeText
  kindName := "TypeAnnotation"
  isFunction := false
  isPlaceholder := false
  declaration := none

/-- The description of the name of a member whose type has a number. -/
def memberNameNode (file : String) (member : MemberDeclaration) (typeNode : NodeId) : Node where
  file := file
  start := member.nameStart.toNat
  stop := member.nameStop.toNat
  text := member.name
  typeText := member.typeText
  kindName := "PropertySignature"
  isFunction := false
  isPlaceholder := false
  declaration := some typeNode

def internMember (ws : Workspace) (owner : DeclId) (file : String) (member : MemberDeclaration) :
    Member × Workspace :=
  let (typeNode, ws) := ws.intern (memberTypeNode file member)
  let (nameNode, ws) := ws.intern (memberNameNode file member typeNode)
  (⟨owner, member.name, member.optional, nameNode, typeNode⟩, ws)

/-- The members of a declaration, added to those in a table. -/
def internMembers (owner : DeclId) (file : String) :
    List MemberDeclaration → Table String Member → Workspace → Table String Member × Workspace
  | [], members, ws => (members, ws)
  | member :: rest, members, ws =>
    let (entry, ws) := ws.internMember owner file member
    internMembers owner file rest (members.insert member.name entry) ws

/-- Registers a declaration unless its name is known. -/
def register (ws : Workspace) (declaration : Declaration) : DeclId × Workspace :=
  match ws.declarationIndex.get? declaration.name with
  | some id => (id, ws)
  | none =>
    let id := ws.declarations.size
    let (node, ws) := ws.intern (declarationNode declaration)
    let (members, ws) := internMembers id declaration.file declaration.members ∅ ws
    (id,
      { ws with
        declarations := ws.declarations.push ⟨declaration.name, node, members, declaration.bases⟩
        declarationIndex := ws.declarationIndex.insert declaration.name id })

/-- The registered declaration of a type text. The first look-up of a text asks the snapshot,
loads the file of the declaration and registers it. -/
def resolve (snapshot : Snapshot) (store : Store) (typeText : String) :
    Action (Option DeclId) := do
  let ws ← get
  match ws.declarationIndex.get? typeText with
  | some id => return some id
  | none =>
    if ws.unresolved.contains typeText then return none
    match snapshot.declarationOf? typeText with
    | none =>
      set { ws with unresolved := typeText :: ws.unresolved }
      return none
    | some declaration =>
      ensureFile store declaration.file
      let id ← modifyGet fun ws => ws.register declaration
      modify fun ws => { ws with declarationIndex := ws.declarationIndex.insert typeText id }
      return some id

/-- The registered declarations of those type texts that have one. -/
def resolveAll (snapshot : Snapshot) (store : Store) : List String → Action (List DeclId)
  | [] => return []
  | typeText :: rest => do
    let id ← resolve snapshot store typeText
    let ids ← resolveAll snapshot store rest
    return id.toList ++ ids

/-- One round of the breadth-first search for a member. `queue` holds the declarations to visit and
`seen` those visited; `next` goes on from there. -/
def searchStep (snapshot : Snapshot) (store : Store) (key : String)
    (next : List DeclId → List DeclId → Action (Option Member)) (seen queue : List DeclId) :
    Action (Option Member) :=
  match queue.dropWhile seen.contains with
  | [] => return none
  | id :: queue => do
    let entry := (← get).declaration id
    match entry.members.get? key with
    | some member => return some member
    | none =>
      let bases ← resolveAll snapshot store entry.bases
      next (id :: seen) (queue ++ bases)

/-- Searches declarations breadth first for a member. `visits` bounds the number of rounds. Each
visits another declaration, registered or of the snapshot, so that with more rounds than there are
of these the search ends before they are used up: the case for no rounds is not reached. -/
def searchMember (snapshot : Snapshot) (store : Store) (key : String) :
    Nat → List DeclId → List DeclId → Action (Option Member)
  | 0, _, _ => return none
  | visits + 1, seen, queue =>
    searchStep snapshot store key (searchMember snapshot store key visits) seen queue

/-- The member with a name on a declaration or on the nearest base that writes it. -/
def resolveMember (snapshot : Snapshot) (store : Store) (id : DeclId) (key : String) :
    Action (Option Member) := do
  let visits := (← get).declarations.size + snapshot.declarations.length + 1
  searchMember snapshot store key visits [] [id]

end TypeMend.Workspace
