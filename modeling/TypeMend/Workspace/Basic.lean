import TypeMend.Failure
import TypeMend.Snapshot.Query
import TypeMend.Text.Line

/-!
# The workspace of a session

A workspace holds what a session has met so far: the files it has loaded, the nodes it reasons
about and the declarations it has registered. Nodes and declarations are numbered in the order in
which they arrive and are never changed or removed, so a number stays good for the whole session.
-/
namespace TypeMend

abbrev NodeId := Nat

abbrev DeclId := Nat

structure Node where
  file : String
  start : Nat
  stop : Nat
  /-- The source text, or the name of a property. -/
  text : String
  typeText : String
  kindName : String
  isFunction : Bool
  isPlaceholder : Bool
  /-- The node that declares the type of this one. -/
  declaration : Option NodeId
  deriving DecidableEq, Inhabited

/-- What two descriptions of the same node agree on. -/
structure NodeKey where
  file : String
  start : Nat
  stop : Nat
  kindName : String
  isPlaceholder : Bool
  deriving DecidableEq

namespace Node

/-- Number of bytes of a node, zero when its range is inverted. -/
def length (node : Node) : Nat :=
  node.stop - node.start

def key (node : Node) : NodeKey :=
  ⟨node.file, node.start, node.stop, node.kindName, node.isPlaceholder⟩

end Node

/-- A declared member with the nodes of its name and of its type. -/
structure Member where
  /-- The declaration that writes the member. -/
  owner : DeclId
  name : String
  optional : Bool
  nameNode : NodeId
  typeNode : NodeId
  deriving DecidableEq, Inhabited

structure DeclarationEntry where
  name : String
  /-- The whole declaration. -/
  node : NodeId
  members : Table String Member
  bases : List String
  deriving DecidableEq, Inhabited

/-- A loaded file: its text and the offsets of the nodes in it that have been classified. -/
structure FileBuffer where
  text : String
  processed : List Nat
  deriving DecidableEq, Inhabited

/-- Everything a session has met so far. -/
structure Workspace where
  nodes : Array Node
  /-- The shared nodes by key. -/
  index : Table NodeKey NodeId
  declarations : Array DeclarationEntry
  /-- Registered declarations, by name and by every type text that led to them. -/
  declarationIndex : Table String DeclId
  /-- Type texts that are known to have no declaration. -/
  unresolved : List String
  files : Table String FileBuffer
  /-- Classified offsets in files that were not loaded at the time. -/
  unbuffered : List (String × Nat)
  deriving DecidableEq, Inhabited

namespace Workspace

protected def empty : Workspace :=
  ⟨#[], ∅, #[], ∅, [], ∅, []⟩

instance : EmptyCollection Workspace := ⟨Workspace.empty⟩

/-- A step that uses a workspace and may fail. What was done before a failure stays done. -/
abbrev Action (α : Type) := EStateM Failure Workspace α

/-! ## Files -/

/-- Loads a text for a file. A file that is loaded keeps its text. -/
def loadFile (ws : Workspace) (file text : String) : Workspace :=
  { ws with files := ws.files.insertNew file ⟨text, []⟩ }

/-- Loads a file from a store unless it is loaded. -/
def ensureFile (store : Store) (file : String) : Action Unit := fun ws =>
  if ws.files.contains file then .ok () ws
  else
    match store file with
    | .ok text => .ok () { ws with files := ws.files.insert file ⟨text, []⟩ }
    | .error fault => .error (.unreadable file fault) ws

def fileText? (ws : Workspace) (file : String) : Option String :=
  (ws.files.get? file).map FileBuffer.text

/-- Whether the node at an offset has been classified. -/
def isProcessed (ws : Workspace) (file : String) (offset : Nat) : Bool :=
  match ws.files.get? file with
  | some buffer => buffer.processed.contains offset
  | none => ws.unbuffered.contains (file, offset)

/-- Notes that the node at an offset has been classified, and says whether it had not been. The
note is kept with the file if it is loaded, and apart from it otherwise. -/
def markProcessed (ws : Workspace) (file : String) (offset : Nat) : Bool × Workspace :=
  if ws.isProcessed file offset then (false, ws)
  else
    match ws.files.get? file with
    | some buffer =>
      let buffer := { buffer with processed := offset :: buffer.processed }
      (true, { ws with files := ws.files.insert file buffer })
    | none => (true, { ws with unbuffered := (file, offset) :: ws.unbuffered })

/-! ## Nodes -/

def size (ws : Workspace) : Nat :=
  ws.nodes.size

/-- The node with a number. Every number that a workspace gave out has a node. -/
def node (ws : Workspace) (id : NodeId) : Node :=
  ws.nodes.getD id default

/-- Adds a node that is not shared. -/
def addDetached (ws : Workspace) (node : Node) : NodeId × Workspace :=
  (ws.nodes.size, { ws with nodes := ws.nodes.push node })

/-- The number of the shared node with the key of a description. A key that is new gets a node
with this description; a known key keeps the description it has. -/
def intern (ws : Workspace) (node : Node) : NodeId × Workspace :=
  match ws.index.get? node.key with
  | some id => (id, ws)
  | none =>
    (ws.nodes.size,
      { ws with nodes := ws.nodes.push node, index := ws.index.insert node.key ws.nodes.size })

/-- The description of a written type. Its text is also its type. -/
def spanNode (span : SourceSpan) (kindName : String) : Node where
  file := span.file
  start := span.start.toNat
  stop := span.stop.toNat
  text := span.text
  typeText := span.text
  kindName := kindName
  isFunction := false
  isPlaceholder := false
  declaration := none

/-- The shared node of a written type. -/
def internSpan (ws : Workspace) (span : SourceSpan) (kindName : String) : NodeId × Workspace :=
  ws.intern (spanNode span kindName)

/-- The description of a syntax node whose written type has a number. -/
def sourceNode (node : SourceNode) (written : Option NodeId) : Node where
  file := node.file
  start := node.start.toNat
  stop := node.stop.toNat
  text := node.text
  typeText := node.typeText
  kindName := node.kindName
  isFunction := node.isFunction
  isPlaceholder := node.isPlaceholder
  declaration := written

/-- The shared node of a syntax node, after that of its written type. -/
def internSource (ws : Workspace) (node : SourceNode) : NodeId × Workspace :=
  match node.writtenType with
  | none => ws.intern (sourceNode node none)
  | some span =>
    let (written, ws) := ws.internSpan span "TypeAnnotation"
    ws.intern (sourceNode node (some written))

/-- The position at which a node starts, if its file is loaded. -/
def startOf? (ws : Workspace) (node : Node) : Option Position :=
  (ws.files.get? node.file).map fun buffer =>
    (LineIndex.ofText buffer.text).position buffer.text node.start

/-- The position at which the node with a number starts, if its file is loaded. -/
def position? (ws : Workspace) (id : NodeId) : Option Position :=
  ws.startOf? (ws.node id)

end Workspace

end TypeMend
