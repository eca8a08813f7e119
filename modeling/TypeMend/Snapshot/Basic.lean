import TypeMend.Diagnostic
import TypeMend.Shape

/-!
# Checker snapshots

A type checker that has run over a project leaves a snapshot: its diagnostics, the nodes they
point at, the shapes and declarations of the types involved, and the generic types around nested
nodes. All offsets are byte offsets of 32 bits; nothing says that they fit the files.
-/
namespace TypeMend

/-- A written source range, as a rule a type annotation. -/
structure SourceSpan where
  file : String
  start : UInt32
  stop : UInt32
  text : String
  deriving DecidableEq, Inhabited

/-- The member a placeholder node stands for: a property that is accessed but not declared. An
access by a key that is no literal has the key's type in `indexType`. -/
structure MemberSlot where
  key : String
  ownerType : String
  indexType : Option String
  deriving DecidableEq, Inhabited

/-- A syntax node as the checker describes it. -/
structure SourceNode where
  file : String
  start : UInt32
  stop : UInt32
  text : String
  typeText : String
  kindName : String
  isFunction : Bool
  placeholder : Option MemberSlot
  /-- The annotation that declares the type of the node, if one is written. -/
  writtenType : Option SourceSpan
  deriving DecidableEq, Inhabited

/-- The node a diagnostic points at and the node it is checked against. -/
structure NodePair where
  source : SourceNode
  target : SourceNode
  /-- The called function, when the pair is an argument and a parameter. -/
  functionName : Option String
  deriving DecidableEq, Inhabited

structure MemberDeclaration where
  name : String
  nameStart : UInt32
  nameStop : UInt32
  typeStart : UInt32
  typeStop : UInt32
  typeText : String
  optional : Bool
  deriving DecidableEq, Inhabited

/-- A declaration of an object type. `stop` is the offset just past its closing brace. -/
structure Declaration where
  name : String
  file : String
  start : UInt32
  stop : UInt32
  members : List MemberDeclaration
  /-- The types it extends, in written order. -/
  bases : List String
  deriving DecidableEq, Inhabited

/-- The pair one generic type outward from the pair whose source begins at a place. -/
structure EnclosingLayer where
  file : String
  start : UInt32
  outer : NodePair
  deriving DecidableEq, Inhabited

/-- Everything the checker says about a project. -/
structure Snapshot where
  diagnostics : List Diagnostic
  locations : List NodePair
  /-- Shapes by type text. -/
  shapes : Table String Shape
  declarations : List Declaration
  layers : List EnclosingLayer
  deriving DecidableEq

namespace Snapshot

protected def empty : Snapshot :=
  ⟨[], [], ∅, [], []⟩

instance : EmptyCollection Snapshot := ⟨Snapshot.empty⟩

instance : Inhabited Snapshot := ⟨∅⟩

end Snapshot

/-- Whether a node stands for a member rather than for a value. -/
def SourceNode.isPlaceholder (node : SourceNode) : Bool :=
  node.placeholder.isSome

/-- The property that a member declares. -/
def MemberDeclaration.property (member : MemberDeclaration) : Property :=
  ⟨member.typeText, member.optional⟩

namespace Declaration

/-- The first member with a name. -/
def member? (declaration : Declaration) (name : String) : Option MemberDeclaration :=
  declaration.members.find? fun member => member.name == name

/-- The properties a declaration writes itself. -/
def ownShape (declaration : Declaration) : Shape :=
  .ofList (declaration.members.map fun member => (member.name, member.property))

end Declaration

end TypeMend
