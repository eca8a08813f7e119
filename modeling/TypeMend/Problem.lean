import TypeMend.Workspace.Declaration

/-!
# Problems

A diagnostic that is understood becomes a problem of one of seven kinds. A problem names the two
nodes that disagree, what the comparison of their shapes found, and the generic types around
them.
-/
namespace TypeMend

inductive ProblemKind
  /-- Two types without properties disagree, or a single property does. -/
  | mismatch
  /-- A value without properties stands where an object is expected. -/
  | simpleToObject
  /-- An object stands where a value without properties is expected. -/
  | objectToSimple
  /-- Several shared properties disagree. -/
  | propMismatch
  /-- The source requires properties that the target lacks. -/
  | targetPropMissing
  /-- The target requires properties that the source lacks. -/
  | bothMissing
  /-- Shared properties disagree and the target lacks others. -/
  | both
  deriving DecidableEq, Inhabited

namespace ProblemKind

def name : ProblemKind → String
  | mismatch => "mismatch"
  | simpleToObject => "simpleToObject"
  | objectToSimple => "objectToSimple"
  | propMismatch => "propMismatch"
  | targetPropMissing => "targetPropMissing"
  | bothMissing => "bothMissing"
  | both => "both"

/-- Whether a kind leads to advice only, never to an edit. -/
def isAdvisory : ProblemKind → Bool
  | simpleToObject | objectToSimple => true
  | _ => false

def all : List ProblemKind :=
  [mismatch, simpleToObject, objectToSimple, propMismatch, targetPropMissing, bothMissing, both]

/-- The kind for two object types, or none when their shapes agree. -/
def ofComparison? (comparison : Comparison) : Option ProblemKind :=
  if !comparison.reversedMissing.isEmpty then some bothMissing
  else
    match comparison.mismatch.isEmpty, comparison.missing.isEmpty with
    | false, false => some both
    | false, true => some propMismatch
    | true, false => some targetPropMissing
    | true, true => none

end ProblemKind

/-- Why a pair of nodes is compared. -/
inductive LayerKind
  /-- The diagnostic points at it. -/
  | diagnostic
  /-- It is a generic type around an inner pair. -/
  | typeArgument
  /-- It is the one property to which an object pair was narrowed. -/
  | property
  deriving DecidableEq, Inhabited

namespace LayerKind

def name : LayerKind → String
  | diagnostic => "diagnostic"
  | typeArgument => "typeArgument"
  | property => "property"

end LayerKind

/-- One pair of compared nodes. -/
structure Layer where
  kind : LayerKind
  source : NodeId
  target : NodeId
  deriving DecidableEq, Inhabited

structure Problem where
  code : UInt32
  kind : ProblemKind
  /-- The nodes that disagree. -/
  source : NodeId
  target : NodeId
  comparison : Comparison
  /-- The pairs around the problem, outermost first. -/
  stack : List Layer
  functionName : Option String
  sourceDeclaration : Option DeclId
  targetDeclaration : Option DeclId
  /-- A node with name and type for each source key that is missing or mismatched. -/
  sourceProperties : Table String NodeId
  /-- The declared member for each target key that is mismatched or required, where there is
  one. -/
  targetMembers : Table String Member
  /-- Whether an index signature is missing rather than a named member. -/
  missingIndex : Bool
  deriving DecidableEq, Inhabited

namespace Problem

/-- The outermost pair. -/
def outerLayer (problem : Problem) : Layer :=
  problem.stack.headD ⟨.diagnostic, problem.source, problem.target⟩

/-- Whether the problem lies inside a generic type. -/
def isNested (problem : Problem) : Bool :=
  problem.stack.any fun layer => layer.kind == .typeArgument

/-- Whether the problem is about a member that is accessed but not declared. -/
def isPlaceholder (problem : Problem) (ws : Workspace) : Bool :=
  (ws.node problem.source).isPlaceholder

end Problem

structure Suggestion where
  file : String
  start : Nat
  message : String
  deriving DecidableEq, Inhabited

/-- A diagnostic that is not understood. -/
structure Unsupported where
  code : UInt32
  kindName : String
  file : String
  offset : Nat
  deriving DecidableEq, Inhabited

/-- The report of a diagnostic that is not understood. A node kind without a name is unknown. -/
def Unsupported.of (code : UInt32) (kindName file : String) (offset : Nat) : Unsupported :=
  ⟨code, if kindName.isEmpty then "Unknown" else kindName, file, offset⟩

inductive Classification
  /-- Its node has been classified before. -/
  | duplicate
  | unsupported (diagnostic : Unsupported)
  | problem (problem : Problem) (suggestions : List Suggestion)
  deriving DecidableEq

end TypeMend
