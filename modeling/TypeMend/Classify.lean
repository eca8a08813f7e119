import TypeMend.Advice
import TypeMend.Options

/-!
# Classification

The engine turns a diagnostic into a problem: it finds the pair of nodes, follows the generic
types around it, and compares the shapes of both sides. Every node it meets goes into the
workspace. A node that was classified before is not classified again.
-/
namespace TypeMend

/-- What stays fixed during a session. -/
structure Engine where
  snapshot : Snapshot
  store : Store
  options : Options

namespace Engine

open Workspace (Action ensureFile)

/-- The numbers of a pair of nodes, as a layer. -/
def internLayer (kind : LayerKind) (pair : NodePair) : Action Layer := do
  let source ← modifyGet fun ws => ws.internSource pair.source
  let target ← modifyGet fun ws => ws.internSource pair.target
  return ⟨kind, source, target⟩

/-- The layers of generic types, with their files loaded. -/
def internOuter (engine : Engine) : List NodePair → Action (List Layer)
  | [] => return []
  | pair :: rest => do
    ensureFile engine.store pair.source.file
    ensureFile engine.store pair.target.file
    let layer ← internLayer .typeArgument pair
    let layers ← engine.internOuter rest
    return layer :: layers

/-- The problem of a pair before its sides have been compared. -/
def openProblem (code : UInt32) (kind : ProblemKind) (outer : List Layer) (inner : Layer)
    (functionName : Option String) : Problem where
  code := code
  kind := kind
  source := inner.source
  target := inner.target
  comparison := ∅
  stack := outer ++ [inner]
  functionName := functionName
  sourceDeclaration := none
  targetDeclaration := none
  sourceProperties := ∅
  targetMembers := ∅
  missingIndex := false

/-- A node that carries the name and the type of a property but has no place of its own: it has
the range of the node it belongs to. -/
def carrier (owner : SourceNode) (kindName text typeText : String) : Node where
  file := owner.file
  start := owner.start.toNat
  stop := owner.stop.toNat
  text := text
  typeText := typeText
  kindName := kindName
  isFunction := false
  isPlaceholder := false
  declaration := none

/-- The member that a placeholder means, if its owner declares it or inherits it. A slot with an
index type means no named member. -/
def slotMember (engine : Engine) (slot : MemberSlot) (declaration : Option DeclId) :
    Action (Option Member) :=
  match declaration, slot.indexType with
  | some id, none => Workspace.resolveMember engine.snapshot engine.store id slot.key
  | _, _ => return none

/-- The signature that a slot lacks: its key, or an index signature for the key's type. -/
def slotText (slot : MemberSlot) : String :=
  match slot.indexType with
  | some indexType => s!"[{slot.key}: {indexType}]"
  | none => slot.key

/-- The carrier of the signature that a slot lacks. -/
def slotCarrier (source : SourceNode) (slot : MemberSlot) : Node :=
  { carrier source "PropertySignature" (slotText slot) source.typeText with
    isFunction := source.isFunction
    isPlaceholder := true }

/-- The problem of a member that is declared with another type. -/
def clashingMember (problem : Problem) (key : String) (member : Member) : Problem :=
  { problem with
    kind := .mismatch
    target := member.nameNode
    comparison := { problem.comparison with mismatch := [key] }
    sourceProperties := problem.sourceProperties.insert key problem.source
    targetMembers := problem.targetMembers.insert key member }

/-- The problem of a member that is not declared, with the node of the declaration that lacks
it, if it is known, and the carrier of its signature. -/
def absentMember (problem : Problem) (key : String) (declaration : Option NodeId)
    (carrier : NodeId) : Problem :=
  { problem with
    target := declaration.getD problem.target
    comparison := { problem.comparison with missing := [key] }
    sourceProperties := problem.sourceProperties.insert key carrier }

/-- Classifies a placeholder. A member that exists and accepts the value leaves no problem. -/
def classifyPlaceholder (engine : Engine) (pair : NodePair) (slot : MemberSlot)
    (problem : Problem) : Action (Option Classification) := do
  let declaration ← Workspace.resolve engine.snapshot engine.store slot.ownerType
  let problem :=
    { problem with targetDeclaration := declaration, missingIndex := slot.indexType.isSome }
  match ← engine.slotMember slot declaration with
  | some member =>
    let memberType := ((← get).node member.typeNode).typeText
    if TypeText.assignable pair.source.typeText memberType then return none
    return some (.problem (clashingMember problem slot.key member) [])
  | none =>
    let carrier ← modifyGet fun ws => ws.addDetached (slotCarrier pair.source slot)
    let ws ← get
    let node := declaration.map fun id => (ws.declaration id).node
    return some (.problem (absentMember problem slot.key node carrier) [])

/-- The carrier of a property of the source. -/
def sourceCarrier (source : SourceNode) (shape : Shape) (key : String) : Node :=
  carrier source "PropertyAssignment" key (((shape.get? key).map Property.typeText).getD "")

/-- Nodes for source keys: the name of a member that the source's declaration writes, or a
carrier. -/
def sourceCarriers (pair : NodePair) (shape : Shape) (declaration : Option DeclId) :
    List String → Table String NodeId → Workspace → Table String NodeId × Workspace
  | [], carriers, ws => (carriers, ws)
  | key :: keys, carriers, ws =>
    match declaration.bind fun id => (ws.declaration id).members.get? key with
    | some member =>
      sourceCarriers pair shape declaration keys (carriers.insert key member.nameNode) ws
    | none =>
      let (id, ws) := ws.addDetached (sourceCarrier pair.source shape key)
      sourceCarriers pair shape declaration keys (carriers.insert key id) ws

/-- Declared members for target keys, where there are some. -/
def targetMembers (engine : Engine) (declaration : DeclId) :
    List String → Table String Member → Action (Table String Member)
  | [], members => return members
  | key :: keys, members => do
    match ← Workspace.resolveMember engine.snapshot engine.store declaration key with
    | some member => engine.targetMembers declaration keys (members.insert key member)
    | none => engine.targetMembers declaration keys members

/-- The problem of one property of an object problem. -/
def narrowed (problem : Problem) (source target : NodeId) : Problem :=
  { problem with
    kind := .mismatch
    source := source
    target := target
    stack := problem.stack ++ [⟨.property, source, target⟩] }

/-- The carrier of a property of the target. -/
def targetCarrier (target : SourceNode) (shape : Shape) (key : String) : Node :=
  carrier target "PropertySignature" key (((shape.get? key).map Property.typeText).getD "")

/-- Narrows an object problem to its one property that disagrees, if nothing else is wrong. -/
def narrow (pair : NodePair) (target : Shape) (problem : Problem) : Action Problem :=
  match problem.kind, problem.comparison.mismatch with
  | .propMismatch, [key] =>
    match problem.sourceProperties.get? key, problem.targetMembers.get? key with
    | none, _ => return problem
    | some source, some member => return narrowed problem source member.nameNode
    | some source, none => do
      let carrier ← modifyGet fun ws => ws.addDetached (targetCarrier pair.target target key)
      return narrowed problem source carrier
  | _, _ => return problem

/-- Declared members for target keys, if the target is declared. -/
def declaredMembers (engine : Engine) (declaration : Option DeclId) (keys : List String) :
    Action (Table String Member) :=
  match declaration with
  | some id => engine.targetMembers id keys ∅
  | none => return ∅

/-- Classifies two object types. Shapes that agree leave no problem. -/
def classifyObjects (engine : Engine) (pair : NodePair) (source target : Shape)
    (problem : Problem) : Action (Option Classification) := do
  let comparison := source.compare TypeText.assignable target
  match ProblemKind.ofComparison? comparison with
  | none => return none
  | some kind =>
    let sourceDeclaration ← Workspace.resolve engine.snapshot engine.store pair.source.typeText
    let targetDeclaration ← Workspace.resolve engine.snapshot engine.store pair.target.typeText
    let carriers ← modifyGet <| sourceCarriers pair source sourceDeclaration
      (comparison.missing ++ comparison.mismatch) ∅
    let members ← engine.declaredMembers targetDeclaration
      (comparison.mismatch ++ comparison.reversedMissing)
    let problem ← narrow pair target
      { problem with
        kind := kind
        comparison := comparison
        sourceDeclaration := sourceDeclaration
        targetDeclaration := targetDeclaration
        sourceProperties := carriers
        targetMembers := members }
    return some (.problem problem [])

/-- Classifies a pair of values by whether their types have shapes. -/
def classifyValues (engine : Engine) (pair : NodePair) (problem : Problem) :
    Action (Option Classification) :=
  match engine.snapshot.shapeOf? pair.source.typeText,
    engine.snapshot.shapeOf? pair.target.typeText with
  | none, none => return some (.problem problem [])
  | none, some target =>
    return some <| .problem { problem with kind := .simpleToObject }
      [Advice.simpleToObject pair target]
  | some source, none =>
    return some <| .problem { problem with kind := .objectToSimple }
      (Advice.objectToSimple pair source)
  | some source, some target => engine.classifyObjects pair source target problem

def classify (engine : Engine) (code : UInt32) (pair : NodePair) : Action Classification := do
  let unsupported := Classification.unsupported <|
    .of code pair.source.kindName pair.source.file pair.source.start.toNat
  match Family.ofCode? code with
  | none => return unsupported
  | some family =>
    ensureFile engine.store pair.target.file
    let chain := engine.snapshot.enclosingChain engine.options.maxLayerDepth pair
    let functionName := (pair :: chain).findSome? NodePair.functionName
    let outer ← engine.internOuter chain.reverse
    let inner ← internLayer .diagnostic pair
    let result ← match pair.source.placeholder with
      | some slot =>
        engine.classifyPlaceholder pair slot
          (openProblem code .targetPropMissing outer inner functionName)
      | none =>
        if family.expectsPlaceholder then pure none
        else
          engine.classifyValues pair (openProblem code .mismatch outer inner functionName)
    return result.getD unsupported

/-- Finds the pair of a diagnostic and classifies it, unless its source was classified before. -/
def classifyDiagnostic (engine : Engine) (diagnostic : Diagnostic) : Action Classification := do
  match engine.snapshot.locate? diagnostic.file diagnostic.start with
  | none =>
    return .unsupported (.of diagnostic.code "" diagnostic.file diagnostic.start.toNat)
  | some pair =>
    ensureFile engine.store pair.source.file
    let fresh ← modifyGet fun ws => ws.markProcessed pair.source.file pair.source.start.toNat
    if fresh then engine.classify diagnostic.code pair else return .duplicate

end Engine

end TypeMend
