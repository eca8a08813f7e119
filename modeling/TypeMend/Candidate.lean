import TypeMend.Options
import TypeMend.Problem

/-!
# Candidates

The edits that would mend a problem. A candidate is a prompt and a list of edits; edits name
nodes and become text only when they are applied. A candidate that would have to touch a key
without a declared member is not offered at all.
-/
namespace TypeMend

/-- What an edit does. -/
inductive EditKind
  /-- Writes the type of the prime node over the other node. -/
  | convertType
  /-- Adds the type of the other node to the union at the prime node. -/
  | unionType
  /-- Adds the prime node as a required member of the declaration at the other node. -/
  | insertProperty
  /-- Adds the prime node as an optional member of the declaration at the other node. -/
  | insertOptionalProperty
  /-- Marks the member named at the prime node as optional. -/
  | makeOptional
  deriving DecidableEq, Inhabited

namespace EditKind

def name : EditKind → String
  | convertType => "convertType"
  | unionType => "unionType"
  | insertProperty => "insertProperty"
  | insertOptionalProperty => "insertOptionalProperty"
  | makeOptional => "makeOptional"

def all : List EditKind :=
  [convertType, unionType, insertProperty, insertOptionalProperty, makeOptional]

end EditKind

structure Edit where
  kind : EditKind
  prime : NodeId
  other : Option NodeId
  deriving DecidableEq, Inhabited

/-- The node whose file an edit writes to. -/
def Edit.writtenNode (edit : Edit) : NodeId :=
  match edit.kind with
  | .convertType | .insertProperty | .insertOptionalProperty => edit.other.getD edit.prime
  | .unionType | .makeOptional => edit.prime

/-- A way to mend a problem. -/
structure Candidate where
  prompt : String
  edits : List Edit
  deriving DecidableEq, Inhabited

namespace Problem

/-- What prompts say about the call that the problem is an argument of. -/
def callSuffix (problem : Problem) : String :=
  match problem.functionName with
  | some name => s!" (argument to `{name}`)"
  | none => ""

def declaration? (problem : Problem) (ws : Workspace) : Option DeclarationEntry :=
  problem.targetDeclaration.map ws.declaration

/-- One widening for each mismatched key, if each has a declared member and a carrier. -/
def unionEdits? (problem : Problem) : Option (List Edit) :=
  problem.comparison.mismatch.mapM fun key => do
    let member ← problem.targetMembers.get? key
    let carrier ← problem.sourceProperties.get? key
    return ⟨.unionType, member.typeNode, some carrier⟩

/-- One mark for each key that the source lacks, if each has a declared member. -/
def optionalEdits? (problem : Problem) : Option (List Edit) :=
  problem.comparison.reversedMissing.mapM fun key => do
    let member ← problem.targetMembers.get? key
    return ⟨.makeOptional, member.nameNode, none⟩

/-- A key in backquotes. One that is written on a base carries the name of the base. -/
def memberLabel (declaration : DeclarationEntry) (key : String) :
    Option DeclarationEntry → String
  | some owner => if owner.name = declaration.name then s!"`{key}`" else s!"`{owner.name}.{key}`"
  | none => s!"`{key}`"

def memberList (problem : Problem) (declaration : DeclarationEntry) (ws : Workspace)
    (keys : List String) : String :=
  ", ".intercalate <| keys.map fun key =>
    memberLabel declaration key <|
      (problem.targetMembers.get? key).map fun member => ws.declaration member.owner

/-- The optional signature of a property in backquotes. -/
def propertyLabel (property : Node) : String :=
  s!"`{property.text}?: {property.typeText}`"

def missingCarriers (problem : Problem) : List NodeId :=
  problem.comparison.missing.filterMap problem.sourceProperties.get?

/-- The optional signatures of the keys that the target lacks. -/
def propertyList (problem : Problem) (ws : Workspace) : String :=
  ", ".intercalate <| problem.missingCarriers.map fun id => propertyLabel (ws.node id)

/-- One insertion for each key that the target lacks. -/
def insertEdits (problem : Problem) (declaration : DeclarationEntry) : List Edit :=
  problem.missingCarriers.map fun carrier =>
    ⟨.insertOptionalProperty, carrier, some declaration.node⟩

end Problem

namespace Candidate

/-- A candidate unless it has no edits. -/
def single (prompt : String) (edits : List Edit) : List Candidate :=
  if edits.isEmpty then [] else [⟨prompt, edits⟩]

/-- Gives the source the type of the target. `written` is where the type of the source is. -/
def conversion (suffix : String) (source target : Node) (targetId written : NodeId) :
    Candidate where
  prompt :=
    s!"Change the type of `{source.text}` from `{source.typeText}` to `{target.typeText}`{suffix}"
  edits := [⟨.convertType, targetId, some written⟩]

/-- Widens the target by the type of the source. `declared` is the written type of the target. -/
def widening (suffix : String) (source target declared : Node) (sourceId written : NodeId) :
    Candidate where
  prompt :=
    s!"Widen the type of `{target.text}` from `{declared.text}` to `{declared.text} | {source.typeText}`{suffix}"
  edits := [⟨.unionType, written, some sourceId⟩]

/-- Gives the target the type of the source. `declared` is the written type of the target. -/
def replacement (suffix : String) (source target declared : Node) (sourceId written : NodeId) :
    Candidate where
  prompt :=
    s!"Change the declared type of `{target.text}` from `{declared.text}` to `{source.typeText}`{suffix}"
  edits := [⟨.convertType, sourceId, some written⟩]

/-- The ways to mend two types that disagree: give the source the type of the target, or widen
the target, as far as their types are written somewhere. -/
def forMismatch (ws : Workspace) (suffix : String) (sourceId targetId : NodeId) :
    List Candidate :=
  let source := ws.node sourceId
  let target := ws.node targetId
  source.declaration.toList.map (conversion suffix source target targetId) ++
    target.declaration.toList.map fun written =>
      widening suffix source target (ws.node written) sourceId written

/-- The change of the outermost declared type, for a problem inside a generic type. -/
def outermost (ws : Workspace) (suffix : String) (outer : Layer) : List Candidate :=
  if outer.kind = .typeArgument then
    let target := ws.node outer.target
    target.declaration.toList.map fun written =>
      replacement suffix (ws.node outer.source) target (ws.node written) outer.source written
  else []

/-- Adds the signature that a placeholder lacks to a declaration. -/
def addition (suffix : String) (missingIndex : Bool) (declaration : DeclarationEntry)
    (property : Node) (carrier : NodeId) : List Candidate :=
  if missingIndex then
    single
      s!"Add index signature `{property.text}: {property.typeText}` to `{declaration.name}`{suffix}"
      [⟨.insertProperty, carrier, some declaration.node⟩]
  else
    single
      s!"Add optional property `{property.text}?: {property.typeText}` to `{declaration.name}`{suffix}"
      [⟨.insertOptionalProperty, carrier, some declaration.node⟩]

/-- The ways to mend a member that is accessed but not declared as it should be. -/
def forPlaceholder (ws : Workspace) (suffix : String) (problem : Problem)
    (declaration : DeclarationEntry) : List Candidate :=
  if problem.kind = .mismatch then forMismatch ws suffix problem.source problem.target
  else
    match problem.sourceProperties.values with
    | [] => []
    | carrier :: _ =>
      addition suffix problem.missingIndex declaration (ws.node carrier) carrier

/-- The way to mend an object type that disagrees in several places: edits of its declaration.
`widened` and `required` list the members to widen and to make optional, and `added` the
properties to add. -/
def forObject (suffix : String) (problem : Problem) (declaration : DeclarationEntry)
    (widened required added : String) : List Candidate :=
  let inserts := problem.insertEdits declaration
  let place := s!"`{declaration.name}`{suffix}"
  match problem.kind with
  | .propMismatch =>
    match problem.unionEdits? with
    | none => []
    | some unions =>
      single s!"Widen {widened} in `{declaration.name}` to also accept the source types{suffix}"
        unions
  | .targetPropMissing => single s!"Add optional {added} to {place}" inserts
  | .bothMissing =>
    match problem.optionalEdits? with
    | none => []
    | some optionals =>
      let prompt :=
        if problem.comparison.missing.isEmpty then s!"Make {required} optional in {place}"
        else s!"Make {required} optional and add optional {added} to {place}"
      single prompt (optionals ++ inserts)
  | .both =>
    match problem.unionEdits? with
    | none => []
    | some unions => single s!"Widen {widened} and add optional {added} to {place}" (unions ++ inserts)
  | .mismatch | .simpleToObject | .objectToSimple => []

def all (ws : Workspace) (options : Options) (problem : Problem) : List Candidate :=
  let suffix := problem.callSuffix
  if problem.isPlaceholder ws then
    match problem.declaration? ws with
    | some declaration => forPlaceholder ws suffix problem declaration
    | none => []
  else if problem.kind = .mismatch then
    forMismatch ws suffix problem.source problem.target ++
      if options.outerCandidates then outermost ws suffix problem.outerLayer else []
  else
    match problem.declaration? ws with
    | some declaration =>
      forObject suffix problem declaration
        (problem.memberList declaration ws problem.comparison.mismatch)
        (problem.memberList declaration ws problem.comparison.reversedMissing)
        (problem.propertyList ws)
    | none => []

end Candidate

end TypeMend
