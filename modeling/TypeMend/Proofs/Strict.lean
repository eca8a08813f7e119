import TypeMend.Proofs.Slicing
import TypeMend.Session

/-!
# Strict evaluation

The same program with nothing to fall back on. Every number must be that of a node or of a
declaration of the workspace, every stack of pairs must have a first and a last one, every slice
must fit its text, and every change must fit the text that the changes before it have left. Where
one of these does not hold a run breaks off, and `none` stands for that: as the failure of an
action, or in place of the result of a function. Nothing here reads a workspace by way of the
functions that answer with a default.
-/
namespace TypeMend.Strict

/-- An action that may also break off. -/
abbrev Action (α : Type) := EStateM (Option Failure) Workspace α

variable {α : Type}

/-- An action that reads nothing by number. -/
def lift (x : Workspace.Action α) : Action α := fun ws =>
  match x ws with
  | .ok a ws => .ok a ws
  | .error failure ws => .error (some failure) ws

/-- Breaks off unless there is something. -/
def demand (found : Option α) : Action α := fun ws =>
  match found with
  | some a => .ok a ws
  | none => .error none ws

def node? (ws : Workspace) (id : NodeId) : Option Node :=
  ws.nodes[id]?

def declaration? (ws : Workspace) (id : DeclId) : Option DeclarationEntry :=
  ws.declarations[id]?

/-! ## Classification -/

def searchMember (snapshot : Snapshot) (store : Store) (key : String) :
    Nat → List DeclId → List DeclId → Action (Option Member)
  | 0, _, _ => return none
  | visits + 1, seen, queue =>
    match queue.dropWhile seen.contains with
    | [] => return none
    | id :: queue => do
      let entry ← demand (declaration? (← get) id)
      match entry.members.get? key with
      | some member => return some member
      | none =>
        let bases ← lift (Workspace.resolveAll snapshot store entry.bases)
        searchMember snapshot store key visits (id :: seen) (queue ++ bases)

def resolveMember (snapshot : Snapshot) (store : Store) (id : DeclId) (key : String) :
    Action (Option Member) := do
  let visits := (← get).declarations.size + snapshot.declarations.length + 1
  searchMember snapshot store key visits [] [id]

def slotMember (engine : Engine) (slot : MemberSlot) (declaration : Option DeclId) :
    Action (Option Member) :=
  match declaration, slot.indexType with
  | some id, none => resolveMember engine.snapshot engine.store id slot.key
  | _, _ => return none

def openProblem (code : UInt32) (kind : ProblemKind) (stack : List Layer)
    (functionName : Option String) : Option Problem :=
  stack.getLast?.map fun inner =>
    { Engine.openProblem code kind [] inner functionName with stack := stack }

def classifyPlaceholder (engine : Engine) (pair : NodePair) (slot : MemberSlot)
    (problem : Problem) : Action (Option Classification) := do
  let declaration ← lift (Workspace.resolve engine.snapshot engine.store slot.ownerType)
  let problem :=
    { problem with targetDeclaration := declaration, missingIndex := slot.indexType.isSome }
  match ← slotMember engine slot declaration with
  | some member =>
    let memberType ← demand (node? (← get) member.typeNode)
    if TypeText.assignable pair.source.typeText memberType.typeText then return none
    return some (.problem (Engine.clashingMember problem slot.key member) [])
  | none =>
    let carrier ← modifyGet fun ws => ws.addDetached (Engine.slotCarrier pair.source slot)
    let entry ← demand (declaration.mapM (declaration? (← get)))
    let node := entry.map DeclarationEntry.node
    return some (.problem (Engine.absentMember problem slot.key node carrier) [])

def sourceCarriers (pair : NodePair) (shape : Shape) (declaration : Option DeclId) :
    List String → Table String NodeId → Action (Table String NodeId)
  | [], carriers => return carriers
  | key :: keys, carriers => do
    let entry ← demand (declaration.mapM (declaration? (← get)))
    match entry.bind fun entry => entry.members.get? key with
    | some member =>
      sourceCarriers pair shape declaration keys (carriers.insert key member.nameNode)
    | none =>
      let id ← modifyGet fun ws => ws.addDetached (Engine.sourceCarrier pair.source shape key)
      sourceCarriers pair shape declaration keys (carriers.insert key id)

def targetMembers (engine : Engine) (declaration : DeclId) :
    List String → Table String Member → Action (Table String Member)
  | [], members => return members
  | key :: keys, members => do
    match ← resolveMember engine.snapshot engine.store declaration key with
    | some member => targetMembers engine declaration keys (members.insert key member)
    | none => targetMembers engine declaration keys members

def declaredMembers (engine : Engine) (declaration : Option DeclId) (keys : List String) :
    Action (Table String Member) :=
  match declaration with
  | some id => targetMembers engine id keys ∅
  | none => return ∅

def classifyObjects (engine : Engine) (pair : NodePair) (source target : Shape)
    (problem : Problem) : Action (Option Classification) := do
  let comparison := source.compare TypeText.assignable target
  match ProblemKind.ofComparison? comparison with
  | none => return none
  | some kind =>
    let sourceDeclaration ←
      lift (Workspace.resolve engine.snapshot engine.store pair.source.typeText)
    let targetDeclaration ←
      lift (Workspace.resolve engine.snapshot engine.store pair.target.typeText)
    let carriers ← sourceCarriers pair source sourceDeclaration
      (comparison.missing ++ comparison.mismatch) ∅
    let members ← declaredMembers engine targetDeclaration
      (comparison.mismatch ++ comparison.reversedMissing)
    let problem ← lift <| Engine.narrow pair target
      { problem with
        kind := kind
        comparison := comparison
        sourceDeclaration := sourceDeclaration
        targetDeclaration := targetDeclaration
        sourceProperties := carriers
        targetMembers := members }
    return some (.problem problem [])

def classifyValues (engine : Engine) (pair : NodePair) (problem : Problem) :
    Action (Option Classification) :=
  match engine.snapshot.shapeOf? pair.source.typeText,
    engine.snapshot.shapeOf? pair.target.typeText with
  | some source, some target => classifyObjects engine pair source target problem
  | _, _ => lift (engine.classifyValues pair problem)

def classify (engine : Engine) (code : UInt32) (pair : NodePair) : Action Classification := do
  let unsupported := Classification.unsupported <|
    .of code pair.source.kindName pair.source.file pair.source.start.toNat
  match Family.ofCode? code with
  | none => return unsupported
  | some family =>
    lift (Workspace.ensureFile engine.store pair.target.file)
    let chain := engine.snapshot.enclosingChain engine.options.maxLayerDepth pair
    let functionName := (pair :: chain).findSome? NodePair.functionName
    let outer ← lift (engine.internOuter chain.reverse)
    let inner ← lift (Engine.internLayer .diagnostic pair)
    let stack := outer ++ [inner]
    let result ← match pair.source.placeholder with
      | some slot => do
        let problem ← demand (openProblem code .targetPropMissing stack functionName)
        classifyPlaceholder engine pair slot problem
      | none =>
        if family.expectsPlaceholder then pure none
        else do
          let problem ← demand (openProblem code .mismatch stack functionName)
          classifyValues engine pair problem
    return result.getD unsupported

def classifyDiagnostic (engine : Engine) (diagnostic : Diagnostic) : Action Classification := do
  match engine.snapshot.locate? diagnostic.file diagnostic.start with
  | none =>
    return .unsupported (.of diagnostic.code "" diagnostic.file diagnostic.start.toNat)
  | some pair =>
    lift (Workspace.ensureFile engine.store pair.source.file)
    let fresh ← modifyGet fun ws => ws.markProcessed pair.source.file pair.source.start.toNat
    if fresh then classify engine diagnostic.code pair else return .duplicate

/-! ## Candidates -/

def forMismatch (ws : Workspace) (suffix : String) (sourceId targetId : NodeId) :
    Option (List Candidate) := do
  let source ← node? ws sourceId
  let target ← node? ws targetId
  let widenings ← target.declaration.toList.mapM fun written =>
    (node? ws written).map fun declared =>
      Candidate.widening suffix source target declared sourceId written
  return source.declaration.toList.map (Candidate.conversion suffix source target targetId) ++
    widenings

def outermost (ws : Workspace) (suffix : String) (stack : List Layer) :
    Option (List Candidate) := do
  let outer ← stack.head?
  if outer.kind = .typeArgument then
    let source ← node? ws outer.source
    let target ← node? ws outer.target
    target.declaration.toList.mapM fun written =>
      (node? ws written).map fun declared =>
        Candidate.replacement suffix source target declared outer.source written
  else return []

def forPlaceholder (ws : Workspace) (suffix : String) (problem : Problem)
    (declaration : DeclarationEntry) : Option (List Candidate) :=
  if problem.kind = .mismatch then forMismatch ws suffix problem.source problem.target
  else
    match problem.sourceProperties.values with
    | [] => some []
    | carrier :: _ =>
      (node? ws carrier).map fun property =>
        Candidate.addition suffix problem.missingIndex declaration property carrier

def memberList (ws : Workspace) (problem : Problem) (declaration : DeclarationEntry)
    (keys : List String) : Option String := do
  let labels ← keys.mapM fun key =>
    ((problem.targetMembers.get? key).mapM fun member => declaration? ws member.owner).map
      (Problem.memberLabel declaration key)
  return ", ".intercalate labels

def propertyList (ws : Workspace) (problem : Problem) : Option String := do
  let properties ← problem.missingCarriers.mapM (node? ws)
  return ", ".intercalate (properties.map Problem.propertyLabel)

def forObject (ws : Workspace) (suffix : String) (problem : Problem)
    (declaration : DeclarationEntry) : Option (List Candidate) := do
  let widened ← memberList ws problem declaration problem.comparison.mismatch
  let required ← memberList ws problem declaration problem.comparison.reversedMissing
  let added ← propertyList ws problem
  return Candidate.forObject suffix problem declaration widened required added

def candidates (ws : Workspace) (options : Options) (problem : Problem) :
    Option (List Candidate) := do
  let suffix := problem.callSuffix
  let source ← node? ws problem.source
  let declaration ← problem.targetDeclaration.mapM (declaration? ws)
  if source.isPlaceholder then
    match declaration with
    | some declaration => forPlaceholder ws suffix problem declaration
    | none => return []
  else if problem.kind = .mismatch then
    let inner ← forMismatch ws suffix problem.source problem.target
    let outer ← if options.outerCandidates then outermost ws suffix problem.stack else some []
    return inner ++ outer
  else
    match declaration with
    | some declaration => forObject ws suffix problem declaration
    | none => return []

/-! ## Resolution -/

def pushAll (ws : Workspace) (pending : PendingEdits) (edits : List Edit) : Option PendingEdits :=
  edits.foldlM
    (fun pending edit => (node? ws edit.writtenNode).map fun node => pending.push node.file edit)
    pending

def settle (ws : Workspace) (candidates : List Candidate) (resolution : Resolution) :
    Decision → Option (ProblemState × Resolution)
  | .skip => some (.skipped, resolution.skip)
  | .quit => some (.quit, resolution.quit)
  | .select index =>
    match candidates[index]? with
    | none => some (.skipped, resolution.skip)
    | some candidate =>
      (pushAll ws resolution.pending candidate.edits).map fun pending =>
        (.selected index, resolution.take pending)

def view (ws : Workspace) (index : Nat) (problem : Problem) (candidates : List Candidate)
    (suggestions : List Suggestion) : Option ProblemView := do
  let source ← node? ws problem.source
  let target ← node? ws problem.target
  return .of ws index problem source target candidates suggestions

section Monadic

variable {m : Type → Type} [Monad m]

def present (presenter : Presenter m) (ws : Workspace) (problem : Problem)
    (candidates : List Candidate) (suggestions : List Suggestion) (resolution : Resolution) :
    m (Option (ProblemState × Resolution)) :=
  if resolution.stats.quit then pure (some (.quit, resolution))
  else
    let resolution := resolution.count
    match view ws resolution.stats.problems problem candidates suggestions with
    | none => pure none
    | some view =>
      if candidates.isEmpty then
        presenter.advise view >>= fun _ => pure (some (.skipped, resolution.passOver))
      else
        presenter.choose view >>= fun decision => pure (settle ws candidates resolution decision)

end Monadic

/-! ## Patches -/

def insertMember (unit : String) (declaration : Node) (property : String) (cs : List Char) :
    Option Resolved :=
  (Insertion.changeBySlices? unit declaration.start declaration.stop property cs).map fun
    | some change => .change change
    | none => .refused .noInsertionPoint declaration.start declaration.stop

def propose (options : Options) (kind : EditKind) (prime : Node) (other : Option Node)
    (cs : List Char) : Option Resolved :=
  match kind, other with
  | .insertProperty, some declaration =>
    insertMember options.indentUnit declaration s!"{prime.text}: {prime.typeText}" cs
  | .insertOptionalProperty, some declaration =>
    insertMember options.indentUnit declaration s!"{prime.text}?: {prime.typeText}" cs
  | kind, other => some (Patch.propose options kind prime other cs)

def resolve (ws : Workspace) (options : Options) (edit : Edit) (cs : List Char) :
    Option Resolved := do
  let prime ← node? ws edit.prime
  let other ← edit.other.mapM (node? ws)
  let proposed ← propose options edit.kind prime other cs
  return Patch.confine cs proposed

def select (ws : Workspace) (options : Options) (file : String) (cs : List Char)
    (edits : List Edit) : Option Patch.Selection :=
  edits.foldlM
    (fun selection edit => (resolve ws options edit cs).map fun resolved =>
      selection.add file edit resolved)
    ⟨[], []⟩

def applyFiles (ws : Workspace) (options : Options) :
    List (String × List Edit) → PatchOutcome → Option (Except Failure PatchOutcome)
  | [], outcome => some (.ok outcome)
  | (file, edits) :: rest, outcome =>
    match ws.fileText? file with
    | none => some (.error (.unknownFile file))
    | some text => do
      let selection ← select ws options file text.toList edits
      let patched ← TextChange.applyAll? text selection.accepted
      applyFiles ws options rest
        { files := if patched = text then outcome.files else outcome.files.insert file patched
          unapplied := outcome.unapplied ++ selection.unapplied }

/-! ## Runs -/

section Monadic

variable {m : Type → Type} [Monad m]

def handle (engine : Engine) (presenter : Presenter m) (diagnostic : Diagnostic) (run : Run) :
    m (Option (Run × Option Failure)) :=
  match classifyDiagnostic engine diagnostic run.workspace with
  | .error none _ => pure none
  | .error (some failure) ws => pure (some ({ run with workspace := ws }, some failure))
  | .ok .duplicate ws =>
    pure (some ({ run with workspace := ws, duplicates := run.duplicates + 1 }, none))
  | .ok (.unsupported entry) ws =>
    pure (some ({ run with workspace := ws, unsupported := run.unsupported ++ [entry] }, none))
  | .ok (.problem problem suggestions) ws =>
    match candidates ws engine.options problem with
    | none => pure none
    | some candidates =>
      present presenter ws problem candidates suggestions run.resolution >>= fun result =>
        pure (result.map fun result =>
          ({ run with
            workspace := ws
            resolution := result.2
            suggestions := run.suggestions ++ suggestions }, none))

def handleAll (engine : Engine) (presenter : Presenter m) :
    List Diagnostic → Run → m (Option (Run × Option Failure))
  | [], run => pure (some (run, none))
  | diagnostic :: rest, run =>
    if run.resolution.stats.quit then pure (some (run, none))
    else
      handle engine presenter diagnostic run >>= fun result =>
        match result with
        | none => pure none
        | some (run, some failure) => pure (some (run, some failure))
        | some (run, none) => handleAll engine presenter rest run

def finish (options : Options) (run : Run) : Option (Except Failure Report) :=
  (applyFiles run.workspace options run.resolution.pending.entries ⟨∅, []⟩).map fun result =>
    result.map run.report

def run (session : Session) (presenter : Presenter m) (diagnostics : List Diagnostic) :
    m (Option (Except Failure Report × Session)) :=
  handleAll session.engine presenter diagnostics (.start session.workspace) >>= fun result =>
    match result with
    | none => pure none
    | some (run, failure) =>
      let session := { session with workspace := run.workspace }
      match failure with
      | some failure => pure (some (.error failure, session))
      | none =>
        pure ((finish session.engine.options run).map fun report => (report, session))

end Monadic

end TypeMend.Strict
