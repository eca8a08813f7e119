import TypeMend.Command.Config
import TypeMend.Command.FileTree
import TypeMend.Console
import TypeMend.Report.Document
import TypeMend.Snapshot.Document

/-!
# The command

One run of the command: read the configuration and the snapshot, run a session, write the files
that changed or show them as diffs, write the report if one is asked for, and sum up. What the
command needs from its surroundings is a `Host`; `World.host` is one that lives in memory.

The diffs and the summary are for output that takes everything: printing has no result, and the
command does not end in an error when it fails. Only the questions of a console look at whether
their output was taken.
-/
namespace TypeMend

/-- What the command needs from its surroundings. -/
structure Host (m : Type → Type) where
  isFile : String → m Bool
  read : String → m (Except FileFault String)
  write : String → String → m (Except FileFault Unit)
  /-- Prints to output that takes everything. -/
  print : String → m Unit
  /-- Asks about problems or answers them, as chosen. -/
  presenter : Renderer → AutoSelect → Presenter m

/-- What makes the command fail. -/
inductive CommandError
  | readConfig (path : String) (fault : FileFault)
  | parseConfig (path : String) (fault : ConfigFault)
  | readSnapshot (path : String) (fault : FileFault)
  | parseSnapshot (path : String) (error : Json.Error)
  | session (failure : Failure)
  | writeFile (path : String) (fault : FileFault)
  | writeReport (path : String) (fault : FileFault)
  deriving DecidableEq

/-- What the user is told about an error, from the outermost circumstance to the cause. -/
def CommandError.chain : CommandError → List String
  | readConfig path fault => [s!"failed to read config: {path}", fault.message]
  | parseConfig path fault => [s!"failed to parse config: {path}", fault.message]
  | readSnapshot path fault => [s!"failed to read snapshot: {path}", fault.message]
  | parseSnapshot path error =>
    [s!"failed to parse snapshot: {path}", (Failure.badSnapshot error).message, error.message]
  | session failure => "fix session failed" :: failure.message :: failure.cause?.toList
  | writeFile path fault => [s!"failed to write {path}", fault.message]
  | writeReport path fault => [s!"failed to write report: {path}", fault.message]

namespace Command

def configName : String := "tsz-fix.json"

/-- The directory in which source files lie: the one that is given, or that of the snapshot. -/
def projectRoot (args : Arguments) : String :=
  match args.project with
  | some project => project
  | none =>
    match Path.parent? args.snapshot with
    | some parent => if parent.isEmpty then "." else parent
    | none => "."

variable {m : Type → Type} [Monad m]

/-- The configuration file to read: the one that is given, or the one in the project root. -/
def configPath (host : Host m) (args : Arguments) : m (Option String) :=
  match args.config with
  | some path => pure (some path)
  | none =>
    let path := Path.join (projectRoot args) configName
    host.isFile path >>= fun found => pure (if found then some path else none)

def loadConfig (host : Host m) (args : Arguments) : ExceptT CommandError m Config := do
  match ← (configPath host args : m (Option String)) with
  | none => return ∅
  | some path =>
    match ← (host.read path : m (Except FileFault String)) with
    | .error fault => throw (.readConfig path fault)
    | .ok text =>
      match Config.parse text with
      | .error fault => throw (.parseConfig path fault)
      | .ok config => return config

def loadSnapshot (host : Host m) (args : Arguments) : ExceptT CommandError m Snapshot := do
  match ← (host.read args.snapshot : m (Except FileFault String)) with
  | .error fault => throw (.readSnapshot args.snapshot fault)
  | .ok text =>
    match Snapshot.parse text with
    | .error error => throw (.parseSnapshot args.snapshot error)
    | .ok snapshot => return snapshot

/-- Reads the source files with the given names. -/
def readSources (host : Host m) (root : String) :
    List String → m (Table String (Except FileFault String))
  | [] => pure ∅
  | file :: rest =>
    host.read (Path.join root file) >>= fun content =>
      readSources host root rest >>= fun sources =>
        pure (sources.insert file content)

/-- The store of source files that have been read. -/
def storeOf (sources : Table String (Except FileFault String)) : Store := fun file =>
  (sources.get? file).getD (.error .notFound)

/-- Writes the files that changed, or shows them as diffs against the texts that were loaded. -/
def writeResults (host : Host m) (renderer : Renderer) (root : String) (dryRun : Bool)
    (ws : Workspace) : List (String × String) → ExceptT CommandError m Unit
  | [] => return ()
  | (file, text) :: rest => do
    if dryRun then
      let before := (ws.fileText? file).getD ""
      (host.print (renderer.diff file before text ++ "\n") : m Unit)
    else
      let path := Path.join root file
      match ← (host.write path text : m (Except FileFault Unit)) with
      | .error fault => throw (.writeFile path fault)
      | .ok () => pure ()
    writeResults host renderer root dryRun ws rest

/-- Writes the report, if one is asked for. -/
def writeReport (host : Host m) (args : Arguments) (report : Report) :
    ExceptT CommandError m Unit := do
  match args.reportJson with
  | none => return ()
  | some path =>
    match ← (host.write path report.toJson.render : m (Except FileFault Unit)) with
    | .error fault => throw (.writeReport path fault)
    | .ok () => return ()

def run (host : Host m) (args : Arguments) (color : Bool) : ExceptT CommandError m Report := do
  let root := projectRoot args
  let config ← loadConfig host args
  let settings := config.resolve args
  let snapshot ← loadSnapshot host args
  let sources ← (readSources host root snapshot.fileNames : m _)
  let renderer : Renderer := ⟨color⟩
  let session := Session.new snapshot (storeOf sources) settings.options
  let (result, session) ←
    (session.run (host.presenter renderer settings.autoSelect) snapshot.diagnostics : m _)
  match result with
  | .error failure => throw (.session failure)
  | .ok report =>
    writeResults host renderer root settings.dryRun session.workspace report.files.entries
    writeReport host args report
    (host.print (renderer.summary report settings.dryRun ++ "\n") : m Unit)
    return report

end Command

/-- Surroundings in memory: a tree of files and a console. -/
structure World where
  tree : FileTree
  console : Console
  deriving DecidableEq

namespace World

/-- A presenter that uses the console of a world. -/
def lift (presenter : Presenter (StateM Console)) : Presenter (StateM World) where
  choose view := fun world =>
    let (decision, console) := presenter.choose view world.console
    (decision, { world with console := console })
  advise view := fun world =>
    let ((), console) := presenter.advise view world.console
    ((), { world with console := console })

/-- The host that reads and changes a world. -/
def host : Host (StateM World) where
  isFile path := fun world => (world.tree.isFile path, world)
  read path := fun world => (world.tree.read path, world)
  write path text := fun world =>
    match world.tree.write path text with
    | .ok tree => (.ok (), { world with tree := tree })
    | .error fault => (.error fault, world)
  print text := fun world => ((), { world with console := world.console.print text })
  presenter renderer
    | .first => lift (Console.automatic renderer)
    | .none => lift (Console.interactive renderer)

end World

end TypeMend
