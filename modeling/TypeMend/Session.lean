import TypeMend.Classify
import TypeMend.Resolution

/-!
# Sessions

A session classifies diagnostics one after the other, presents each problem as soon as it is
classified, and applies the chosen edits once at the end, also when the user quits early. The
workspace outlives a run, so a later run of the same session knows what has been classified.
-/
namespace TypeMend

structure Report where
  /-- The new text of each file that changed. -/
  files : Table String String
  unsupported : List Unsupported
  suggestions : List Suggestion
  unapplied : List UnappliedEdit
  /-- Number of diagnostics whose node had been classified before. -/
  duplicates : Nat
  stats : Stats
  deriving DecidableEq

/-- The state of a run between diagnostics. -/
structure Run where
  workspace : Workspace
  resolution : Resolution
  unsupported : List Unsupported
  suggestions : List Suggestion
  duplicates : Nat
  deriving DecidableEq

namespace Run

/-- A run that begins with a workspace. -/
def start (ws : Workspace) : Run :=
  ⟨ws, .start, [], [], 0⟩

/-- Classifies a diagnostic and presents its problem, or tells what went wrong. -/
def handle {m : Type → Type} [Monad m] (engine : Engine) (presenter : Presenter m)
    (diagnostic : Diagnostic) (run : Run) : m (Run × Option Failure) :=
  match engine.classifyDiagnostic diagnostic run.workspace with
  | .error failure ws => pure ({ run with workspace := ws }, some failure)
  | .ok .duplicate ws =>
    pure ({ run with workspace := ws, duplicates := run.duplicates + 1 }, none)
  | .ok (.unsupported entry) ws =>
    pure ({ run with workspace := ws, unsupported := run.unsupported ++ [entry] }, none)
  | .ok (.problem problem suggestions) ws =>
    let candidates := Candidate.all ws engine.options problem
    run.resolution.present presenter ws problem candidates suggestions >>= fun result =>
      pure ({ run with
        workspace := ws
        resolution := result.2
        suggestions := run.suggestions ++ suggestions }, none)

/-- Handles diagnostics in order until one fails or the user quits. -/
def handleAll {m : Type → Type} [Monad m] (engine : Engine) (presenter : Presenter m) :
    List Diagnostic → Run → m (Run × Option Failure)
  | [], run => pure (run, none)
  | diagnostic :: rest, run =>
    if run.resolution.stats.quit then pure (run, none)
    else
      run.handle engine presenter diagnostic >>= fun result =>
        match result.2 with
        | some failure => pure (result.1, some failure)
        | none => handleAll engine presenter rest result.1

/-- The report of a run whose edits had an outcome. -/
def report (run : Run) (outcome : PatchOutcome) : Report where
  files := outcome.files
  unsupported := run.unsupported
  suggestions := run.suggestions
  unapplied := outcome.unapplied
  duplicates := run.duplicates
  stats := run.resolution.stats

def finish (options : Options) (run : Run) : Except Failure Report :=
  (Patch.apply run.workspace options run.resolution.pending).map run.report

end Run

/-- An engine with its workspace. -/
structure Session where
  engine : Engine
  workspace : Workspace

namespace Session

def new (snapshot : Snapshot) (store : Store) (options : Options) : Session :=
  ⟨⟨snapshot, store, options⟩, ∅⟩

def run {m : Type → Type} [Monad m] (session : Session) (presenter : Presenter m)
    (diagnostics : List Diagnostic) : m (Except Failure Report × Session) :=
  Run.handleAll session.engine presenter diagnostics (.start session.workspace) >>= fun result =>
    let session := { session with workspace := result.1.workspace }
    match result.2 with
    | some failure => pure (.error failure, session)
    | none => pure (result.1.finish session.engine.options, session)

end Session

end TypeMend
