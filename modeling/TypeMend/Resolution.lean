import TypeMend.Patch

/-!
# Resolution

Each problem is presented once and decided: a candidate is selected, the problem is skipped, or
the run is quit. The edits of selected candidates are collected; nothing is written. Who decides
is a `Presenter`, which may keep a state of its own or talk to a user.
-/
namespace TypeMend

/-- The answer to a problem. Candidates are counted from zero. -/
inductive Decision
  | select (index : Nat)
  | skip
  | quit
  deriving DecidableEq, Inhabited

/-- What became of a problem. -/
inductive ProblemState
  | selected (index : Nat)
  | skipped
  | quit
  deriving DecidableEq, Inhabited

/-- One side of a problem as it is shown. Line and column are counted from one. -/
structure SideView where
  file : String
  line : Nat
  column : Nat
  text : String
  typeText : String
  deriving DecidableEq, Inhabited

/-- A problem as it is shown. -/
structure ProblemView where
  /-- The ordinal of the problem in its run, from one. -/
  index : Nat
  code : UInt32
  kind : ProblemKind
  source : SideView
  target : SideView
  functionName : Option String
  depth : Nat
  suggestions : List Suggestion
  prompts : List String
  deriving DecidableEq, Inhabited

/-- Shows problems and decides them. A problem without candidates is only shown. -/
structure Presenter (m : Type → Type) where
  choose : ProblemView → m Decision
  advise : ProblemView → m Unit

/-- How often each outcome came up in a run. -/
structure Stats where
  problems : Nat
  selected : Nat
  skipped : Nat
  withoutCandidates : Nat
  quit : Bool
  deriving DecidableEq, Inhabited

/-- The state of a run between problems. -/
structure Resolution where
  pending : PendingEdits
  stats : Stats
  deriving DecidableEq

/-- A node as it is shown. One in a file that is not loaded is shown at the first character. -/
def SideView.of (ws : Workspace) (node : Node) : SideView :=
  let position := (ws.startOf? node).getD ⟨0, 0⟩
  ⟨node.file, position.line + 1, position.character + 1, node.text, node.typeText⟩

def ProblemView.of (ws : Workspace) (index : Nat) (problem : Problem) (source target : Node)
    (candidates : List Candidate) (suggestions : List Suggestion) : ProblemView where
  index := index
  code := problem.code
  kind := problem.kind
  source := .of ws source
  target := .of ws target
  functionName := problem.functionName
  depth := problem.stack.length
  suggestions := suggestions
  prompts := candidates.map Candidate.prompt

namespace Resolution

/-- The state before the first problem. -/
def start : Resolution :=
  ⟨∅, ⟨0, 0, 0, 0, false⟩⟩

/-- Counts a problem as presented. -/
def count (resolution : Resolution) : Resolution :=
  { resolution with
    stats := { resolution.stats with problems := resolution.stats.problems + 1 } }

/-- Passes over a problem that was presented. -/
def skip (resolution : Resolution) : Resolution :=
  { resolution with
    stats := { resolution.stats with skipped := resolution.stats.skipped + 1 } }

/-- Passes over a problem that has no candidates. -/
def passOver (resolution : Resolution) : Resolution :=
  { resolution with
    stats := { resolution.stats with
      skipped := resolution.stats.skipped + 1
      withoutCandidates := resolution.stats.withoutCandidates + 1 } }

/-- Takes up a candidate, after which `pending` holds the chosen edits. -/
def take (resolution : Resolution) (pending : PendingEdits) : Resolution :=
  { pending := pending
    stats := { resolution.stats with selected := resolution.stats.selected + 1 } }

def quit (resolution : Resolution) : Resolution :=
  { resolution with stats := { resolution.stats with quit := true } }

/-- Carries out a decision. Selecting a candidate that does not exist is skipping. -/
def settle (ws : Workspace) (candidates : List Candidate) (resolution : Resolution) :
    Decision → ProblemState × Resolution
  | .skip => (.skipped, resolution.skip)
  | .quit => (.quit, resolution.quit)
  | .select index =>
    match candidates[index]? with
    | none => (.skipped, resolution.skip)
    | some candidate =>
      (.selected index, resolution.take (resolution.pending.pushAll ws candidate.edits))

/-- Presents a problem and carries out the decision. After a quit nothing is presented. -/
def present {m : Type → Type} [Monad m] (presenter : Presenter m) (ws : Workspace)
    (problem : Problem) (candidates : List Candidate) (suggestions : List Suggestion)
    (resolution : Resolution) : m (ProblemState × Resolution) :=
  if resolution.stats.quit then pure (.quit, resolution)
  else
    let resolution := resolution.count
    let view := ProblemView.of ws resolution.stats.problems problem (ws.node problem.source)
      (ws.node problem.target) candidates suggestions
    if candidates.isEmpty then
      presenter.advise view >>= fun _ => pure (.skipped, resolution.passOver)
    else
      presenter.choose view >>= fun decision =>
        pure (resolution.settle ws candidates decision)

end Resolution

end TypeMend
