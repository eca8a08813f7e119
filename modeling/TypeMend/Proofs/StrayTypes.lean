import TypeMend.Proofs.Unbroken

/-!
# Files that no one loads

A run fails at the end when a chosen edit writes to a file that is not loaded. The files of the
nodes of a pair, of the layers around it and of declarations are loaded before their nodes are
added, but the file of a written type is not: a type that is written in neither file of its pair
lies astray. Edits of stray types are the only ones that can make a run fail in this way, and they
do so exactly when no other node brings their file in.
-/
namespace TypeMend.Session

open Workspace

variable {σ : Type} {session : Session}

/-- The run of a session before its edits are applied. -/
def handled (session : Session) (presenter : Presenter (StateM σ)) (diagnostics : List Diagnostic)
    (state : σ) : Run × Option Failure :=
  ((Run.handleAll session.engine presenter diagnostics (.start session.workspace)).run state).1

/-- The first file, in the order of choice, with a chosen edit that is not loaded. -/
def unloaded? (run : Run) : Option String :=
  run.resolution.pending.keys.find? fun file => !run.workspace.files.contains file

theorem run_value (presenter : Presenter (StateM σ)) (diagnostics : List Diagnostic) (state : σ) :
    ((session.run presenter diagnostics).run state).1.1 =
      match session.handled presenter diagnostics state with
      | (_, some failure) => .error failure
      | (run, none) => run.finish session.engine.options := by
  unfold run handled
  rw [StateT.run_bind]
  generalize (Run.handleAll session.engine presenter diagnostics
    (.start session.workspace)).run state = result
  obtain ⟨⟨run, failure⟩, state'⟩ := result
  cases failure <;> rfl

theorem handled_spec (h : Sound session.engine.setting.outside session.workspace)
    (presenter : Presenter (StateM σ)) (diagnostics : List Diagnostic) (state : σ) :
    Run.Handled session.engine (session.handled presenter diagnostics state) :=
  (Run.handleAll_yields presenter diagnostics (unbroken_start h)).value state

theorem finish_eq_unknownFile_iff (run : Run) (options : Options) (file : String) :
    run.finish options = .error (.unknownFile file) ↔ unloaded? run = some file := by
  have happly := Patch.applyFiles_eq_error_iff run.workspace options
    run.resolution.pending.entries ⟨∅, []⟩
  unfold Run.finish Patch.apply
  cases hresult : Patch.applyFiles run.workspace options run.resolution.pending.entries
      ⟨∅, []⟩ with
  | ok outcome =>
    refine ⟨fun h => (by cases h), fun h => ?_⟩
    have herror := (happly _).2 ⟨file, h, rfl⟩
    rw [hresult] at herror
    cases herror
  | error failure =>
    obtain ⟨first, hfirst, rfl⟩ := (happly failure).1 hresult
    change Except.error (Failure.unknownFile first) = Except.error (Failure.unknownFile file) ↔
      unloaded? run = some file
    rw [show unloaded? run = some first from hfirst]
    simp

/-- A file with chosen edits is loaded, or a stray type lies in it. -/
theorem loaded_or_stray_of_pending {engine : Engine} {run : Run} (h : run.Unbroken engine)
    {file : String} (hfile : file ∈ run.resolution.pending.keys) :
    run.workspace.Loaded file ∨ ∃ span ∈ engine.snapshot.strayTypes, span.file = file := by
  obtain ⟨⟨_, edits⟩, hentry, rfl⟩ := List.mem_map.1 hfile
  obtain ⟨edit, hedit⟩ := List.exists_mem_of_ne_nil edits (h.pending_held.edits_ne _ _ hentry)
  obtain ⟨hheld, hwritten⟩ := h.pending_held.edit_held _ _ hentry edit hedit
  have hadmitted := (h.sound.node_admitted _ hheld.writtenNode_lt).file_loaded
  rwa [hwritten] at hadmitted

theorem run_eq_unknownFile_iff (h : Sound session.engine.setting.outside session.workspace)
    (presenter : Presenter (StateM σ)) (diagnostics : List Diagnostic) (state : σ)
    (file : String) :
    ((session.run presenter diagnostics).run state).1.1 = .error (.unknownFile file) ↔
      (session.handled presenter diagnostics state).2 = none ∧
        unloaded? (session.handled presenter diagnostics state).1 = some file := by
  obtain ⟨_, hfailure⟩ := handled_spec h presenter diagnostics state
  rw [run_value]
  generalize session.handled presenter diagnostics state = result at hfailure ⊢
  obtain ⟨run, failure⟩ := result
  cases failure with
  | none => simpa using finish_eq_unknownFile_iff run session.engine.options file
  | some failure =>
    obtain ⟨other, fault, _, rfl⟩ := hfailure failure rfl
    simp

/-- When a run of a new session fails for want of a loaded file: exactly when all its diagnostics
are handled and a chosen edit writes to a file that is not loaded, the first such file being the
one that is named. A file that chosen edits write to is loaded unless a stray type lies in it, so
that without stray types no run fails in this way. -/
theorem run_unknownFile_of_stray (snapshot : Snapshot) (store : Store) (options : Options)
    (presenter : Presenter (StateM σ)) (diagnostics : List Diagnostic) (state : σ) :
    let session := new snapshot store options
    let result := ((session.run presenter diagnostics).run state).1.1
    let handled := session.handled presenter diagnostics state
    (∀ file, result = .error (.unknownFile file) ↔
        handled.2 = none ∧ unloaded? handled.1 = some file) ∧
      (∀ file ∈ handled.1.resolution.pending.keys, handled.1.workspace.Loaded file ∨
        ∃ span ∈ snapshot.strayTypes, span.file = file) ∧
      (snapshot.strayTypes = [] → ∀ file, result ≠ .error (.unknownFile file)) := by
  intro session result handled
  have hsound : Sound session.engine.setting.outside session.workspace := sound_empty _
  have hiff := run_eq_unknownFile_iff hsound presenter diagnostics state
  have hstray (file : String) (hfile : file ∈ handled.1.resolution.pending.keys) :=
    loaded_or_stray_of_pending (handled_spec hsound presenter diagnostics state).1 hfile
  refine ⟨hiff, hstray, fun hnone file hresult => ?_⟩
  have hfirst := ((hiff file).1 hresult).2
  have hmissing : ¬handled.1.workspace.Loaded file := by
    rw [loaded_iff]
    simpa using List.find?_some hfirst
  obtain ⟨span, hspan, _⟩ :=
    (hstray file (List.mem_of_find?_eq_some hfirst)).resolve_left hmissing
  rw [show session.engine.snapshot.strayTypes = [] from hnone] at hspan
  simp at hspan

/-- Takes the first candidate of every problem. -/
def takeFirst : Presenter (StateM Unit) where
  choose _ := pure (.select 0)
  advise _ := pure ()

/-- A number is assigned to a variable that another file declares as a string. -/
def farAssignment : Snapshot where
  diagnostics := [⟨2322, "a.ts", 8, 1, ""⟩]
  locations :=
    [{ source := ⟨"a.ts", 8, 9, "5", "number", "NumericLiteral", false, none, none⟩
       target := ⟨"a.ts", 0, 5, "limit", "string", "Identifier", false, none,
         some ⟨"lib.ts", 11, 17, "string"⟩⟩
       functionName := none }]
  shapes := ∅
  declarations := []
  layers := []

/-- The files of `farAssignment`. -/
def farFiles : Store :=
  .ofTable (.ofList [("a.ts", "limit = 5;"), ("lib.ts", "let limit: string;")])

/-- Both files can be read, and still the run fails on the one that declares the variable. -/
theorem run_farAssignment_unknownFile :
    (((new farAssignment farFiles .default).run takeFirst farAssignment.diagnostics).run ()).1.1 =
      .error (.unknownFile "lib.ts") := rfl

end TypeMend.Session
