import TypeMend.Proofs.Contributions
import TypeMend.Proofs.Descriptions
import TypeMend.Proofs.Steadiness

/-!
# Each place is taken up once

The workspace of a session notes where the source of a diagnostic begins, and it outlives a run.
Over all runs of a session, whether they end with a report, with a failure or because the user
quits, no two diagnostics are classified at one place: the first one that gets as far as being
looked at is the last. `Opens` says this of the attempts to classify diagnostics one after the
other, and it can be put together along a run and along a sequence of runs. A list of diagnostics
that was handled before therefore comes to nothing when it is run again.
-/
namespace TypeMend

open Workspace

/-- A diagnostic that a run took up, and what classifying it came to. -/
structure Attempt where
  diagnostic : Diagnostic
  outcome : Except Failure Classification

namespace Engine

variable {engine : Engine} {diagnostic : Diagnostic} {ws ws' ws'' : Workspace}
  {attempts attempts' : List Attempt}

def attempt (engine : Engine) (ws : Workspace) (diagnostic : Diagnostic) : Attempt where
  diagnostic := diagnostic
  outcome :=
    match engine.classifyDiagnostic diagnostic ws with
    | .ok classification _ => .ok classification
    | .error failure _ => .error failure

/-- Whether an attempt is at a place and is not taken for a duplicate there. An attempt that fails
counts as well, unless it never got to the place because the file could not be read. -/
def opens (engine : Engine) (place : Place) (attempt : Attempt) : Bool :=
  engine.place? attempt.diagnostic == some place &&
    match attempt.outcome with
    | .ok .duplicate => false
    | .error (.unreadable file _) => file != place.1
    | _ => true

/-- How many of some diagnostics have a place. -/
def countPlaced (engine : Engine) (diagnostics : List Diagnostic) : Nat :=
  diagnostics.countP fun diagnostic => (engine.place? diagnostic).isSome

/-- The reports of those diagnostics that have no place. -/
def unplaced (engine : Engine) (diagnostics : List Diagnostic) : List Unsupported :=
  (diagnostics.filter fun diagnostic => (engine.place? diagnostic).isNone).map fun diagnostic =>
    .of diagnostic.code "" diagnostic.file diagnostic.start.toNat

/-- Attempts lead from one workspace to another. Each place is opened by one of them at most, and by
none if it was noted before; afterwards it is noted. -/
structure Opens (engine : Engine) (ws : Workspace) (attempts : List Attempt) (ws' : Workspace) :
    Prop where
  evolves : Evolves engine.setting ws ws'
  once : ∀ place, attempts.countP (engine.opens place) ≤ 1
  fresh : ∀ place, Noted ws.files place → attempts.countP (engine.opens place) = 0
  noted : ∀ place, 0 < attempts.countP (engine.opens place) → Noted ws'.files place

theorem Opens.refl (engine : Engine) (ws : Workspace) : engine.Opens ws [] ws where
  evolves := .refl
  once _ := Nat.zero_le 1
  fresh _ _ := rfl
  noted _ h := absurd h (Nat.lt_irrefl 0)

theorem Opens.trans (h : engine.Opens ws attempts ws') (h' : engine.Opens ws' attempts' ws'') :
    engine.Opens ws (attempts ++ attempts') ws'' where
  evolves := h.evolves.trans h'.evolves
  once place := by
    rw [List.countP_append]
    have hfirst := h.once place
    rcases Nat.eq_zero_or_pos (attempts.countP (engine.opens place)) with hzero | hpos
    · have hsecond := h'.once place
      omega
    · have hsecond := h'.fresh place (h.noted place hpos)
      omega
  fresh place hnoted := by
    rw [List.countP_append, h.fresh place hnoted, h'.fresh place (h.evolves.noted hnoted)]
  noted place hpos := by
    rw [List.countP_append] at hpos
    rcases Nat.eq_zero_or_pos (attempts.countP (engine.opens place)) with hzero | hfirst
    · exact h'.noted place (by omega)
    · exact h'.evolves.noted (h.noted place hfirst)

/-! ## One diagnostic -/

/-- Classifying a diagnostic whose pair is known: its file is loaded, its place is noted, and the
pair is classified unless the place had been noted. -/
theorem classifyDiagnostic_eq {pair : NodePair}
    (hpair : engine.snapshot.locate? diagnostic.file diagnostic.start = some pair)
    (ws : Workspace) :
    engine.classifyDiagnostic diagnostic ws =
      match ensureFile engine.store pair.source.file ws with
      | .error failure ws₁ => .error failure ws₁
      | .ok () ws₁ =>
        let result := ws₁.markProcessed pair.source.file pair.source.start.toNat
        if result.1 then engine.classify diagnostic.code pair result.2
        else .ok .duplicate result.2 := by
  simp only [classifyDiagnostic, hpair, Bind.bind, EStateM.bind, modifyGet_apply]
  cases ensureFile engine.store pair.source.file ws with
  | error failure ws₁ => rfl
  | ok _ ws₁ =>
    dsimp only
    split_ifs <;> rfl

theorem classifyDiagnostic_of_unplaced (hplace : engine.place? diagnostic = none) :
    engine.classifyDiagnostic diagnostic ws =
      .ok (.unsupported (.of diagnostic.code "" diagnostic.file diagnostic.start.toNat)) ws := by
  unfold place? at hplace
  unfold classifyDiagnostic
  rw [Option.map_eq_none_iff.1 hplace]
  rfl

/-- At a place that is noted there are only duplicates, and they leave no trace. -/
theorem classifyDiagnostic_of_noted {place : Place} (hplace : engine.place? diagnostic = some place)
    (hnoted : Noted ws.files place) :
    engine.classifyDiagnostic diagnostic ws = .ok .duplicate ws := by
  unfold place? at hplace
  obtain ⟨pair, hpair, rfl⟩ := Option.map_eq_some_iff.1 hplace
  obtain ⟨buffer, hbuffer, hmem⟩ := hnoted
  rw [classifyDiagnostic_eq hpair, ensureFile_of_loaded hbuffer]
  dsimp only at hbuffer hmem ⊢
  rw [markProcessed_of_loaded hbuffer, if_pos hmem]
  rfl

theorem classifyDiagnostic_evolves (hs : Sound engine.setting.outside ws)
    (diagnostic : Diagnostic) :
    Evolves engine.setting ws (after (engine.classifyDiagnostic diagnostic) ws) :=
  (Strict.classifyDiagnostic_agrees hs diagnostic).runs.evolves_after

/-- A place that is not noted is noted after an attempt there, however that ends, unless its file
cannot be read. -/
theorem noted_after_classifyDiagnostic (hs : Sound engine.setting.outside ws) {place : Place}
    (hplace : engine.place? diagnostic = some place) :
    Noted (after (engine.classifyDiagnostic diagnostic) ws).files place ∨
      ∃ fault, engine.classifyDiagnostic diagnostic ws =
        .error (.unreadable place.1 fault) ws := by
  unfold place? at hplace
  obtain ⟨pair, hpair, rfl⟩ := Option.map_eq_some_iff.1 hplace
  have hruns : Runs engine.setting (ensureFile engine.store pair.source.file) ws _ :=
    ensureFile_runs pair.source.file
  unfold after
  rw [classifyDiagnostic_eq hpair]
  cases hensure : ensureFile engine.store pair.source.file ws with
  | error failure ws₁ =>
    right
    unfold ensureFile at hensure
    split_ifs at hensure
    split at hensure
    · cases hensure
    · next fault _ =>
      cases hensure
      exact ⟨fault, rfl⟩
  | ok _ ws₁ =>
    left
    obtain ⟨hfirst, hloaded, -⟩ := hruns.of_ok hensure
    have hmark : Evolves engine.setting ws₁
        (ws₁.markProcessed pair.source.file pair.source.start.toNat).2 :=
      markProcessed_evolves _ _
    have hnoted := noted_markProcessed hloaded pair.source.start.toNat
    dsimp only
    split_ifs
    · have hclassify := (Strict.classify_agrees (hmark.sound (hfirst.sound hs))
        (Strict.mem_of_locate? hpair) (hmark.extends.loaded hloaded) diagnostic.code).runs
      exact hclassify.evolves_after.noted hnoted
    · exact hnoted

/-- One attempt opens its place if nothing did before. -/
theorem attempt_opens (hs : Sound engine.setting.outside ws) (diagnostic : Diagnostic) :
    engine.Opens ws [engine.attempt ws diagnostic]
      (after (engine.classifyDiagnostic diagnostic) ws) where
  evolves := classifyDiagnostic_evolves hs diagnostic
  once _ := List.countP_le_length
  fresh place hnoted := by
    rw [List.countP_eq_zero]
    simp only [List.mem_singleton, forall_eq, opens, attempt, Bool.and_eq_true, beq_iff_eq, not_and]
    intro hplace
    rw [classifyDiagnostic_of_noted hplace hnoted]
    exact Bool.false_ne_true
  noted place hpos := by
    obtain ⟨_, hmem, hopens⟩ := List.countP_pos_iff.1 hpos
    rw [List.mem_singleton.1 hmem] at hopens
    simp only [opens, attempt, Bool.and_eq_true, beq_iff_eq] at hopens
    obtain ⟨hplace, houtcome⟩ := hopens
    refine (noted_after_classifyDiagnostic hs hplace).resolve_right ?_
    rintro ⟨fault, hrun⟩
    rw [hrun] at houtcome
    simp at houtcome

end Engine

/-! ## One run -/

namespace Run

variable {m : Type → Type} [Monad m] [LawfulMonad m] {engine : Engine} {run : Run}

omit [LawfulMonad m] in
/-- The attempts that `handleAll` makes: one for each diagnostic that it handles, the one at which
it fails included. -/
def attemptAll (engine : Engine) (presenter : Presenter m) :
    List Diagnostic → Run → m (List Attempt)
  | [], _ => pure []
  | diagnostic :: rest, run =>
    if run.resolution.stats.quit then pure []
    else
      run.handle engine presenter diagnostic >>= fun result =>
        let attempt := engine.attempt run.workspace diagnostic
        match result.2 with
        | some _ => pure [attempt]
        | none => attemptAll engine presenter rest result.1 >>= fun attempts =>
            pure (attempt :: attempts)

/-- Handling a diagnostic does to the workspace what classifying it does. -/
theorem handle_workspace (presenter : Presenter m) (diagnostic : Diagnostic) (run : Run) :
    Yields (run.handle engine presenter diagnostic) fun result =>
      result.1.workspace = after (engine.classifyDiagnostic diagnostic) run.workspace := by
  unfold handle after
  cases engine.classifyDiagnostic diagnostic run.workspace with
  | error failure ws => exact .pure rfl
  | ok classification ws =>
    cases classification with
    | duplicate => exact .pure rfl
    | unsupported entry => exact .pure rfl
    | problem problem suggestions => exact .map_of_forall _ fun _ => rfl

theorem attemptAll_opens {σ : Type} (presenter : Presenter (StateM σ))
    (diagnostics : List Diagnostic) (run : Run)
    (hs : Sound engine.setting.outside run.workspace) (state : σ) :
    engine.Opens run.workspace ((attemptAll engine presenter diagnostics run).run state).1
      ((handleAll engine presenter diagnostics run).run state).1.1.workspace := by
  induction diagnostics generalizing run state with
  | nil => exact .refl engine _
  | cons diagnostic rest ih =>
    unfold attemptAll handleAll
    split_ifs with hquit
    · exact .refl engine _
    · have hyields : Yields (run.handle engine presenter diagnostic) _ :=
        handle_workspace presenter diagnostic run
      have hworkspace := hyields.value state
      have hfirst := Engine.attempt_opens hs diagnostic
      rw [StateT.run_bind, StateT.run_bind]
      generalize (run.handle engine presenter diagnostic).run state = result at hworkspace ⊢
      obtain ⟨⟨next, failure⟩, state'⟩ := result
      rw [← show next.workspace = _ from hworkspace] at hfirst
      cases failure with
      | some failure => exact hfirst
      | none => exact hfirst.trans (ih next (hfirst.evolves.sound hs) state')

theorem Handles.workspace_eq {diagnostic : Diagnostic} {contribution : Contribution} {next : Run}
    (h : Handles engine diagnostic run contribution next) :
    (∃ classification, engine.classifyDiagnostic diagnostic run.workspace =
      .ok classification next.workspace) := by
  cases h with
  | duplicate classified => exact ⟨_, classified⟩
  | unsupported classified => exact ⟨_, classified⟩
  | presented classified settled => exact ⟨_, classified⟩

/-- After a run that handled diagnostics to the end their places are noted. -/
theorem Logs.noted {diagnostics : List Diagnostic} {contributions : List Contribution} {last : Run}
    (h : Logs engine diagnostics run contributions last)
    (hs : Sound engine.setting.outside run.workspace) :
    Evolves engine.setting run.workspace last.workspace ∧
      ∀ diagnostic ∈ diagnostics, ∀ place, engine.place? diagnostic = some place →
        Noted last.workspace.files place := by
  induction h with
  | nil run => exact ⟨.refl, fun _ h => by cases h⟩
  | @cons diagnostic diagnostics _ _ run next last going first rest ih =>
    obtain ⟨classification, hclassified⟩ := first.workspace_eq
    obtain ⟨hevolves, hnoted⟩ :=
      (Engine.classifyDiagnostic_notes hs diagnostic).of_ok hclassified
    obtain ⟨hrest, hothers⟩ := ih (hevolves.sound hs)
    refine ⟨hevolves.trans hrest, fun other hother place hplace => ?_⟩
    rcases List.mem_cons.1 hother with rfl | hother
    · exact hrest.noted (hnoted place hplace)
    · exact hothers other hother place hplace

/-- Diagnostics at noted places are counted, those without a place are reported, and nothing else
happens: the workspace stays as it is, and the presenter is not asked. -/
theorem handleAll_of_noted (presenter : Presenter m) {diagnostics : List Diagnostic}
    (hgoing : run.resolution.stats.quit = false)
    (hnoted : ∀ diagnostic ∈ diagnostics, ∀ place, engine.place? diagnostic = some place →
      Noted run.workspace.files place) :
    handleAll engine presenter diagnostics run =
      pure ({ run with
        duplicates := run.duplicates + engine.countPlaced diagnostics
        unsupported := run.unsupported ++ engine.unplaced diagnostics }, none) := by
  induction diagnostics generalizing run with
  | nil => simp [handleAll, Engine.countPlaced, Engine.unplaced]
  | cons diagnostic rest ih =>
    have hrest : ∀ other ∈ rest, ∀ place, engine.place? other = some place →
        Noted run.workspace.files place := fun other hother =>
      hnoted other (List.mem_cons_of_mem _ hother)
    rw [handleAll, if_neg (by simp [hgoing]), handle]
    cases hplace : engine.place? diagnostic with
    | some place =>
      have hfirst := hnoted diagnostic List.mem_cons_self place hplace
      rw [Engine.classifyDiagnostic_of_noted hplace hfirst]
      simp only [pure_bind]
      refine (ih ?_ ?_).trans ?_
      · exact hgoing
      · exact hrest
      · simp [Engine.countPlaced, Engine.unplaced, hplace, Nat.add_assoc, Nat.add_comm 1]
    | none =>
      rw [Engine.classifyDiagnostic_of_unplaced hplace]
      simp only [pure_bind]
      refine (ih ?_ ?_).trans ?_
      · exact hgoing
      · exact hrest
      · simp [Engine.countPlaced, Engine.unplaced, hplace]

end Run

/-! ## One run after the other -/

namespace Session

variable {σ : Type} {session : Session}

def attempts (session : Session) (presenter : Presenter (StateM σ)) (diagnostics : List Diagnostic)
    (state : σ) : List Attempt :=
  ((Run.attemptAll session.engine presenter diagnostics (.start session.workspace)).run state).1

/-- Runs of a session one after the other, with any presenters, and all the attempts they make. A
run counts however it ends. -/
inductive History (first : Session) : List Attempt → Session → Prop
  | start : History first [] first
  | run {attempts : List Attempt} {session : Session} {σ : Type}
      (before : History first attempts session) (presenter : Presenter (StateM σ))
      (diagnostics : List Diagnostic) (state : σ) :
      History first (attempts ++ session.attempts presenter diagnostics state)
        ((session.run presenter diagnostics).run state).1.2

/-- A run leaves its session with the workspace in which it ended. -/
theorem run_session (presenter : Presenter (StateM σ)) (diagnostics : List Diagnostic) (state : σ) :
    ((session.run presenter diagnostics).run state).1.2 =
      { session with workspace := (session.handled presenter diagnostics state).1.workspace } := by
  unfold run handled
  rw [StateT.run_bind]
  generalize (Run.handleAll session.engine presenter diagnostics
    (.start session.workspace)).run state = result
  obtain ⟨⟨run, failure⟩, state'⟩ := result
  cases failure <;> rfl

theorem History.opens {first : Session} {attempts : List Attempt}
    (h : History first attempts session)
    (hs : Sound first.engine.setting.outside first.workspace) :
    session.engine = first.engine ∧
      first.engine.Opens first.workspace attempts session.workspace := by
  induction h with
  | start => exact ⟨rfl, .refl _ _⟩
  | @run attempts session σ before presenter diagnostics state ih =>
    obtain ⟨hengine, hopens⟩ := ih
    have hsound : Sound session.engine.setting.outside session.workspace := by
      rw [hengine]
      exact hopens.evolves.sound hs
    have hnext := Run.attemptAll_opens presenter diagnostics (.start session.workspace) hsound state
    rw [run_session]
    refine ⟨hengine, hopens.trans ?_⟩
    rw [← hengine]
    exact hnext

/-- After a run that handled its diagnostics to the end their places are noted. -/
theorem noted_of_handled (hs : Sound session.engine.setting.outside session.workspace)
    {presenter : Presenter (StateM σ)} {diagnostics : List Diagnostic} {state : σ}
    (hended : (session.handled presenter diagnostics state).2 = none)
    (hgoing : (session.handled presenter diagnostics state).1.resolution.stats.quit = false) :
    ∀ diagnostic ∈ diagnostics, ∀ place, session.engine.place? diagnostic = some place →
      Noted (session.handled presenter diagnostics state).1.workspace.files place := by
  obtain ⟨handled, rest, contributions, hsplit, hlogs, hall⟩ :=
    logs_of_handled (Prod.ext rfl hended)
  rw [hall hgoing, List.append_nil] at hsplit
  rw [hsplit] at hlogs ⊢
  exact (hlogs.noted hs).2

/-- A list of diagnostics at noted places comes to nothing. -/
theorem run_of_noted {m : Type → Type} [Monad m] [LawfulMonad m] (presenter : Presenter m)
    {diagnostics : List Diagnostic}
    (hnoted : ∀ diagnostic ∈ diagnostics, ∀ place, session.engine.place? diagnostic = some place →
      Noted session.workspace.files place) :
    session.run presenter diagnostics =
      pure (.ok
        { files := ∅
          unsupported := session.engine.unplaced diagnostics
          suggestions := []
          unapplied := []
          duplicates := session.engine.countPlaced diagnostics
          stats := ⟨0, 0, 0, 0, false⟩ }, session) := by
  unfold run
  rw [Run.handleAll_of_noted presenter rfl hnoted, pure_bind]
  simp [Run.finish, Run.start, Resolution.start, Patch.apply, Patch.applyFiles, Run.report,
    Except.map]

/-- Each place is taken up once in the life of a session. Over any runs of a new session at most one
diagnostic whose source begins at a place is classified as anything but a duplicate. So when a run
has handled its diagnostics to the end, without a failure and without being quit, then whatever runs
come after it, running those diagnostics once more, or some of them, asks no one, chooses and
changes nothing and leaves the session as it is: those that have a place are counted as duplicates
and the others are reported again. -/
theorem each_place_opened_once {snapshot : Snapshot} {store : Store} {options : Options}
    {attempts : List Attempt} (h : History (new snapshot store options) attempts session) :
    (∀ place, attempts.countP (session.engine.opens place) ≤ 1) ∧
      ∀ (σ : Type) (presenter : Presenter (StateM σ)) (diagnostics : List Diagnostic) (state : σ),
        (session.handled presenter diagnostics state).2 = none →
        (session.handled presenter diagnostics state).1.resolution.stats.quit = false →
        ∀ (others : List Attempt) (later : Session),
          History ((session.run presenter diagnostics).run state).1.2 others later →
          ∀ again ⊆ diagnostics, ∀ (m : Type → Type) [Monad m] [LawfulMonad m]
            (presenter' : Presenter m),
            later.run presenter' again =
              pure (.ok
                { files := ∅
                  unsupported := later.engine.unplaced again
                  suggestions := []
                  unapplied := []
                  duplicates := later.engine.countPlaced again
                  stats := ⟨0, 0, 0, 0, false⟩ }, later) := by
  have hempty : Sound (new snapshot store options).engine.setting.outside
      (new snapshot store options).workspace := sound_empty _
  obtain ⟨hengine, hopens⟩ := h.opens hempty
  have hsound : Sound session.engine.setting.outside session.workspace := by
    rw [hengine]
    exact hopens.evolves.sound hempty
  refine ⟨fun place => by rw [hengine]; exact hopens.once place, ?_⟩
  intro σ presenter diagnostics state hended hgoing others later hlater again hagain m _ _ presenter'
  have hnoted := noted_of_handled hsound hended hgoing
  have hevolves := (Run.attemptAll_opens presenter diagnostics (.start session.workspace) hsound
    state).evolves
  rw [run_session] at hlater
  obtain ⟨hsame, hrest⟩ := hlater.opens (hevolves.sound hsound)
  refine run_of_noted presenter' fun diagnostic hmem place hplace => ?_
  rw [hsame] at hplace
  exact hrest.evolves.noted (hnoted diagnostic (hagain hmem) place hplace)

/-- The session in which the user mended the first assignment and skipped the second. -/
def afterEverySort : Session :=
  ((threeAssignments.run answering everySort).run [.select 0, .skip]).1.2

/-- The six diagnostics come to five duplicates when they are run again, whoever is there to be
asked, and the place with no node is reported again. -/
theorem each_place_opened_once_everySort :
    History threeAssignments [] threeAssignments ∧
      (threeAssignments.handled answering everySort [.select 0, .skip]).2 = none ∧
      (threeAssignments.handled answering everySort [.select 0, .skip]).1.resolution.stats =
        ⟨3, 1, 2, 1, false⟩ ∧
      (∃ attempts, History threeAssignments attempts afterEverySort ∧
        ∀ place, attempts.countP (afterEverySort.engine.opens place) ≤ 1) ∧
      ∀ presenter : Presenter (StateM (List Decision)),
        afterEverySort.run presenter everySort =
          pure (.ok
            { files := ∅
              unsupported := [⟨2322, "Unknown", "a.ts", 0⟩]
              suggestions := []
              unapplied := []
              duplicates := 5
              stats := ⟨0, 0, 0, 0, false⟩ }, afterEverySort) := by
  have hbefore : History threeAssignments [] threeAssignments := .start
  have hafter : History threeAssignments _ afterEverySort :=
    .run hbefore answering everySort [.select 0, .skip]
  have hended : (threeAssignments.handled answering everySort [.select 0, .skip]).2 = none := by
    decide +kernel
  have hstats : (threeAssignments.handled answering everySort
      [.select 0, .skip]).1.resolution.stats = ⟨3, 1, 2, 1, false⟩ := by
    decide +kernel
  have hcount : threeAssignments.engine.countPlaced everySort = 5 := by
    decide +kernel
  have hunplaced : threeAssignments.engine.unplaced everySort =
      [⟨2322, "Unknown", "a.ts", 0⟩] := by
    decide +kernel
  have hengine : afterEverySort.engine = threeAssignments.engine := by
    rw [afterEverySort, run_session]
  refine ⟨hbefore, hended, hstats, ⟨_, hafter, (each_place_opened_once hafter).1⟩,
    fun presenter => ?_⟩
  rw [(each_place_opened_once hbefore).2 _ answering everySort _ hended (by rw [hstats]) []
    afterEverySort .start everySort (List.Subset.refl _) _ presenter, hengine, hcount, hunplaced]

end Session

end TypeMend
