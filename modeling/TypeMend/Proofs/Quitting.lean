import TypeMend.Proofs.Contributions
import TypeMend.Proofs.Findings
import TypeMend.Proofs.PassedOver

/-!
# Quitting is stopping before

A user who quits at a problem gets what a run over the diagnostics before it gives. The diagnostic
of that problem has been classified by then: files have been loaded, and nodes and declarations were
added to the workspace with which the edits are applied. The edits name older nodes only, and what a
workspace had stays as it was, so that they come to the same changes.
-/
namespace TypeMend

open Workspace

/-! ## Edits in a workspace that has grown -/

namespace Patch

variable {ws ws' : Workspace}

theorem resolve_of_extends (h : Extends ws ws') (options : Options) {edit : Edit}
    (hedit : ws.HoldsEdit edit) (cs : List Char) :
    resolve ws' options edit cs = resolve ws options edit cs := by
  have hother : edit.other.map ws'.node = edit.other.map ws.node :=
    Option.map_congr fun id hid => h.node_eq id (hedit.other_lt id hid)
  rw [resolve, resolve, h.node_eq _ hedit.prime_lt, hother]

theorem select_of_extends (h : Extends ws ws') (options : Options) (file : String) (cs : List Char)
    {edits : List Edit} (hedits : ∀ edit ∈ edits, ws.HoldsEdit edit) :
    select ws' options file cs edits = select ws options file cs edits :=
  List.foldl_ext _ _ _ fun selection edit hedit => by
    rw [resolve_of_extends h options (hedits edit hedit)]

/-- Edits of loaded files come to the same when nodes and files have been added. -/
theorem applyFiles_of_extends (h : Extends ws ws') (options : Options)
    {entries : List (String × List Edit)}
    (hentries : ∀ entry ∈ entries, ∀ edit ∈ entry.2, ws.HoldsEdit edit)
    (hloaded : ∀ entry ∈ entries, ws.Loaded entry.1) (outcome : PatchOutcome) :
    applyFiles ws' options entries outcome = applyFiles ws options entries outcome := by
  induction entries generalizing outcome with
  | nil => rfl
  | cons entry rest ih =>
    obtain ⟨file, edits⟩ := entry
    obtain ⟨text, htext⟩ := hloaded _ List.mem_cons_self
    have hselect := select_of_extends h options file text.toList (hentries _ List.mem_cons_self)
    have hrest := ih (fun other hother => hentries other (List.mem_cons_of_mem _ hother))
      fun other hother => hloaded other (List.mem_cons_of_mem _ hother)
    simp only [applyFiles, htext, h.fileText_eq _ _ htext, hselect, hrest]

theorem loaded_of_apply_eq_ok {options : Options} {pending : PendingEdits} {outcome : PatchOutcome}
    (h : apply ws options pending = .ok outcome) :
    ∀ entry ∈ pending.entries, ws.Loaded entry.1 := by
  intro entry hentry
  by_contra hnot
  rw [loaded_iff, Bool.not_eq_true] at hnot
  have hmissing : ((pending.entries.map Prod.fst).find? fun file =>
      !ws.files.contains file).isSome = true := by
    rw [List.find?_isSome]
    exact ⟨entry.1, List.mem_map_of_mem hentry, by simp [hnot]⟩
  obtain ⟨file, hfile⟩ := Option.isSome_iff_exists.1 hmissing
  have herror := (applyFiles_eq_error_iff ws options pending.entries ⟨∅, []⟩ _).2 ⟨file, hfile, rfl⟩
  rw [apply, herror] at h
  cases h

end Patch

/-! ## Where a run stops -/

namespace Run

variable {m : Type → Type} [Monad m] [LawfulMonad m] {engine : Engine} {diagnostic : Diagnostic}
  {contribution : Contribution} {run next : Run}

/-- Diagnostics are handled one list after the other. -/
theorem handleAll_append (presenter : Presenter m) (before after : List Diagnostic) (run : Run) :
    handleAll engine presenter (before ++ after) run =
      handleAll engine presenter before run >>= fun result =>
        match result.2 with
        | some failure => pure (result.1, some failure)
        | none => handleAll engine presenter after result.1 := by
  induction before generalizing run with
  | nil => simp [handleAll]
  | cons diagnostic before ih =>
    rw [List.cons_append, handleAll, handleAll]
    split_ifs with hquit
    · rw [pure_bind]
      exact (handleAll_of_quit presenter after hquit).symm
    · rw [bind_assoc]
      refine bind_congr fun result => ?_
      obtain ⟨next, failure⟩ := result
      cases failure with
      | some failure => simp
      | none => exact ih next

/-- A diagnostic that cannot be handled changes nothing but the workspace. -/
theorem handle_failed (engine : Engine) (presenter : Presenter m) (diagnostic : Diagnostic)
    (run : Run) :
    Yields (run.handle engine presenter diagnostic) fun result =>
      result.2 ≠ none → result.1.resolution = run.resolution := by
  unfold handle
  cases engine.classifyDiagnostic diagnostic run.workspace with
  | error failure ws => exact .pure fun _ => rfl
  | ok classification ws =>
    cases classification with
    | duplicate => exact .pure fun h => absurd rfl h
    | unsupported entry => exact .pure fun h => absurd rfl h
    | problem problem suggestions => exact .map_of_forall _ fun _ h => absurd rfl h

theorem Handles.extends (h : Handles engine diagnostic run contribution next)
    (hrun : run.Unbroken engine) : Extends run.workspace next.workspace := by
  have hruns : Runs engine.setting (engine.classifyDiagnostic diagnostic) run.workspace _ :=
    (Strict.classifyDiagnostic_agrees hrun.sound diagnostic).runs
  cases h with
  | duplicate classified => exact (hruns.of_ok classified).1.extends
  | unsupported classified => exact (hruns.of_ok classified).1.extends
  | presented classified settled => exact (hruns.of_ok classified).1.extends

/-- Quitting at a problem counts it and adds to the workspace, and that is all: there is a choice,
so that the problem comes without advice. -/
theorem Handles.eq_of_quit (h : Handles engine diagnostic run contribution next)
    (hquit : contribution.isQuit = true) :
    next = { run with workspace := next.workspace, resolution := run.resolution.count.quit } := by
  have hformed := h.wellFormed
  cases h with
  | duplicate classified => cases hquit
  | unsupported classified => cases hquit
  | @presented problem suggestions ws state pushes resolution classified settled =>
    cases settled with
    | advised unoffered => cases hquit
    | skipped offered => cases hquit
    | selected found => cases hquit
    | quit offered =>
      obtain ⟨hadvice, hnone, -⟩ := hformed
      have hsuggestions : suggestions = [] := by
        by_contra hne
        exact offered (hnone (hadvice.1 hne))
      simp [hsuggestions]

end Run

namespace Session

variable {σ : Type} {session : Session} {presenter : Presenter (StateM σ)} {state : σ}
  {before : List Diagnostic} {diagnostic : Diagnostic}

/-- Diagnostics that follow others are handled from where those led. -/
theorem handled_append {last : Run}
    (h : session.handled presenter before state = (last, none)) :
    ∃ state', ∀ after, session.handled presenter (before ++ after) state =
      ((Run.handleAll session.engine presenter after last).run state').1 := by
  unfold handled at h
  cases hfirst : (Run.handleAll session.engine presenter before (.start session.workspace)).run
      state with
  | mk result state' =>
    rw [hfirst] at h
    change result = (last, none) at h
    refine ⟨state', fun after => ?_⟩
    rw [handled, Run.handleAll_append, StateT.run_bind, hfirst, h]
    rfl

/-- The diagnostic at which a run is quit is handled from where the ones before it led, and the ones
after it are not handled. -/
theorem handled_of_quit {last : Run}
    (hbefore : session.handled presenter before state = (last, none))
    (hgoing : last.resolution.stats.quit = false)
    (hquits : (session.handled presenter (before ++ [diagnostic]) state).1.resolution.stats.quit =
      true) (after : List Diagnostic) :
    ∃ contribution next, Run.Handles session.engine diagnostic last contribution next ∧
      contribution.isQuit = true ∧
      session.handled presenter (before ++ diagnostic :: after) state = (next, none) := by
  obtain ⟨state', happend⟩ := handled_append hbefore
  have hyields : Yields (last.handle session.engine presenter diagnostic) _ :=
    Run.handle_handles presenter diagnostic hgoing
  have hhandles := hyields.value state'
  have hfailed := (Run.handle_failed session.engine presenter diagnostic last).value state'
  have hstep (rest : List Diagnostic) := happend (diagnostic :: rest)
  simp only [Run.handleAll, hgoing, Bool.false_eq_true, if_false, StateT.run_bind] at hstep
  rw [hstep] at hquits ⊢
  generalize (last.handle session.engine presenter diagnostic).run state' = result at *
  obtain ⟨⟨next, failure⟩, state''⟩ := result
  cases failure with
  | some failure =>
    have hquits : next.resolution.stats.quit = true := hquits
    rw [hfailed (by simp), hgoing] at hquits
    cases hquits
  | none =>
    have hquits : next.resolution.stats.quit = true := hquits
    obtain ⟨contribution, hcontributes⟩ := hhandles rfl
    refine ⟨contribution, next, hcontributes, ?_, ?_⟩
    · rw [← hcontributes.quit_eq hgoing, hquits]
    · change ((Run.handleAll session.engine presenter after next).run state'').1 = _
      rw [Run.handleAll_of_quit presenter after hquits]
      rfl

/-- Quitting is stopping before. When a run over some diagnostics has a report and the user would
quit at the problem of the next one, then the run that goes on with it has a report as well,
whatever comes after: the same one, except that the problem is counted and the run was quit. -/
theorem run_quit_eq_run_before (h : session.Reached) {report : Report}
    (hgoing : (session.handled presenter before state).1.resolution.stats.quit = false)
    (hquits : (session.handled presenter (before ++ [diagnostic]) state).1.resolution.stats.quit =
      true)
    (hrun : ((session.run presenter before).run state).1.1 = .ok report)
    (after : List Diagnostic) :
    report.stats.quit = false ∧
      ((session.run presenter (before ++ diagnostic :: after)).run state).1.1 =
        .ok { report with
          stats := { report.stats with problems := report.stats.problems + 1, quit := true } } := by
  obtain ⟨last, outcome, hhandled, happly, rfl⟩ := exists_handled hrun
  rw [hhandled] at hgoing
  obtain ⟨contribution, next, hhandles, hquit, hnext⟩ :=
    handled_of_quit hhandled hgoing hquits after
  have hlast : last.Unbroken session.engine := by
    have hspec := (handled_spec h.sound presenter before state).1
    rwa [hhandled] at hspec
  have hnextEq := hhandles.eq_of_quit hquit
  have hsame : Patch.apply next.workspace session.engine.options last.resolution.pending =
      .ok outcome := by
    rw [← happly]
    exact Patch.applyFiles_of_extends (hhandles.extends hlast) _
      (fun entry hentry edit hedit =>
        (hlast.pending_held.edit_held entry.1 entry.2 hentry edit hedit).1)
      (Patch.loaded_of_apply_eq_ok happly) _
  refine ⟨hgoing, ?_⟩
  rw [run_value, hnext, hnextEq]
  change (Patch.apply next.workspace session.engine.options last.resolution.pending).map _ = _
  rw [hsame]
  rfl

theorem run_quit_eq_run_before_everySort :
    threeAssignments.Reached ∧ ∃ report,
      ((threeAssignments.run answering (everySort.take 4)).run [.select 0]).1.1 = .ok report ∧
      report.files.entries = [("a.ts", "let x: string | number = 5; let y: string = 6; p = 7;")] ∧
      report.stats = ⟨2, 1, 1, 1, false⟩ ∧
      ((threeAssignments.run answering everySort).run [.select 0]).1.1 =
        .ok { report with stats := ⟨3, 1, 1, 1, true⟩ } := by
  have hreached : threeAssignments.Reached := .new _ _ _
  have hgoing : (threeAssignments.handled answering (everySort.take 4)
      [.select 0]).1.resolution.stats.quit = false := by
    decide +kernel
  have hquits : (threeAssignments.handled answering
      (everySort.take 4 ++ [⟨2322, "a.ts", 35, 1, ""⟩]) [.select 0]).1.resolution.stats.quit =
        true := by
    decide +kernel
  have hcheck : checkReport
      ((threeAssignments.run answering (everySort.take 4)).run [.select 0]).1.1
      (fun report => decide (report.files.entries =
        [("a.ts", "let x: string | number = 5; let y: string = 6; p = 7;")] ∧
          report.stats = ⟨2, 1, 1, 1, false⟩)) = true := by
    decide +kernel
  obtain ⟨report, hrun, hfacts⟩ := exists_of_checkReport hcheck
  obtain ⟨hfiles, hstats⟩ := of_decide_eq_true hfacts
  have hsplit : everySort.take 4 ++ ⟨2322, "a.ts", 35, 1, ""⟩ :: everySort.drop 5 = everySort := rfl
  obtain ⟨-, hwhole⟩ := run_quit_eq_run_before hreached hgoing hquits hrun (everySort.drop 5)
  rw [hsplit, hstats] at hwhole
  exact ⟨hreached, report, hrun, hfiles, hstats, hwhole⟩

end Session

end TypeMend
