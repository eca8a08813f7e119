import TypeMend.Proofs.PatchOrder
import TypeMend.Proofs.StrayTypes

/-!
# Every diagnostic is accounted for

A diagnostic that a run handles contributes one thing: it counts as a duplicate, it is reported as
not understood, or its problem is presented and settled. `Handles` says what one diagnostic does to
a run, and `Logs` what one diagnostic after the other does. The numbers and lists of a report are
the totals of the contributions, so that they add up to the diagnostics that were handled: all of
them, or those up to the one at which the user quit.
-/
namespace TypeMend

open Workspace

/-! ## Advice goes with advisory kinds -/

namespace Workspace

variable {α β : Type}

/-- Whatever an action returns, from any workspace, has `P`. -/
def Returns (x : Action α) (P : α → Prop) : Prop :=
  ∀ ws a ws', x ws = .ok a ws' → P a

namespace Returns

variable {x : Action α} {f : α → Action β} {P : α → Prop} {Q : β → Prop}

theorem pure {a : α} (h : P a) : Returns (pure a) P := by
  intro ws b ws' hrun
  cases hrun
  exact h

theorem bind (hx : Returns x P) (hf : ∀ a, P a → Returns (f a) Q) : Returns (x >>= f) Q := by
  intro ws b ws' hrun
  obtain ⟨a, ws₁, hfirst, hnext⟩ := ok_of_bind_eq_ok hrun
  exact hf a (hx ws a ws₁ hfirst) ws₁ b ws' hnext

/-- What comes before the last action does not matter. -/
theorem after (hf : ∀ a, Returns (f a) Q) : Returns (x >>= f) Q :=
  bind (P := fun _ => True) (fun _ _ _ _ => trivial) fun a _ => hf a

end Returns

end Workspace

/-- There is advice exactly for the kinds that lead to nothing else, and then the target has no
declaration that could be edited. -/
def Classification.Advises : Classification → Prop
  | .problem found suggestions =>
    (suggestions ≠ [] ↔ found.kind.isAdvisory = true) ∧
      (found.kind.isAdvisory = true → found.targetDeclaration = none)
  | _ => True

theorem Classification.advises_of_edited {problem : Problem}
    (h : problem.kind.isAdvisory = false) : (Classification.problem problem []).Advises := by
  simp [Advises, h]

theorem Advice.objectToSimple_ne_nil (pair : NodePair) (source : Shape) :
    objectToSimple pair source ≠ [] := by
  unfold objectToSimple
  dsimp only
  split_ifs with hempty
  · simp
  · simpa using hempty

theorem ProblemKind.ofComparison?_not_advisory {comparison : Comparison} {kind : ProblemKind}
    (h : ofComparison? comparison = some kind) : kind.isAdvisory = false := by
  unfold ofComparison? at h
  split_ifs at h
  · cases h
    rfl
  · split at h <;> cases h <;> rfl

/-- Nothing is offered for an advisory problem. -/
theorem Candidate.all_of_advisory (ws : Workspace) (options : Options) {problem : Problem}
    (hkind : problem.kind.isAdvisory = true) (hnone : problem.targetDeclaration = none) :
    Candidate.all ws options problem = [] := by
  have hmismatch : problem.kind ≠ .mismatch := by
    intro h
    rw [h] at hkind
    cases hkind
  simp [Candidate.all, Problem.declaration?, hnone, hmismatch]

namespace Engine

variable (engine : Engine) (pair : NodePair) {problem : Problem}

/-- An optional classification advises. -/
def Advising (result : Option Classification) : Prop :=
  ∀ classification ∈ result, classification.Advises

theorem Advising.none : Advising none :=
  fun _ h => by cases h

theorem Advising.some {classification : Classification} (h : classification.Advises) :
    Advising (some classification) := by
  intro other hother
  cases hother
  exact h

theorem classifyPlaceholder_advises (slot : MemberSlot)
    (hkind : problem.kind.isAdvisory = false) :
    Returns (engine.classifyPlaceholder pair slot problem) Advising := by
  unfold classifyPlaceholder
  refine .after fun declaration => .after fun member => ?_
  cases member with
  | some member =>
    refine .after fun ws => ?_
    dsimp only
    split_ifs
    · exact .pure .none
    · exact .pure (.some (Classification.advises_of_edited rfl))
  | none =>
    refine .after fun carrier => .after fun ws => ?_
    exact .pure (.some (Classification.advises_of_edited hkind))

theorem narrow_not_advisory (target : Shape) (hkind : problem.kind.isAdvisory = false) :
    Returns (narrow pair target problem) fun result => result.kind.isAdvisory = false := by
  unfold narrow
  split
  · split
    · exact .pure hkind
    · exact .pure rfl
    · exact .after fun carrier => .pure rfl
  · exact .pure hkind

theorem classifyObjects_advises (source target : Shape) (problem : Problem) :
    Returns (engine.classifyObjects pair source target problem) Advising := by
  unfold classifyObjects
  dsimp only
  cases hkind : ProblemKind.ofComparison? (source.compare TypeText.assignable target) with
  | none => exact .pure .none
  | some kind =>
    refine .after fun sourceDeclaration => .after fun targetDeclaration => ?_
    refine .after fun carriers => .after fun members => ?_
    refine (narrow_not_advisory pair target ?_).bind fun result hresult => ?_
    · exact ProblemKind.ofComparison?_not_advisory hkind
    · exact .pure (.some (Classification.advises_of_edited hresult))

theorem classifyValues_advises (hkind : problem.kind = .mismatch)
    (hnone : problem.targetDeclaration = none) :
    Returns (engine.classifyValues pair problem) Advising := by
  have hadvice (kind : ProblemKind) {suggestions : List Suggestion} (hne : suggestions ≠ [])
      (hadvisory : kind.isAdvisory = true) :
      (Classification.problem { problem with kind := kind } suggestions).Advises :=
    ⟨iff_of_true hne hadvisory, fun _ => hnone⟩
  unfold classifyValues
  cases engine.snapshot.shapeOf? pair.source.typeText with
  | none =>
    cases engine.snapshot.shapeOf? pair.target.typeText with
    | none => exact .pure (.some (Classification.advises_of_edited (by rw [hkind]; rfl)))
    | some target => exact .pure (.some (hadvice _ (by simp) rfl))
  | some source =>
    cases engine.snapshot.shapeOf? pair.target.typeText with
    | none => exact .pure (.some (hadvice _ (Advice.objectToSimple_ne_nil pair source) rfl))
    | some target => exact engine.classifyObjects_advises pair source target problem

theorem Advising.getD {result : Option Classification} (h : Advising result)
    (unsupported : Unsupported) : (result.getD (.unsupported unsupported)).Advises := by
  cases result with
  | none => trivial
  | some classification => exact h classification rfl

theorem classify_advises (code : UInt32) :
    Returns (engine.classify code pair) Classification.Advises := by
  unfold classify
  dsimp only
  cases Family.ofCode? code with
  | none => exact .pure trivial
  | some family =>
    refine .after fun _ => .after fun outer => .after fun inner => ?_
    cases pair.source.placeholder with
    | some slot =>
      refine (engine.classifyPlaceholder_advises pair slot ?_).bind
        fun result hresult => .pure (hresult.getD _)
      rfl
    | none =>
      dsimp only
      split_ifs
      · exact .pure trivial
      · exact (engine.classifyValues_advises pair rfl rfl).bind
          fun result hresult => .pure (hresult.getD _)

theorem classifyDiagnostic_advises (diagnostic : Diagnostic) :
    Returns (engine.classifyDiagnostic diagnostic) Classification.Advises := by
  unfold classifyDiagnostic
  cases engine.snapshot.locate? diagnostic.file diagnostic.start with
  | none => exact .pure trivial
  | some pair =>
    refine .after fun _ => .after fun fresh => ?_
    split_ifs
    · exact engine.classify_advises pair diagnostic.code
    · exact .pure trivial

end Engine

/-! ## What a diagnostic contributes -/

/-- What a diagnostic contributes to a run. A problem that is presented comes with its advice, the
candidates that are offered, what became of it, and the edits that were chosen for it, each with
the file that it writes to. -/
inductive Contribution
  | duplicate
  | unsupported (entry : Unsupported)
  | presented (problem : Problem) (suggestions : List Suggestion) (offered : List Candidate)
      (state : ProblemState) (pushes : List (String × Edit))
  deriving DecidableEq

namespace Contribution

/-- Whether the diagnostic was classified before. -/
@[simp] def isDuplicate : Contribution → Bool
  | duplicate => true
  | _ => false

/-- The report of a diagnostic that is not understood. -/
@[simp] def unsupported? : Contribution → Option Unsupported
  | unsupported entry => some entry
  | _ => none

@[simp] def suggestions : Contribution → List Suggestion
  | presented _ suggestions _ _ _ => suggestions
  | _ => []

@[simp] def pushes : Contribution → List (String × Edit)
  | presented _ _ _ _ pushes => pushes
  | _ => []

@[simp] def isPresented : Contribution → Bool
  | presented .. => true
  | _ => false

@[simp] def isSelected : Contribution → Bool
  | presented _ _ _ (.selected _) _ => true
  | _ => false

@[simp] def isSkipped : Contribution → Bool
  | presented _ _ _ .skipped _ => true
  | _ => false

@[simp] def isQuit : Contribution → Bool
  | presented _ _ _ .quit _ => true
  | _ => false

/-- Whether a problem was presented for which nothing was offered. -/
@[simp] def isUnoffered : Contribution → Bool
  | presented _ _ offered _ _ => offered.isEmpty
  | _ => false

/-- Advice goes with the advisory kinds, which lead to no edit, and what nothing is offered for is
skipped. -/
def WellFormed : Contribution → Prop
  | presented problem suggestions offered state pushes =>
    (suggestions ≠ [] ↔ problem.kind.isAdvisory = true) ∧
      (problem.kind.isAdvisory = true → offered = []) ∧
      (offered = [] → state = .skipped ∧ pushes = [])
  | _ => True

/-- Each diagnostic contributes one thing. -/
theorem tally (contributions : List Contribution) :
    contributions.countP isDuplicate + (contributions.filterMap unsupported?).length +
      contributions.countP isPresented = contributions.length := by
  induction contributions with
  | nil => rfl
  | cons contribution rest ih =>
    cases contribution <;> simp [List.countP_cons, List.filterMap_cons] <;> omega

/-- Each problem becomes one thing. -/
theorem countP_isPresented (contributions : List Contribution) :
    contributions.countP isPresented = contributions.countP isSelected +
      contributions.countP isSkipped + contributions.countP isQuit := by
  induction contributions with
  | nil => rfl
  | cons contribution rest ih =>
    cases contribution with
    | duplicate => simpa using ih
    | unsupported entry => simpa using ih
    | presented problem suggestions offered state pushes =>
      cases state <;> simp [List.countP_cons] <;> omega

theorem WellFormed.isSkipped {contribution : Contribution} (h : contribution.WellFormed)
    (hnone : contribution.isUnoffered = true) : contribution.isSkipped = true := by
  cases contribution with
  | duplicate => cases hnone
  | unsupported entry => cases hnone
  | presented problem suggestions offered state pushes =>
    obtain ⟨rfl, -⟩ := h.2.2 (List.isEmpty_iff.1 hnone)
    rfl

end Contribution

/-- The numbers and lists of a report are the totals of contributions. -/
structure Report.TotalsOf (report : Report) (contributions : List Contribution) : Prop where
  duplicates_eq : report.duplicates = contributions.countP Contribution.isDuplicate
  unsupported_eq : report.unsupported = contributions.filterMap Contribution.unsupported?
  suggestions_eq : report.suggestions = contributions.flatMap Contribution.suggestions
  problems_eq : report.stats.problems = contributions.countP Contribution.isPresented
  selected_eq : report.stats.selected = contributions.countP Contribution.isSelected
  skipped_eq : report.stats.skipped = contributions.countP Contribution.isSkipped
  withoutCandidates_eq : report.stats.withoutCandidates =
    contributions.countP Contribution.isUnoffered

/-- The edits of a candidate, each with the file of the node it writes to. -/
def Candidate.pushes (ws : Workspace) (candidate : Candidate) : List (String × Edit) :=
  candidate.edits.map fun edit => ((ws.node edit.writtenNode).file, edit)

/-- Adds edits of files, one after the other. -/
def PendingEdits.pushEach (pending : PendingEdits) (pushes : List (String × Edit)) : PendingEdits :=
  pushes.foldl (fun pending push => pending.push push.1 push.2) pending

theorem PendingEdits.pushAll_eq (pending : PendingEdits) (ws : Workspace) (candidate : Candidate) :
    pending.pushAll ws candidate.edits = pending.pushEach (candidate.pushes ws) := by
  rw [pushAll, pushEach, Candidate.pushes, List.foldl_map]

theorem PendingEdits.pushEach_append (pending : PendingEdits)
    (pushes pushes' : List (String × Edit)) :
    pending.pushEach (pushes ++ pushes') = (pending.pushEach pushes).pushEach pushes' :=
  List.foldl_append

/-- What becomes of a problem when it is presented with candidates, the edits that are chosen, and
the state of the run afterwards. -/
inductive Resolution.Settles (resolution : Resolution) (ws : Workspace)
    (candidates : List Candidate) : ProblemState → List (String × Edit) → Resolution → Prop
  | advised (unoffered : candidates = []) :
      Settles resolution ws candidates .skipped [] resolution.count.passOver
  | skipped (offered : candidates ≠ []) :
      Settles resolution ws candidates .skipped [] resolution.count.skip
  | quit (offered : candidates ≠ []) :
      Settles resolution ws candidates .quit [] resolution.count.quit
  | selected {index : Nat} {candidate : Candidate} (found : candidates[index]? = some candidate) :
      Settles resolution ws candidates (.selected index) (candidate.pushes ws)
        (resolution.count.take (resolution.pending.pushEach (candidate.pushes ws)))

namespace Run

/-- A diagnostic contributes something to a run, after which the run is another one. -/
inductive Handles (engine : Engine) (diagnostic : Diagnostic) (run : Run) :
    Contribution → Run → Prop
  | duplicate {ws : Workspace}
      (classified : engine.classifyDiagnostic diagnostic run.workspace = .ok .duplicate ws) :
      Handles engine diagnostic run .duplicate
        { run with workspace := ws, duplicates := run.duplicates + 1 }
  | unsupported {entry : Unsupported} {ws : Workspace}
      (classified :
        engine.classifyDiagnostic diagnostic run.workspace = .ok (.unsupported entry) ws) :
      Handles engine diagnostic run (.unsupported entry)
        { run with workspace := ws, unsupported := run.unsupported ++ [entry] }
  | presented {problem : Problem} {suggestions : List Suggestion} {ws : Workspace}
      {state : ProblemState} {pushes : List (String × Edit)} {resolution : Resolution}
      (classified : engine.classifyDiagnostic diagnostic run.workspace =
        .ok (.problem problem suggestions) ws)
      (settled : run.resolution.Settles ws (Candidate.all ws engine.options problem) state pushes
        resolution) :
      Handles engine diagnostic run
        (.presented problem suggestions (Candidate.all ws engine.options problem) state pushes)
        { run with
          workspace := ws, resolution := resolution, suggestions := run.suggestions ++ suggestions }

/-- What diagnostics contribute one after the other, as long as the user does not quit. -/
inductive Logs (engine : Engine) : List Diagnostic → Run → List Contribution → Run → Prop
  | nil (run : Run) : Logs engine [] run [] run
  | cons {diagnostic : Diagnostic} {diagnostics : List Diagnostic} {contribution : Contribution}
      {contributions : List Contribution} {run next last : Run}
      (going : run.resolution.stats.quit = false)
      (first : Handles engine diagnostic run contribution next)
      (rest : Logs engine diagnostics next contributions last) :
      Logs engine (diagnostic :: diagnostics) run (contribution :: contributions) last

/-- The counters and lists of a run grow by the totals of contributions. -/
structure Books (run : Run) (contributions : List Contribution) (last : Run) : Prop where
  duplicates_eq : last.duplicates = run.duplicates + contributions.countP Contribution.isDuplicate
  unsupported_eq : last.unsupported =
    run.unsupported ++ contributions.filterMap Contribution.unsupported?
  suggestions_eq : last.suggestions =
    run.suggestions ++ contributions.flatMap Contribution.suggestions
  problems_eq : last.resolution.stats.problems =
    run.resolution.stats.problems + contributions.countP Contribution.isPresented
  selected_eq : last.resolution.stats.selected =
    run.resolution.stats.selected + contributions.countP Contribution.isSelected
  skipped_eq : last.resolution.stats.skipped =
    run.resolution.stats.skipped + contributions.countP Contribution.isSkipped
  withoutCandidates_eq : last.resolution.stats.withoutCandidates =
    run.resolution.stats.withoutCandidates + contributions.countP Contribution.isUnoffered
  pending_eq : last.resolution.pending =
    run.resolution.pending.pushEach (contributions.flatMap Contribution.pushes)

variable {engine : Engine} {diagnostic : Diagnostic} {diagnostics : List Diagnostic}
  {contribution : Contribution} {contributions contributions' : List Contribution}
  {run next last : Run}

theorem Books.refl (run : Run) : run.Books [] run := by
  constructor <;> simp [PendingEdits.pushEach]

theorem Books.trans (h : run.Books contributions next) (h' : next.Books contributions' last) :
    run.Books (contributions ++ contributions') last where
  duplicates_eq := by rw [h'.duplicates_eq, h.duplicates_eq, List.countP_append, Nat.add_assoc]
  unsupported_eq := by simp [h'.unsupported_eq, h.unsupported_eq]
  suggestions_eq := by simp [h'.suggestions_eq, h.suggestions_eq]
  problems_eq := by rw [h'.problems_eq, h.problems_eq, List.countP_append, Nat.add_assoc]
  selected_eq := by rw [h'.selected_eq, h.selected_eq, List.countP_append, Nat.add_assoc]
  skipped_eq := by rw [h'.skipped_eq, h.skipped_eq, List.countP_append, Nat.add_assoc]
  withoutCandidates_eq := by
    rw [h'.withoutCandidates_eq, h.withoutCandidates_eq, List.countP_append, Nat.add_assoc]
  pending_eq := by
    rw [h'.pending_eq, h.pending_eq, List.flatMap_append, PendingEdits.pushEach_append]

/-- The books of a whole run make up its report. -/
theorem Books.totals {ws : Workspace} (h : (start ws).Books contributions last)
    (outcome : PatchOutcome) : (last.report outcome).TotalsOf contributions where
  duplicates_eq := h.duplicates_eq.trans (Nat.zero_add _)
  unsupported_eq := h.unsupported_eq.trans (List.nil_append _)
  suggestions_eq := h.suggestions_eq.trans (List.nil_append _)
  problems_eq := h.problems_eq.trans (Nat.zero_add _)
  selected_eq := h.selected_eq.trans (Nat.zero_add _)
  skipped_eq := h.skipped_eq.trans (Nat.zero_add _)
  withoutCandidates_eq := h.withoutCandidates_eq.trans (Nat.zero_add _)

/-- One diagnostic is entered in the books. -/
theorem Handles.books (h : Handles engine diagnostic run contribution next) :
    run.Books [contribution] next := by
  cases h with
  | duplicate classified => constructor <;> simp [PendingEdits.pushEach]
  | unsupported classified => constructor <;> simp [PendingEdits.pushEach]
  | presented classified settled =>
    cases settled with
    | advised unoffered =>
      constructor <;>
        simp [unoffered, PendingEdits.pushEach, Resolution.count, Resolution.passOver]
    | skipped offered =>
      constructor <;> simp [offered, PendingEdits.pushEach, Resolution.count, Resolution.skip]
    | quit offered =>
      constructor <;> simp [offered, PendingEdits.pushEach, Resolution.count, Resolution.quit]
    | selected found =>
      have hoffered : Candidate.all _ engine.options _ ≠ [] :=
        List.ne_nil_of_mem (List.mem_of_getElem? found)
      constructor <;> simp [hoffered, Resolution.count, Resolution.take]

theorem Logs.books (h : Logs engine diagnostics run contributions last) :
    run.Books contributions last := by
  induction h with
  | nil run => exact .refl run
  | cons _ first _ ih => exact first.books.trans ih

theorem Handles.wellFormed (h : Handles engine diagnostic run contribution next) :
    contribution.WellFormed := by
  cases h with
  | duplicate classified => trivial
  | unsupported classified => trivial
  | presented classified settled =>
    obtain ⟨hadvice, hnone⟩ := engine.classifyDiagnostic_advises diagnostic _ _ _ classified
    refine ⟨hadvice, fun hkind => Candidate.all_of_advisory _ _ hkind (hnone hkind), ?_⟩
    intro hempty
    cases settled with
    | advised unoffered => exact ⟨rfl, rfl⟩
    | skipped offered => exact absurd hempty offered
    | quit offered => exact absurd hempty offered
    | selected found => simp [hempty] at found

theorem Logs.wellFormed (h : Logs engine diagnostics run contributions last) :
    ∀ contribution ∈ contributions, contribution.WellFormed := by
  induction h with
  | nil run => simp
  | cons _ first _ ih => exact List.forall_mem_cons.2 ⟨first.wellFormed, ih⟩

theorem Logs.length_eq (h : Logs engine diagnostics run contributions last) :
    contributions.length = diagnostics.length := by
  induction h with
  | nil run => rfl
  | cons _ _ _ ih => simp [ih]

/-- A run is quit by a diagnostic exactly if the user quits at its problem. -/
theorem Handles.quit_eq (h : Handles engine diagnostic run contribution next)
    (hgoing : run.resolution.stats.quit = false) :
    next.resolution.stats.quit = contribution.isQuit := by
  cases h with
  | duplicate classified => simpa using hgoing
  | unsupported classified => simpa using hgoing
  | presented classified settled =>
    cases settled with
    | advised unoffered => simpa [Resolution.count, Resolution.passOver] using hgoing
    | skipped offered => simpa [Resolution.count, Resolution.skip] using hgoing
    | quit offered => simp [Resolution.quit]
    | selected found => simpa [Resolution.count, Resolution.take] using hgoing

/-- The user quits at the last problem or not at all. -/
theorem Logs.quits (h : Logs engine diagnostics run contributions last)
    (hgoing : run.resolution.stats.quit = false) :
    contributions.countP Contribution.isQuit = (if last.resolution.stats.quit then 1 else 0) ∧
      (last.resolution.stats.quit = true →
        ∃ contribution, contributions.getLast? = some contribution ∧
          contribution.isQuit = true) := by
  induction h with
  | nil run => simp [hgoing]
  | @cons _ _ contribution contributions run next last going first rest ih =>
    have hquit := first.quit_eq going
    cases hnext : next.resolution.stats.quit with
    | false =>
      obtain ⟨hcount, hlast⟩ := ih hnext
      rw [hnext] at hquit
      have hnot : ¬contribution.isQuit = true := by
        rw [← hquit]
        exact Bool.false_ne_true
      refine ⟨by rw [List.countP_cons_of_neg hnot, hcount], fun hend => ?_⟩
      obtain ⟨final, hfinal, hisQuit⟩ := hlast hend
      exact ⟨final, by simp [List.getLast?_cons, hfinal], hisQuit⟩
    | true =>
      cases rest with
      | nil _ =>
        have hisQuit : contribution.isQuit = true := hquit.symm.trans hnext
        refine ⟨?_, fun _ => ⟨contribution, rfl, hisQuit⟩⟩
        rw [List.countP_cons_of_pos hisQuit, hnext]
        rfl
      | cons going' _ _ => simp [hnext] at going'

/-! ## What a run comes to -/

variable {m : Type → Type} [Monad m] [LawfulMonad m]

theorem present_settles (presenter : Presenter m) {resolution : Resolution}
    (hgoing : resolution.stats.quit = false) (ws : Workspace) (problem : Problem)
    (candidates : List Candidate) (suggestions : List Suggestion) :
    Yields (resolution.present presenter ws problem candidates suggestions) fun result =>
      ∃ pushes, resolution.Settles ws candidates result.1 pushes result.2 := by
  unfold Resolution.present
  rw [if_neg (by simp [hgoing])]
  dsimp only
  split_ifs with hempty
  · exact .map_of_forall _ fun _ => ⟨[], .advised (List.isEmpty_iff.1 hempty)⟩
  · have hoffered : candidates ≠ [] := fun h => hempty (List.isEmpty_iff.2 h)
    refine .map_of_forall _ fun decision => ?_
    cases decision with
    | skip => exact ⟨[], .skipped hoffered⟩
    | quit => exact ⟨[], .quit hoffered⟩
    | select index =>
      simp only [Resolution.settle]
      cases hfound : candidates[index]? with
      | none => exact ⟨[], .skipped hoffered⟩
      | some candidate =>
        dsimp only
        rw [PendingEdits.pushAll_eq]
        exact ⟨candidate.pushes ws, .selected hfound⟩

theorem handle_handles (presenter : Presenter m) (diagnostic : Diagnostic)
    (hgoing : run.resolution.stats.quit = false) :
    Yields (run.handle engine presenter diagnostic) fun result =>
      result.2 = none → ∃ contribution, Handles engine diagnostic run contribution result.1 := by
  unfold handle
  cases hrun : engine.classifyDiagnostic diagnostic run.workspace with
  | error failure ws => exact .pure fun h => by cases h
  | ok classification ws =>
    cases classification with
    | duplicate => exact .pure fun _ => ⟨_, .duplicate hrun⟩
    | unsupported entry => exact .pure fun _ => ⟨_, .unsupported hrun⟩
    | problem problem suggestions =>
      refine (present_settles presenter hgoing ws problem _ suggestions).bind
        fun result ⟨pushes, hsettles⟩ => .pure fun _ => ⟨_, .presented hrun hsettles⟩

/-- A run that does not fail handles its diagnostics up to one at which the user quits, or all. -/
theorem handleAll_logs (presenter : Presenter m) (diagnostics : List Diagnostic) (run : Run) :
    Yields (handleAll engine presenter diagnostics run) fun result =>
      result.2 = none → ∃ handled rest contributions, diagnostics = handled ++ rest ∧
        Logs engine handled run contributions result.1 ∧
        (result.1.resolution.stats.quit = false → rest = []) := by
  induction diagnostics generalizing run with
  | nil => exact .pure fun _ => ⟨[], [], [], rfl, .nil run, fun _ => rfl⟩
  | cons diagnostic rest ih =>
    unfold handleAll
    split_ifs with hquit
    · refine .pure fun _ => ⟨[], diagnostic :: rest, [], rfl, .nil run, fun h => ?_⟩
      rw [hquit] at h
      cases h
    · have hgoing := Bool.eq_false_of_not_eq_true hquit
      refine (handle_handles presenter diagnostic hgoing).bind fun result hresult => ?_
      obtain ⟨next, failure⟩ := result
      cases failure with
      | some failure => exact .pure fun h => by cases h
      | none =>
        obtain ⟨contribution, hfirst⟩ := hresult rfl
        refine (ih next).imp fun result hlogs hnone => ?_
        obtain ⟨handled, others, contributions, rfl, hlogs, hall⟩ := hlogs hnone
        exact ⟨diagnostic :: handled, others, contribution :: contributions, rfl,
          .cons hgoing hfirst hlogs, hall⟩

end Run

namespace Session

variable {σ : Type} {session : Session} {presenter : Presenter (StateM σ)}
  {diagnostics : List Diagnostic} {state : σ} {report : Report}

/-- The log of a run that does not fail. -/
theorem logs_of_handled {last : Run}
    (h : session.handled presenter diagnostics state = (last, none)) :
    ∃ handled rest contributions, diagnostics = handled ++ rest ∧
      Run.Logs session.engine handled (.start session.workspace) contributions last ∧
      (last.resolution.stats.quit = false → rest = []) := by
  have hlogs : Yields (Run.handleAll session.engine presenter diagnostics
    (.start session.workspace)) _ := Run.handleAll_logs presenter diagnostics _
  have hvalue := hlogs.value state
  rw [show ((Run.handleAll session.engine presenter diagnostics (.start session.workspace)).run
    state).1 = (last, none) from h] at hvalue
  exact hvalue rfl

/-- A run with a report has handled its diagnostics and applied the chosen edits. -/
theorem exists_handled (h : ((session.run presenter diagnostics).run state).1.1 = .ok report) :
    ∃ last outcome, session.handled presenter diagnostics state = (last, none) ∧
      Patch.apply last.workspace session.engine.options last.resolution.pending = .ok outcome ∧
      report = last.report outcome := by
  rw [run_value] at h
  generalize session.handled presenter diagnostics state = result at h ⊢
  obtain ⟨last, failure⟩ := result
  cases failure with
  | some failure => cases h
  | none =>
    have hfinish : last.finish session.engine.options = .ok report := h
    unfold Run.finish at hfinish
    cases happly : Patch.apply last.workspace session.engine.options last.resolution.pending with
    | error failure =>
      rw [happly] at hfinish
      cases hfinish
    | ok outcome =>
      rw [happly] at hfinish
      cases hfinish
      exact ⟨last, outcome, rfl, happly, rfl⟩

/-- Every diagnostic is accounted for. In a run with a report each diagnostic that was handled
contributed a duplicate, a report of a diagnostic that is not understood, or a presented problem,
and the report has the totals, which add up to the diagnostics that were handled. All of them were
handled, or those up to the one at whose problem the user quit. Advice comes with the problems of an
advisory kind and no others, and these contribute nothing to the edits that are applied. -/
theorem run_accounts_for_diagnostics
    (h : ((session.run presenter diagnostics).run state).1.1 = .ok report) :
    ∃ handled rest contributions last, diagnostics = handled ++ rest ∧
      Run.Logs session.engine handled (.start session.workspace) contributions last ∧
      contributions.length = handled.length ∧ report.TotalsOf contributions ∧
      report.duplicates + report.unsupported.length + report.stats.problems = handled.length ∧
      (report.stats.quit = false → handled = diagnostics) ∧
      (report.stats.quit = true → ∃ contribution,
        contributions.getLast? = some contribution ∧ contribution.isQuit = true) ∧
      report.stats.problems = report.stats.selected + report.stats.skipped +
        (if report.stats.quit then 1 else 0) ∧
      report.stats.withoutCandidates ≤ report.stats.skipped ∧
      (∀ problem suggestions offered outcome pushes,
        .presented problem suggestions offered outcome pushes ∈ contributions →
          (suggestions ≠ [] ↔ problem.kind = .simpleToObject ∨ problem.kind = .objectToSimple) ∧
          (suggestions ≠ [] → pushes = [])) ∧
      ∃ outcome, Patch.apply last.workspace session.engine.options
          (.ofPushes (contributions.flatMap Contribution.pushes)) = .ok outcome ∧
        report.files = outcome.files ∧ report.unapplied = outcome.unapplied := by
  obtain ⟨last, outcome, hhandled, happly, rfl⟩ := exists_handled h
  obtain ⟨handled, rest, contributions, rfl, hlogs, hall⟩ := logs_of_handled hhandled
  obtain ⟨hquits, hlast⟩ := hlogs.quits rfl
  have htotals := hlogs.books.totals outcome
  have hsum := Contribution.tally contributions
  have hsettled := Contribution.countP_isPresented contributions
  refine ⟨handled, rest, contributions, last, rfl, hlogs, hlogs.length_eq, htotals, ?_,
    fun hgoing => ?_, hlast, ?_, ?_, ?_, outcome, ?_, rfl, rfl⟩
  · rw [htotals.duplicates_eq, htotals.unsupported_eq, htotals.problems_eq, hsum, hlogs.length_eq]
  · rw [hall hgoing, List.append_nil]
  · rw [htotals.problems_eq, htotals.selected_eq, htotals.skipped_eq, hsettled, hquits]
    rfl
  · rw [htotals.withoutCandidates_eq, htotals.skipped_eq]
    exact List.countP_mono_left fun contribution hmem =>
      (hlogs.wellFormed contribution hmem).isSkipped
  · intro problem suggestions offered outcome pushes hmem
    obtain ⟨hadvice, hnone, hempty⟩ := hlogs.wellFormed _ hmem
    refine ⟨hadvice.trans ?_, fun hne => (hempty (hnone (hadvice.1 hne))).2⟩
    cases problem.kind <;> simp [ProblemKind.isAdvisory]
  · rw [← happly, hlogs.books.pending_eq]
    rfl

/-- Whether there is a report that passes a check. -/
def checkReport (result : Except Failure Report) (check : Report → Bool) : Bool :=
  match result with
  | .ok report => check report
  | .error _ => false

theorem exists_of_checkReport {result : Except Failure Report} {check : Report → Bool}
    (h : checkReport result check = true) :
    ∃ report, result = .ok report ∧ check report = true := by
  cases result with
  | ok report => exact ⟨report, rfl, h⟩
  | error failure => cases h

/-- Answers from a list, and quits when it is used up. -/
def answering : Presenter (StateM (List Decision)) where
  choose _ := modifyGet fun
    | [] => (.quit, [])
    | decision :: rest => (decision, rest)
  advise _ := pure ()

/-- Two numbers are assigned to variables that are declared as strings, and a third one to a
variable that holds an object. -/
def threeAssignments : Session :=
  let assigned (start : UInt32) (text : String) (target : SourceNode) : NodePair :=
    ⟨⟨"a.ts", start, start + 1, text, "number", "NumericLiteral", false, none, none⟩, target, none⟩
  new
    { diagnostics := []
      locations :=
        [assigned 16 "5" ⟨"a.ts", 4, 5, "x", "string", "Identifier", false, none,
            some ⟨"a.ts", 7, 13, "string"⟩⟩,
          assigned 35 "6" ⟨"a.ts", 23, 24, "y", "string", "Identifier", false, none,
            some ⟨"a.ts", 26, 32, "string"⟩⟩,
          assigned 42 "7" ⟨"a.ts", 38, 39, "p", "Point", "Identifier", false, none, none⟩]
      shapes := .ofList [("Point", .ofList [("k", ⟨"number", false⟩)])]
      declarations := []
      layers := [] }
    (.ofTable (.ofList [("a.ts", "let x: string = 5; let y: string = 6; p = 7;")])) .default

/-- The first assignment twice, a place with no node, the third assignment, the second, and the
first once more. -/
def everySort : List Diagnostic :=
  [⟨2322, "a.ts", 16, 1, ""⟩, ⟨2322, "a.ts", 16, 1, ""⟩, ⟨2322, "a.ts", 0, 1, ""⟩,
    ⟨2322, "a.ts", 42, 1, ""⟩, ⟨2322, "a.ts", 35, 1, ""⟩, ⟨2322, "a.ts", 16, 1, ""⟩]

theorem run_accounts_for_diagnostics_everySort :
    ∃ report, ((threeAssignments.run answering everySort).run [.select 0]).1.1 = .ok report ∧
      report.duplicates = 1 ∧ report.unsupported.length = 1 ∧ report.suggestions.length = 1 ∧
      report.stats = ⟨3, 1, 1, 1, true⟩ ∧
      ∃ handled rest contributions, everySort = handled ++ rest ∧ handled.length = 5 ∧
        report.TotalsOf contributions := by
  have hcheck : checkReport ((threeAssignments.run answering everySort).run [.select 0]).1.1
      (fun report => decide (report.duplicates = 1 ∧ report.unsupported.length = 1 ∧
        report.suggestions.length = 1 ∧ report.stats = ⟨3, 1, 1, 1, true⟩)) = true := by
    decide +kernel
  obtain ⟨report, hrun, hcounts⟩ := exists_of_checkReport hcheck
  obtain ⟨hduplicates, hunsupported, hsuggestions, hstats⟩ := of_decide_eq_true hcounts
  obtain ⟨handled, rest, contributions, _, hsplit, -, -, htotals, hsum, -⟩ :=
    run_accounts_for_diagnostics hrun
  refine ⟨report, hrun, hduplicates, hunsupported, hsuggestions, hstats, handled, rest,
    contributions, hsplit, ?_, htotals⟩
  rw [← hsum, hduplicates, hunsupported, hstats]
  rfl

end Session

end TypeMend
