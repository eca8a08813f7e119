import TypeMend.Proofs.Steadiness
import TypeMend.Proofs.StrayTypes

/-!
# Diagnostics of no family

A diagnostic whose code belongs to no family is only reported. It should make no difference to the
rest of a run, but it does leave a trace: its file is loaded and its place is noted before the code
is looked at. The trace is harmless when the file can be read, when no stray type lies in it, and
when no diagnostic that is understood has to be classified at that place afterwards. A run then
presents the same problems in the same way and ends with the same texts as without the diagnostics
of no family, whoever decides. Otherwise it may not: a later diagnostic at the same place counts as
classified before.
-/
namespace TypeMend

open Workspace

def Diagnostic.hasFamily (diagnostic : Diagnostic) : Bool :=
  (Family.ofCode? diagnostic.code).isSome

/-- What a report says of the problems: all but the diagnostics that were passed over. -/
def Report.ofProblems (report : Report) : Report :=
  { report with unsupported := [], duplicates := 0 }

/-- The traces of diagnostics of no family are harmless. -/
structure Engine.Harmless (engine : Engine) (diagnostics : List Diagnostic) : Prop where
  readable : ∀ diagnostic ∈ diagnostics, diagnostic.hasFamily = false →
    ∀ place, engine.place? diagnostic = some place → ∃ text, engine.store place.1 = .ok text
  unstrayed : ∀ diagnostic ∈ diagnostics, diagnostic.hasFamily = false →
    ∀ place, engine.place? diagnostic = some place →
      ∀ span ∈ engine.snapshot.strayTypes, span.file ≠ place.1
  behind : ∀ before diagnostic after, diagnostics = before ++ diagnostic :: after →
    diagnostic.hasFamily = false → ∀ place, engine.place? diagnostic = some place →
      ∀ later ∈ after, later.hasFamily = true → engine.place? later = some place →
        ∃ earlier ∈ before, earlier.hasFamily = true ∧ engine.place? earlier = some place

/-! ## Two programs at once -/

section Twins

variable {m : Type → Type} [Monad m] {α β γ δ : Type}

/-- Two programs do the same, and what they yield is related: programs that follow them may use
either value. -/
def Twin (x : m α) (y : m β) (R : α → β → Prop) : Prop :=
  ∀ (γ : Type) (k : α → m γ) (k' : β → m γ), (∀ a b, R a b → k a = k' b) → x >>= k = y >>= k'

/-- A program is its own twin, with the values that it yields. -/
theorem Yields.twin {x : m α} {P : α → Prop} (h : Yields x P) :
    Twin x x fun a b => a = b ∧ P a :=
  fun γ k k' hk => h γ k k' fun a ha => hk a a ⟨rfl, ha⟩

variable [LawfulMonad m]

theorem Twin.pure {a : α} {b : β} {R : α → β → Prop} (h : R a b) :
    Twin (pure a : m α) (pure b) R := by
  intro γ k k' hk
  rw [pure_bind, pure_bind, hk a b h]

theorem Twin.bind {x : m α} {y : m β} {f : α → m γ} {g : β → m δ} {R : α → β → Prop}
    {S : γ → δ → Prop} (h : Twin x y R) (hfg : ∀ a b, R a b → Twin (f a) (g b) S) :
    Twin (x >>= f) (y >>= g) S := by
  intro ε k k' hk
  rw [bind_assoc, bind_assoc]
  exact h ε _ _ fun a b hab => hfg a b hab ε k k' hk

theorem Twin.map_eq {x : m α} {y : m β} {R : α → β → Prop} {f : α → γ} {g : β → γ}
    (h : Twin x y R) (hfg : ∀ a b, R a b → f a = g b) : f <$> x = g <$> y := by
  rw [map_eq_pure_bind, map_eq_pure_bind]
  exact h γ _ _ fun a b hab => by rw [hfg a b hab]

end Twins

/-! ## What is shown and what is written -/

namespace Workspace

variable {ws : Workspace} {files : Table String FileBuffer}

theorem startOf?_withFiles {node : Node}
    (h : (files.get? node.file).map FileBuffer.text = ws.fileText? node.file) :
    (ws.withFiles files).startOf? node = ws.startOf? node := by
  have hstart (table : Table String FileBuffer) :
      ((table.get? node.file).map fun buffer =>
        (LineIndex.ofText buffer.text).position buffer.text node.start) =
      ((table.get? node.file).map FileBuffer.text).map fun text =>
        (LineIndex.ofText text).position text node.start := by
    rw [Option.map_map]
    rfl
  rw [startOf?, startOf?, hstart, hstart, withFiles_files, h]
  rfl

theorem present_withFiles {m : Type → Type} [Monad m] (presenter : Presenter m) {problem : Problem}
    (hsource : (ws.withFiles files).startOf? (ws.node problem.source) =
      ws.startOf? (ws.node problem.source))
    (htarget : (ws.withFiles files).startOf? (ws.node problem.target) =
      ws.startOf? (ws.node problem.target))
    (candidates : List Candidate) (suggestions : List Suggestion) (resolution : Resolution) :
    resolution.present presenter (ws.withFiles files) problem candidates suggestions =
      resolution.present presenter ws problem candidates suggestions := by
  have hview (index : Nat) :
      ProblemView.of (ws.withFiles files) index problem (ws.node problem.source)
        (ws.node problem.target) candidates suggestions =
      ProblemView.of ws index problem (ws.node problem.source) (ws.node problem.target) candidates
        suggestions := by
    simp only [ProblemView.of, SideView.of, hsource, htarget]
  have hsettle (decision : Decision) :
      resolution.count.settle (ws.withFiles files) candidates decision =
        resolution.count.settle ws candidates decision := by
    cases decision <;> rfl
  have hnode (id : NodeId) : (ws.withFiles files).node id = ws.node id := rfl
  simp only [Resolution.present, hnode, hview, hsettle]

theorem applyFiles_withFiles (options : Options) {entries : List (String × List Edit)}
    (h : ∀ entry ∈ entries, (files.get? entry.1).map FileBuffer.text = ws.fileText? entry.1)
    (outcome : PatchOutcome) :
    Patch.applyFiles (ws.withFiles files) options entries outcome =
      Patch.applyFiles ws options entries outcome := by
  induction entries generalizing outcome with
  | nil => rfl
  | cons entry rest ih =>
    obtain ⟨file, edits⟩ := entry
    have htext : (ws.withFiles files).fileText? file = ws.fileText? file :=
      h _ List.mem_cons_self
    have hselect (cs : List Char) : Patch.select (ws.withFiles files) options file cs edits =
        Patch.select ws options file cs edits := rfl
    have hrest := ih fun other hother => h other (List.mem_cons_of_mem _ hother)
    simp only [Patch.applyFiles, htext, hselect, hrest]

end Workspace

/-! ## Runs beside each other -/

namespace Run

variable {m : Type → Type} [Monad m] {engine : Engine} {extra : List Place} {run run' : Run}

/-- A run that has handled further diagnostics of no family, beside one that has not. -/
structure Beside (engine : Engine) (extra : List Place) (run run' : Run) : Prop where
  workspace_eq : ∃ files, run.workspace = run'.workspace.withFiles files ∧
    Workspace.Beside engine.store extra files run'.workspace.files
  resolution_eq : run.resolution = run'.resolution
  suggestions_eq : run.suggestions = run'.suggestions
  unbroken : run'.Unbroken engine
  unstrayed : ∀ place ∈ extra, ¬engine.setting.outside place.1

/-- A file in which nodes lie has the same text on both sides. -/
theorem fileText?_eq_of_beside {ws : Workspace} {files : Table String FileBuffer}
    (h : Workspace.Beside engine.store extra files ws.files)
    (hunstrayed : ∀ place ∈ extra, ¬engine.setting.outside place.1) {file : String}
    (hfile : ws.Loaded file ∨ engine.setting.outside file) :
    (files.get? file).map FileBuffer.text = ws.fileText? file := by
  refine h.fileText?_eq ?_
  rcases hfile with ⟨text, htext⟩ | hstray
  · obtain ⟨buffer, hbuffer, -⟩ := Option.map_eq_some_iff.1 htext
    exact .inl ⟨buffer, hbuffer⟩
  · exact .inr fun offset hextra => hunstrayed _ hextra hstray

theorem handleAll_of_quit (presenter : Presenter m) (diagnostics : List Diagnostic)
    (h : run.resolution.stats.quit = true) :
    handleAll engine presenter diagnostics run = pure (run, none) := by
  cases diagnostics with
  | nil => rfl
  | cons diagnostic rest => rw [handleAll, if_pos h]

/-- A diagnostic of no family is passed over on the one side. Its place is listed then, unless it is
noted on the other side already. -/
theorem handle_of_no_family (presenter : Presenter m) {diagnostic : Diagnostic}
    (h : run.Beside engine extra run') (hfamily : diagnostic.hasFamily = false)
    (hread : ∀ place, engine.place? diagnostic = some place →
      ∃ text, engine.store place.1 = .ok text)
    (hunstrayed : ∀ place, engine.place? diagnostic = some place →
      ¬engine.setting.outside place.1) :
    ∃ next extra₁, run.handle engine presenter diagnostic = pure (next, none) ∧
      next.Beside engine extra₁ run' ∧
      (extra₁ = extra ∨ ∃ place, engine.place? diagnostic = some place ∧
        ¬Noted run'.workspace.files place ∧ extra₁ = place :: extra) := by
  obtain ⟨files, hworkspace, hfiles⟩ := h.workspace_eq
  have hnone : Family.ofCode? diagnostic.code = none := by
    simpa [Diagnostic.hasFamily] using hfamily
  have hbeside : Workspace.Beside engine.store extra run.workspace.files run'.workspace.files := by
    rw [hworkspace]
    exact hfiles
  obtain ⟨classification, files₁, extra₁, hrun, hclass, h₁, hextra⟩ :=
    Engine.classifyDiagnostic_of_no_family hnone hread hbeside
  have hunstrayed₁ : ∀ place ∈ extra₁, ¬engine.setting.outside place.1 := by
    rcases hextra with rfl | ⟨place, hplace, -, rfl⟩
    · exact h.unstrayed
    · intro other hother
      rcases List.mem_cons.1 hother with rfl | hother
      · exact hunstrayed other hplace
      · exact h.unstrayed other hother
  have hnext : run.workspace.withFiles files₁ = run'.workspace.withFiles files₁ := by
    rw [hworkspace, withFiles_withFiles]
  unfold handle
  rw [hrun]
  rcases hclass with rfl | ⟨entry, rfl⟩ <;>
    exact ⟨_, extra₁, rfl, ⟨⟨files₁, hnext, h₁⟩, h.resolution_eq, h.suggestions_eq, h.unbroken,
      hunstrayed₁⟩, hextra⟩

variable [LawfulMonad m]

/-- What comes of one diagnostic on both sides. -/
structure HandledBeside (engine : Engine) (extra : List Place) (diagnostic : Diagnostic)
    (before : Run) (result result' : Run × Option Failure) : Prop where
  failure_eq : result.2 = result'.2
  beside : result.1.Beside engine extra result'.1
  noted : result'.2 = none → ∀ place, engine.place? diagnostic = some place →
    Noted result'.1.workspace.files place
  kept : ∀ place, Noted before.workspace.files place → Noted result'.1.workspace.files place

/-- A diagnostic elsewhere than at the listed places is handled in the same way on both sides. -/
theorem handle_twin (presenter : Presenter m) {diagnostic : Diagnostic}
    (h : run.Beside engine extra run')
    (hplace : ∀ place, engine.place? diagnostic = some place → place ∉ extra) :
    Twin (run.handle engine presenter diagnostic) (run'.handle engine presenter diagnostic)
      (HandledBeside engine extra diagnostic run') := by
  obtain ⟨files, hworkspace, hfiles⟩ := h.workspace_eq
  have hsteady := Engine.classifyDiagnostic_steady hplace run'.workspace files hfiles
  have hruns := (Strict.classifyDiagnostic_agrees h.unbroken.sound diagnostic).runs
  have hnotes := Engine.classifyDiagnostic_notes h.unbroken.sound diagnostic
  unfold Runs at hruns hnotes
  unfold handle
  rw [hworkspace]
  cases hrun : engine.classifyDiagnostic diagnostic run'.workspace with
  | error failure ws₁ =>
    rw [hrun] at hsteady hruns
    obtain ⟨files₁, heq, h₁⟩ := hsteady
    rw [heq]
    have hsound := hruns.1.sound h.unbroken.sound
    have hpending := hruns.1.extends.holdsPending h.unbroken.pending_held
    exact .pure ⟨rfl, ⟨⟨files₁, rfl, h₁⟩, h.resolution_eq, h.suggestions_eq, ⟨hsound, hpending⟩,
      h.unstrayed⟩, fun h => (by cases h), fun _ => hruns.1.noted⟩
  | ok classification ws₁ =>
    rw [hrun] at hsteady hruns hnotes
    obtain ⟨files₁, heq, h₁⟩ := hsteady
    rw [heq]
    have hsound := hruns.1.sound h.unbroken.sound
    have hpending := hruns.1.extends.holdsPending h.unbroken.pending_held
    have hnoted := hnotes.2
    cases classification with
    | duplicate
    | unsupported entry =>
      exact .pure ⟨rfl, ⟨⟨files₁, rfl, h₁⟩, h.resolution_eq, h.suggestions_eq,
        ⟨hsound, hpending⟩, h.unstrayed⟩, fun _ => hnoted, fun _ => hruns.1.noted⟩
    | problem problem suggestions =>
      have hcandidates := holdsCandidate_all hruns.2 hsound engine.options
      have hsame : Candidate.all (ws₁.withFiles files₁) engine.options problem =
          Candidate.all ws₁ engine.options problem := rfl
      have hstart {id : NodeId} (hid : id < ws₁.nodes.size) :
          (ws₁.withFiles files₁).startOf? (ws₁.node id) = ws₁.startOf? (ws₁.node id) :=
        startOf?_withFiles (fileText?_eq_of_beside h₁ h.unstrayed
          (hsound.node_admitted id hid).file_loaded)
      dsimp only
      rw [hsame, h.resolution_eq, present_withFiles presenter (hstart hruns.2.source_lt)
        (hstart hruns.2.target_lt)]
      refine (present_yields presenter hpending problem hcandidates suggestions).twin.bind
        fun result result' hresult => ?_
      obtain ⟨rfl, hheld⟩ := hresult
      exact .pure ⟨rfl, ⟨⟨files₁, rfl, h₁⟩, rfl, by rw [h.suggestions_eq], ⟨hsound, hheld⟩,
        h.unstrayed⟩, fun _ => hnoted, fun _ => hruns.1.noted⟩

/-- Handling diagnostics with and without those of no family. -/
theorem handleAll_twin (presenter : Presenter m) {diagnostics : List Diagnostic}
    (hharmless : engine.Harmless diagnostics) {done rest : List Diagnostic}
    (hsplit : diagnostics = done ++ rest) (h : run.Beside engine extra run')
    (hdone : ∀ earlier ∈ done, earlier.hasFamily = true →
      ∀ place, engine.place? earlier = some place → Noted run'.workspace.files place)
    (hrest : ∀ later ∈ rest, later.hasFamily = true →
      ∀ place, engine.place? later = some place → place ∉ extra) :
    Twin (handleAll engine presenter rest run)
      (handleAll engine presenter (rest.filter Diagnostic.hasFamily) run')
      fun result result' =>
        result.2 = result'.2 ∧ ∃ extra, result.1.Beside engine extra result'.1 := by
  induction rest generalizing done extra run run' with
  | nil => exact .pure ⟨rfl, extra, h⟩
  | cons diagnostic rest ih =>
    have hmem : diagnostic ∈ diagnostics := by simp [hsplit]
    have hsplit' : diagnostics = (done ++ [diagnostic]) ++ rest := by simp [hsplit]
    by_cases hquit : run.resolution.stats.quit = true
    · have hquit' : run'.resolution.stats.quit = true := by rwa [← h.resolution_eq]
      rw [handleAll_of_quit presenter _ hquit, handleAll_of_quit presenter _ hquit']
      exact .pure ⟨rfl, extra, h⟩
    cases hfamily : diagnostic.hasFamily with
    | true =>
      have hquit' : ¬run'.resolution.stats.quit = true := by rwa [← h.resolution_eq]
      have hplace := hrest diagnostic List.mem_cons_self hfamily
      rw [List.filter_cons_of_pos hfamily, handleAll, handleAll, if_neg hquit, if_neg hquit']
      refine (handle_twin presenter h hplace).bind fun result result' hresult => ?_
      obtain ⟨next, failure⟩ := result
      obtain ⟨next', failure'⟩ := result'
      obtain ⟨hfailure, hbeside, hnoted, hkept⟩ := hresult
      dsimp only at hfailure hbeside hnoted hkept ⊢
      subst hfailure
      cases failure with
      | some failure => exact .pure ⟨rfl, extra, hbeside⟩
      | none =>
        refine ih hsplit' hbeside (fun earlier hearlier hknown place hplace => ?_)
          fun later hlater => hrest later (List.mem_cons_of_mem _ hlater)
        rcases List.mem_append.1 hearlier with hbefore | hlast
        · exact hkept place (hdone earlier hbefore hknown place hplace)
        · rw [List.mem_singleton.1 hlast] at hplace
          exact hnoted rfl place hplace
    | false =>
      have hread := hharmless.readable diagnostic hmem hfamily
      have hunstrayed : ∀ place, engine.place? diagnostic = some place →
          ¬engine.setting.outside place.1 := by
        rintro place hplace ⟨span, hspan, hfile⟩
        exact hharmless.unstrayed diagnostic hmem hfamily place hplace span hspan hfile
      obtain ⟨next, extra₁, hhandle, hbeside, hextra⟩ :=
        handle_of_no_family presenter h hfamily hread hunstrayed
      rw [List.filter_cons_of_neg (by simp [hfamily]), handleAll, if_neg hquit, hhandle, pure_bind]
      refine ih hsplit' hbeside (fun earlier hearlier hknown => ?_)
        fun later hlater hknown place hplace hlisted => ?_
      · rcases List.mem_append.1 hearlier with hbefore | hlast
        · exact hdone earlier hbefore hknown
        · rw [List.mem_singleton.1 hlast, hfamily] at hknown
          cases hknown
      · have hold := hrest later (List.mem_cons_of_mem _ hlater) hknown place hplace
        rcases hextra with rfl | ⟨own, hown, hfresh, rfl⟩
        · exact hold hlisted
        · rcases List.mem_cons.1 hlisted with rfl | hlisted
          · obtain ⟨earlier, hearlier, hunderstood, hsame⟩ := hharmless.behind done diagnostic rest
              hsplit hfamily place hown later hlater hknown hplace
            exact hfresh (hdone earlier hearlier hunderstood place hsame)
          · exact hold hlisted

theorem finish_eq_of_beside (options : Options) (h : run.Beside engine extra run') :
    (run.finish options).map Report.ofProblems = (run'.finish options).map Report.ofProblems := by
  obtain ⟨files, hworkspace, hfiles⟩ := h.workspace_eq
  have hentries : ∀ entry ∈ run'.resolution.pending.entries,
      (files.get? entry.1).map FileBuffer.text = run'.workspace.fileText? entry.1 :=
    fun entry hentry => fileText?_eq_of_beside hfiles h.unstrayed
      (Session.loaded_or_stray_of_pending h.unbroken (List.mem_map.2 ⟨entry, hentry, rfl⟩))
  unfold finish Patch.apply
  rw [h.resolution_eq, hworkspace, applyFiles_withFiles options hentries]
  cases Patch.applyFiles run'.workspace options run'.resolution.pending.entries ⟨∅, []⟩ with
  | error failure => rfl
  | ok outcome =>
    simp only [Except.map, report, Report.ofProblems, h.resolution_eq, h.suggestions_eq]

end Run

namespace Session

variable {m : Type → Type} [Monad m] [LawfulMonad m]

/-- Diagnostics of no family whose traces are harmless make no difference to a run of a new session:
with and without them the same problems are presented in the same way, whoever decides, the same
edits are chosen, and the run fails in the same way or ends with the same texts, the same edits that
were not applied and the same suggestions. -/
theorem run_without_unsupported (snapshot : Snapshot) (store : Store) (options : Options)
    (presenter : Presenter m) {diagnostics : List Diagnostic}
    (hharmless : Engine.Harmless ⟨snapshot, store, options⟩ diagnostics) :
    let session := new snapshot store options
    let understood := diagnostics.filter Diagnostic.hasFamily
    let start := Run.start session.workspace
    ((fun result => result.1.map Report.ofProblems) <$> session.run presenter diagnostics =
        (fun result => result.1.map Report.ofProblems) <$> session.run presenter understood) ∧
      ((fun result => (result.1.resolution, result.2)) <$>
          Run.handleAll session.engine presenter diagnostics start =
        (fun result => (result.1.resolution, result.2)) <$>
          Run.handleAll session.engine presenter understood start) := by
  intro session understood start
  have hstart : start.Beside session.engine [] start :=
    ⟨⟨∅, rfl, fun file => .neither fun _ => List.not_mem_nil⟩, rfl, rfl,
      unbroken_start (sound_empty _), fun _ h => by cases h⟩
  have htwin := Run.handleAll_twin presenter hharmless (List.nil_append diagnostics).symm hstart
    (fun _ h => by cases h) fun _ _ _ _ _ => List.not_mem_nil
  refine ⟨?_, htwin.map_eq fun result result' ⟨hfailure, extra, hbeside⟩ => ?_⟩
  · unfold run
    rw [map_bind, map_bind]
    refine htwin _ _ _ fun result result' ⟨hfailure, extra, hbeside⟩ => ?_
    obtain ⟨run, failure⟩ := result
    obtain ⟨run', failure'⟩ := result'
    dsimp only at hfailure hbeside ⊢
    subst hfailure
    cases failure with
    | some failure => simp [Except.map]
    | none => simp [Run.finish_eq_of_beside _ hbeside]
  · rw [hfailure, hbeside.resolution_eq]

/-- A number is assigned to a variable that is declared as a string, and another file has an
expression of its own. -/
def twoFiles : Engine where
  snapshot :=
    { diagnostics := []
      locations :=
        [{ source := ⟨"a.ts", 16, 17, "5", "number", "NumericLiteral", false, none, none⟩
           target := ⟨"a.ts", 4, 5, "x", "string", "Identifier", false, none,
             some ⟨"a.ts", 7, 13, "string"⟩⟩
           functionName := none },
          { source := ⟨"b.ts", 0, 1, "y", "any", "Identifier", false, none, none⟩
            target := ⟨"b.ts", 0, 1, "y", "any", "Identifier", false, none, none⟩
            functionName := none }]
      shapes := ∅
      declarations := []
      layers := [] }
  store := .ofTable (.ofList [("a.ts", "let x: string = 5;"), ("b.ts", "y;")])
  options := .default

/-- The assignment is reported twice, and names that are not found once between and once
elsewhere. -/
def mixedReports : List Diagnostic :=
  [⟨2322, "a.ts", 16, 1, ""⟩, ⟨2304, "a.ts", 16, 1, ""⟩, ⟨2322, "a.ts", 16, 1, ""⟩,
    ⟨2304, "b.ts", 0, 1, ""⟩]

theorem harmless_mixedReports : twoFiles.Harmless mixedReports where
  readable diagnostic hmem _ place hplace := by
    have hread : ∀ diagnostic ∈ mixedReports, ∀ place ∈ twoFiles.place? diagnostic,
        place.1 = "a.ts" ∨ place.1 = "b.ts" := by
      decide +kernel
    rcases hread diagnostic hmem place hplace with hfile | hfile
    · exact ⟨"let x: string = 5;", by rw [hfile]; rfl⟩
    · exact ⟨"y;", by rw [hfile]; rfl⟩
  unstrayed _ _ _ _ _ span hspan := by
    have hnone : twoFiles.snapshot.strayTypes = [] := by decide +kernel
    rw [hnone] at hspan
    cases hspan
  behind before diagnostic after hsplit hfamily place hplace later hlater hknown hsame := by
    rcases before with _ | ⟨first, _ | ⟨second, _ | ⟨third, before⟩⟩⟩
    · cases hsplit
      cases hfamily
    · cases hsplit
      exact ⟨_, List.mem_singleton_self _, rfl, hplace⟩
    · cases hsplit
      cases hfamily
    · have hafter : after = [] := by
        have hlength := congrArg List.length hsplit
        simp [mixedReports] at hlength
        exact List.length_eq_zero_iff.1 (by omega)
      rw [hafter] at hlater
      cases hlater

theorem run_without_unsupported_mixedReports :
    twoFiles.Harmless mixedReports ∧
      ∀ presenter : Presenter (StateM (List ProblemView)),
        (fun result => result.1.map Report.ofProblems) <$>
            (new twoFiles.snapshot twoFiles.store twoFiles.options).run presenter mixedReports =
          (fun result => result.1.map Report.ofProblems) <$>
            (new twoFiles.snapshot twoFiles.store twoFiles.options).run presenter
              [⟨2322, "a.ts", 16, 1, ""⟩, ⟨2322, "a.ts", 16, 1, ""⟩] := by
  refine ⟨harmless_mixedReports, fun presenter => ?_⟩
  exact (run_without_unsupported _ _ _ presenter harmless_mixedReports).1

/-- The numbers of problems and the new texts of a run that takes the first candidate. -/
def mended (engine : Engine) (diagnostics : List Diagnostic) :
    Option (Nat × List (String × String)) :=
  let session := new engine.snapshot engine.store engine.options
  match ((session.run takeFirst diagnostics).run ()).1.1 with
  | .ok report => some (report.stats.problems, report.files.entries)
  | .error _ => none

/-- A diagnostic of no family blocks the problem that is reported after it at the same place. -/
theorem run_blocked_by_unsupported :
    let reports := [⟨2304, "a.ts", 16, 1, ""⟩, ⟨2322, "a.ts", 16, 1, ""⟩]
    mended twoFiles reports = some (0, []) ∧
      mended twoFiles (reports.filter Diagnostic.hasFamily) =
        some (1, [("a.ts", "let x: string | number = 5;")]) := by
  decide +kernel

end Session

end TypeMend
