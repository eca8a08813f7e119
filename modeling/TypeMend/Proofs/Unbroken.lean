import TypeMend.Proofs.Offered
import TypeMend.Proofs.PatchPolicy

/-!
# No run breaks off

Strict evaluation does what the usual one does, function by function, as long as the workspace has
what it is asked for. A run keeps that up: whatever the presenter decides, the workspace it goes on
with is sound and holds the nodes of every chosen edit. Every run of every session that was reached
from a new one therefore ends, and if it does not end with a report then a file could not be read
or was never loaded.
-/
namespace TypeMend

open Workspace

namespace Strict

variable {ws : Workspace}

/-! ## Patches -/

theorem insertMember_eq (unit : String) (declaration : Node) (property : String) (cs : List Char) :
    insertMember unit declaration property cs =
      some (Patch.insertMember unit declaration property cs) := by
  have hslices :=
    Insertion.changeBySlices?_eq unit declaration.start declaration.stop property cs
  unfold insertMember Patch.insertMember
  cases hchange : Insertion.change? unit declaration.start declaration.stop property cs with
  | none => simp [hslices, hchange]
  | some change => simp [hslices, hchange]

theorem propose_eq (options : Options) (kind : EditKind) (prime : Node) (other : Option Node)
    (cs : List Char) :
    propose options kind prime other cs = some (Patch.propose options kind prime other cs) := by
  cases other with
  | none => cases kind <;> rfl
  | some declaration =>
    cases kind with
    | insertProperty => exact insertMember_eq _ _ _ _
    | insertOptionalProperty => exact insertMember_eq _ _ _ _
    | convertType => rfl
    | unionType => rfl
    | makeOptional => rfl

theorem resolve_eq (options : Options) {edit : Edit} (hedit : ws.HoldsEdit edit) (cs : List Char) :
    resolve ws options edit cs = some (Patch.resolve ws options edit cs) := by
  rw [resolve, node?_eq hedit.prime_lt, mapM_node?_eq hedit.other_lt]
  simp only [Option.bind_eq_bind, Option.bind_some, propose_eq]
  rfl

theorem select_eq (options : Options) (file : String) (cs : List Char) {edits : List Edit}
    (hedits : ∀ edit ∈ edits, ws.HoldsEdit edit) :
    select ws options file cs edits = some (Patch.select ws options file cs edits) :=
  foldlM_eq_some_foldl (fun _ edit hedit => by
    rw [resolve_eq options (hedits edit hedit), Option.map_some]) _

/-- The changes selected for a file are applied without breaking off. -/
theorem applyFiles_eq (options : Options) {entries : List (String × List Edit)}
    (hentries : ∀ entry ∈ entries, ∀ edit ∈ entry.2, ws.HoldsEdit edit) (outcome : PatchOutcome) :
    applyFiles ws options entries outcome = some (Patch.applyFiles ws options entries outcome) := by
  induction entries generalizing outcome with
  | nil => rfl
  | cons entry rest ih =>
    obtain ⟨file, edits⟩ := entry
    have hrest := ih fun other hother => hentries other (List.mem_cons_of_mem _ hother)
    unfold applyFiles Patch.applyFiles
    cases htext : ws.fileText? file with
    | none => rfl
    | some text =>
      obtain ⟨_, patched, _, _, _, happly⟩ := Patch.exists_patched options htext edits
      have hselect := select_eq options file text.toList (hentries _ List.mem_cons_self)
      simp only [Patch.selectIn, htext, Option.getD_some] at happly
      simp only [hselect, Option.bind_eq_bind, Option.bind_some, happly]
      exact hrest _

end Strict

/-! ## What a program yields -/

section Yields

variable {m : Type → Type} [Monad m] {α β : Type}

/-- Whatever follows a program `x` need only be right for values with `P`: `x` yields no others. -/
def Yields (x : m α) (P : α → Prop) : Prop :=
  ∀ (β : Type) (k k' : α → m β), (∀ a, P a → k a = k' a) → x >>= k = x >>= k'

theorem Yields.imp {x : m α} {P Q : α → Prop} (h : Yields x P) (hPQ : ∀ a, P a → Q a) :
    Yields x Q :=
  fun β k k' hk => h β k k' fun a ha => hk a (hPQ a ha)

variable [LawfulMonad m]

theorem Yields.pure {a : α} {P : α → Prop} (h : P a) : Yields (pure a : m α) P := by
  intro γ k k' hk
  rw [pure_bind, pure_bind, hk a h]

theorem Yields.bind {x : m α} {f : α → m β} {P : α → Prop} {Q : β → Prop} (hx : Yields x P)
    (hf : ∀ a, P a → Yields (f a) Q) : Yields (x >>= f) Q := by
  intro γ k k' hk
  rw [bind_assoc, bind_assoc]
  exact hx γ _ _ fun a ha => hf a ha γ k k' hk

/-- Any program followed by a computation of values with `P`. -/
theorem Yields.map_of_forall (x : m α) {f : α → β} {P : β → Prop} (h : ∀ a, P (f a)) :
    Yields (x >>= fun a => Pure.pure (f a)) P := by
  intro γ k k' hk
  rw [bind_assoc, bind_assoc]
  congr 1
  funext a
  rw [pure_bind, pure_bind, hk _ (h a)]

/-- The value of a program with a state. -/
theorem Yields.value {σ : Type} {x : StateM σ α} {P : α → Prop} (h : Yields x P) (state : σ) :
    P (x.run state).1 := by
  classical
  have heq := h Bool (fun a => Pure.pure (decide (P a))) (fun _ => Pure.pure true)
    fun a ha => by rw [decide_eq_true ha]
  have hvalue : decide (P (x.run state).1) = true :=
    congrArg (fun program : StateM σ Bool => (program.run state).1) heq
  exact of_decide_eq_true hvalue

end Yields

/-! ## Runs -/

namespace Run

/-- What holds of a run between diagnostics: its workspace is sound and has the nodes of all chosen
edits. -/
structure Unbroken (engine : Engine) (run : Run) : Prop where
  sound : Sound engine.setting.outside run.workspace
  pending_held : run.workspace.HoldsPending run.resolution.pending

variable {m : Type → Type} [Monad m] [LawfulMonad m] {engine : Engine} {run : Run}

/-- What comes of a diagnostic. -/
def Handled (engine : Engine) (result : Run × Option Failure) : Prop :=
  result.1.Unbroken engine ∧
    ∀ failure ∈ result.2, ∃ file fault, engine.store file = .error fault ∧
      failure = .unreadable file fault

theorem settle_holdsPending {ws : Workspace} (resolution : Resolution)
    (h : ws.HoldsPending resolution.pending) {candidates : List Candidate}
    (hcandidates : ∀ candidate ∈ candidates, ws.HoldsCandidate candidate) (decision : Decision) :
    ws.HoldsPending (resolution.settle ws candidates decision).2.pending := by
  cases decision with
  | skip => exact h
  | quit => exact h
  | select index =>
    simp only [Resolution.settle]
    cases hindex : candidates[index]? with
    | none => exact h
    | some candidate =>
      exact holdsPending_pushAll h (hcandidates candidate (List.mem_of_getElem? hindex))

theorem present_yields (presenter : Presenter m) {ws : Workspace} {resolution : Resolution}
    (h : ws.HoldsPending resolution.pending) (problem : Problem) {candidates : List Candidate}
    (hcandidates : ∀ candidate ∈ candidates, ws.HoldsCandidate candidate)
    (suggestions : List Suggestion) :
    Yields (resolution.present presenter ws problem candidates suggestions)
      fun result => ws.HoldsPending result.2.pending := by
  unfold Resolution.present
  split_ifs
  · exact .pure h
  · exact .map_of_forall _ fun _ => h
  · exact .map_of_forall _ fun decision =>
      settle_holdsPending resolution.count h hcandidates decision

theorem handle_yields (presenter : Presenter m) (diagnostic : Diagnostic)
    (h : run.Unbroken engine) :
    Yields (run.handle engine presenter diagnostic) (Handled engine) := by
  have hruns := (Strict.classifyDiagnostic_agrees h.sound diagnostic).runs
  unfold Runs at hruns
  unfold handle
  have hkeep {ws : Workspace} (hevolves : Evolves engine.setting run.workspace ws) :
      Sound engine.setting.outside ws ∧ ws.HoldsPending run.resolution.pending :=
    ⟨hevolves.sound h.sound, hevolves.extends.holdsPending h.pending_held⟩
  cases hresult : engine.classifyDiagnostic diagnostic run.workspace with
  | error failure ws =>
    rw [hresult] at hruns
    obtain ⟨hsound, hpending⟩ := hkeep hruns.1
    refine .pure ⟨⟨hsound, hpending⟩, fun other hother => ?_⟩
    cases hother
    exact hruns.2
  | ok classification ws =>
    rw [hresult] at hruns
    obtain ⟨hsound, hpending⟩ := hkeep hruns.1
    cases classification with
    | duplicate => exact .pure ⟨⟨hsound, hpending⟩, fun _ h => by cases h⟩
    | unsupported entry => exact .pure ⟨⟨hsound, hpending⟩, fun _ h => by cases h⟩
    | problem problem suggestions =>
      have hcandidates := holdsCandidate_all hruns.2 hsound engine.options
      refine (present_yields presenter hpending problem hcandidates suggestions).bind
        fun result hresult => .pure ⟨⟨hsound, hresult⟩, fun _ h => by cases h⟩

theorem handle_eq (presenter : Presenter m) (diagnostic : Diagnostic) (h : run.Unbroken engine) :
    Strict.handle engine presenter diagnostic run =
      some <$> run.handle engine presenter diagnostic := by
  have hagrees := Strict.classifyDiagnostic_agrees h.sound diagnostic
  have hruns := hagrees.runs
  unfold Runs at hruns
  unfold Strict.handle handle
  rw [hagrees.strict_eq, Strict.lift]
  cases hresult : engine.classifyDiagnostic diagnostic run.workspace with
  | error failure ws => simp
  | ok classification ws =>
    rw [hresult] at hruns
    have hsound := hruns.1.sound h.sound
    cases classification with
    | duplicate => simp
    | unsupported entry => simp
    | problem problem suggestions =>
      have hcandidates := holdsCandidate_all hruns.2 hsound engine.options
      simp [Strict.candidates_eq hruns.2 hsound, Strict.present_eq presenter hruns.2 hcandidates]

theorem handleAll_yields (presenter : Presenter m) (diagnostics : List Diagnostic)
    (h : run.Unbroken engine) :
    Yields (handleAll engine presenter diagnostics run) (Handled engine) := by
  induction diagnostics generalizing run with
  | nil => exact .pure ⟨h, fun _ h => by cases h⟩
  | cons diagnostic rest ih =>
    unfold handleAll
    split_ifs
    · exact .pure ⟨h, fun _ h => by cases h⟩
    · refine (handle_yields presenter diagnostic h).bind fun result hresult => ?_
      obtain ⟨next, failure⟩ := result
      cases failure with
      | some failure => exact .pure hresult
      | none => exact ih hresult.1

theorem handleAll_eq (presenter : Presenter m) (diagnostics : List Diagnostic)
    (h : run.Unbroken engine) :
    Strict.handleAll engine presenter diagnostics run =
      some <$> handleAll engine presenter diagnostics run := by
  induction diagnostics generalizing run with
  | nil => simp [Strict.handleAll, handleAll]
  | cons diagnostic rest ih =>
    unfold Strict.handleAll handleAll
    split_ifs
    · simp
    · rw [handle_eq presenter diagnostic h, bind_map_left, map_bind]
      refine handle_yields presenter diagnostic h _ _ _ fun result hresult => ?_
      obtain ⟨next, failure⟩ := result
      cases failure with
      | some failure => simp
      | none => exact ih hresult.1

theorem finish_eq (options : Options) (h : run.Unbroken engine) :
    Strict.finish options run = some (run.finish options) := by
  have hentries : ∀ entry ∈ run.resolution.pending.entries, ∀ edit ∈ entry.2,
      run.workspace.HoldsEdit edit :=
    fun entry hentry edit hedit => (h.pending_held.edit_held entry.1 entry.2 hentry edit hedit).1
  rw [Strict.finish, Strict.applyFiles_eq options hentries, Option.map_some]
  rfl

end Run

/-- Applying edits fails exactly at the first file that is not loaded. -/
theorem Patch.applyFiles_eq_error_iff (ws : Workspace) (options : Options)
    (entries : List (String × List Edit)) (outcome : PatchOutcome) (failure : Failure) :
    applyFiles ws options entries outcome = .error failure ↔
      ∃ file, (entries.map Prod.fst).find? (fun file => !ws.files.contains file) = some file ∧
        failure = .unknownFile file := by
  induction entries generalizing outcome with
  | nil => simp [applyFiles]
  | cons entry rest ih =>
    obtain ⟨file, edits⟩ := entry
    unfold applyFiles
    cases htext : ws.fileText? file with
    | none =>
      have hmissing : ws.files.contains file = false := by
        simpa [fileText?, Table.contains] using htext
      simp [hmissing, eq_comm]
    | some text =>
      have hloaded := loaded_iff.1 ⟨text, htext⟩
      obtain ⟨_, patched, _, _, _, happly⟩ := exists_patched options htext edits
      simp only [selectIn, htext, Option.getD_some] at happly
      simp only [happly, ih, List.map_cons, List.find?_cons, hloaded, Bool.not_true]

namespace Session

/-- The sessions that come of a new one by running it, with any presenters. -/
inductive Reached : Session → Prop
  | new (snapshot : Snapshot) (store : Store) (options : Options) :
      Reached (new snapshot store options)
  | run {session : Session} {σ : Type} (before : Reached session) (presenter : Presenter (StateM σ))
      (diagnostics : List Diagnostic) (state : σ) :
      Reached ((session.run presenter diagnostics).run state).1.2

/-- How a run of a session ends: with a report, with a file that the store cannot give, or with an
edit of a file that is not loaded. -/
def Ends (session : Session) (result : Except Failure Report) : Prop :=
  (∃ report, result = .ok report) ∨
    (∃ file fault, session.engine.store file = .error fault ∧
      result = .error (.unreadable file fault)) ∨
    ∃ file, result = .error (.unknownFile file)

variable {m : Type → Type} [Monad m] [LawfulMonad m] {session : Session}

theorem unbroken_start (h : Sound session.engine.setting.outside session.workspace) :
    (Run.start session.workspace).Unbroken session.engine :=
  ⟨h, holdsPending_empty _⟩

theorem finish_ends (session : Session) (options : Options) (run : Run) :
    session.Ends (run.finish options) := by
  unfold Run.finish Patch.apply
  cases hresult : Patch.applyFiles run.workspace options run.resolution.pending.entries
      ⟨∅, []⟩ with
  | ok outcome => exact .inl ⟨_, rfl⟩
  | error failure =>
    obtain ⟨file, _, rfl⟩ := (Patch.applyFiles_eq_error_iff _ _ _ _ _).1 hresult
    exact .inr (.inr ⟨file, rfl⟩)

theorem run_yields (presenter : Presenter m) (diagnostics : List Diagnostic)
    (h : Sound session.engine.setting.outside session.workspace) :
    Yields (session.run presenter diagnostics) fun result =>
      session.Ends result.1 ∧ result.2.engine = session.engine ∧
        Sound session.engine.setting.outside result.2.workspace := by
  refine (Run.handleAll_yields presenter diagnostics (unbroken_start h)).bind
    fun result ⟨hunbroken, hfailure⟩ => ?_
  obtain ⟨run, failure⟩ := result
  cases failure with
  | none => exact .pure ⟨finish_ends session _ run, rfl, hunbroken.sound⟩
  | some failure =>
    obtain ⟨file, fault, hstore, rfl⟩ := hfailure failure rfl
    exact .pure ⟨.inr (.inl ⟨file, fault, hstore, rfl⟩), rfl, hunbroken.sound⟩

theorem Reached.sound (h : session.Reached) :
    Sound session.engine.setting.outside session.workspace := by
  induction h with
  | new snapshot store options => exact sound_empty _
  | run _ presenter diagnostics state ih =>
    obtain ⟨_, hengine, hsound⟩ := (run_yields presenter diagnostics ih).value state
    rw [hengine]
    exact hsound

/-- No run of any session breaks off, whatever the snapshot, the files, the diagnostics and the
presenter: strict evaluation gives what the run gives. The run ends with a report or with one of
two failures. -/
theorem run_never_breaks_off (h : session.Reached) (diagnostics : List Diagnostic) :
    (∀ (m : Type → Type) [Monad m] [LawfulMonad m] (presenter : Presenter m),
        Strict.run session presenter diagnostics = some <$> session.run presenter diagnostics) ∧
      ∀ (σ : Type) (presenter : Presenter (StateM σ)) (state : σ),
        session.Ends ((session.run presenter diagnostics).run state).1.1 := by
  refine ⟨fun m _ _ presenter => ?_, fun σ presenter state =>
    ((run_yields presenter diagnostics h.sound).value state).1⟩
  unfold Strict.run run
  rw [Run.handleAll_eq presenter diagnostics (unbroken_start h.sound), bind_map_left, map_bind]
  refine Run.handleAll_yields presenter diagnostics (unbroken_start h.sound) _ _ _
    fun result ⟨hunbroken, _⟩ => ?_
  obtain ⟨run, failure⟩ := result
  cases failure with
  | none => simp [Run.finish_eq _ hunbroken]
  | some failure => simp

/-- A snapshot with little right in it: ranges that are inverted, that end past the text and that
begin inside a character, a pair that is its own layer, and types that extend themselves. -/
def hostile : Snapshot :=
  let pair : NodePair :=
    { source := ⟨"a.ts", 1, 0, "é", "Circle", "Identifier", false, none, some ⟨"a.ts", 9, 4, "é"⟩⟩
      target := ⟨"a.ts", 4000000000, 1, "o", "Oval", "", true, none, some ⟨"a.ts", 1, 70, "Oval"⟩⟩
      functionName := none }
  { diagnostics := [⟨2322, "a.ts", 1, 0, ""⟩]
    locations := [pair]
    shapes := ∅
    declarations :=
      [⟨"Circle", "a.ts", 1, 4, [⟨"r", 3, 2, 1, 1, "number", false⟩], ["Oval", "Circle"]⟩,
        ⟨"Oval", "a.ts", 3, 4294967295, [⟨"r", 9, 9, 7, 1, "string", false⟩], ["Oval"]⟩]
    layers := [⟨"a.ts", 1, pair⟩] }

/-- A new session over `hostile` and a file whose first character is two bytes wide. -/
def hostileSession : Session :=
  new hostile (.ofTable (.ofList [("a.ts", "é\x7b\x7d")])) .default

theorem run_never_breaks_off_hostile :
    hostileSession.Reached ∧
      ∀ (presenter : Presenter (StateM (List ProblemView))) (state : List ProblemView),
        Strict.run hostileSession presenter hostile.diagnostics =
            some <$> hostileSession.run presenter hostile.diagnostics ∧
          hostileSession.Ends
            ((hostileSession.run presenter hostile.diagnostics).run state).1.1 := by
  have hreached : hostileSession.Reached := .new _ _ _
  obtain ⟨hstrict, hends⟩ := run_never_breaks_off hreached hostile.diagnostics
  exact ⟨hreached, fun presenter state => ⟨hstrict _ presenter, hends _ presenter state⟩⟩

end Session

end TypeMend
