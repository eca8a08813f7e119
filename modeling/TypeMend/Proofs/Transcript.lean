import TypeMend.Proofs.Contributions

/-!
# What a presenter is shown

Problems are presented one after the other, each with candidates of its own and a workspace in which
their nodes are looked up. A presenter that keeps a record shows that the problems come up in their
order, numbered from one, until the user quits. The edits that are collected for a file are those of
the selected candidates that write to it, in the order of selection, and nothing changes after the
user has quit.
-/
namespace TypeMend

/-- A problem with what it is presented with. -/
structure Presentation where
  workspace : Workspace
  problem : Problem
  candidates : List Candidate
  suggestions : List Suggestion

/-- What a presenter was shown, and its answer if it was asked for one. -/
structure Exchange where
  view : ProblemView
  answer : Option Decision

namespace Presentation

def view (item : Presentation) (index : Nat) : ProblemView :=
  .of item.workspace index item.problem (item.workspace.node item.problem.source)
    (item.workspace.node item.problem.target) item.candidates item.suggestions

def present {m : Type → Type} [Monad m] (presenter : Presenter m) (item : Presentation)
    (resolution : Resolution) : m (ProblemState × Resolution) :=
  resolution.present presenter item.workspace item.problem item.candidates item.suggestions

def presentAll {m : Type → Type} [Monad m] (presenter : Presenter m) :
    List Presentation → Resolution → m (List ProblemState × Resolution)
  | [], resolution => pure ([], resolution)
  | item :: rest, resolution =>
    item.present presenter resolution >>= fun first =>
      presentAll presenter rest first.2 >>= fun result =>
        pure (first.1 :: result.1, result.2)

/-- The candidate that an answer selects, if there is one. -/
def selected? (item : Presentation) : Option Decision → Option Candidate
  | some (.select index) => item.candidates[index]?
  | _ => none

/-- What an answer makes of the problem. -/
def outcome (item : Presentation) : Option Decision → ProblemState
  | some (.select index) => if index < item.candidates.length then .selected index else .skipped
  | some .quit => .quit
  | _ => .skipped

def chosen (item : Presentation) (answer : Option Decision) : List Edit :=
  ((item.selected? answer).map Candidate.edits).getD []

/-- The edits that an answer adds to those of a file. -/
def chosenIn (file : String) (item : Presentation) (answer : Option Decision) : List Edit :=
  (item.chosen answer).filter fun edit => (item.workspace.node edit.writtenNode).file = file

/-- The edits that an answer adds, each with the file that it writes to. -/
def pushes (item : Presentation) (answer : Option Decision) : List (String × Edit) :=
  (item.chosen answer).map fun edit => ((item.workspace.node edit.writtenNode).file, edit)

/-- Carries out an answer. There is none to a problem that is only shown. -/
def settle (item : Presentation) (resolution : Resolution) :
    Option Decision → ProblemState × Resolution
  | none => (.skipped, resolution.passOver)
  | some decision => resolution.settle item.workspace item.candidates decision

end Presentation

/-- A presenter that also keeps a record of what it is shown and answers. -/
def Presenter.recorded {σ : Type} (presenter : Presenter (StateM σ)) :
    Presenter (StateM (σ × List Exchange)) where
  choose view := do
    let (state, record) ← get
    let (decision, state) := (presenter.choose view).run state
    set (state, record ++ [(⟨view, some decision⟩ : Exchange)])
    pure decision
  advise view := do
    let (state, record) ← get
    let (_, state) := (presenter.advise view).run state
    set (state, record ++ [(⟨view, none⟩ : Exchange)])

namespace Presentation

/-! ## Carrying out an answer -/

section Settle

variable (item : Presentation) (resolution : Resolution) (answer : Option Decision)

theorem settle_outcome : (item.settle resolution answer).1 = item.outcome answer := by
  rcases answer with _ | ⟨index⟩ | _ | _
  · rfl
  · by_cases hlt : index < item.candidates.length
    · simp [settle, outcome, Resolution.settle, hlt]
    · simp [settle, outcome, Resolution.settle, hlt]
  · rfl
  · rfl

theorem settle_pending : (item.settle resolution answer).2.pending =
    resolution.pending.pushEach (item.pushes answer) := by
  rcases answer with _ | ⟨index⟩ | _ | _
  · rfl
  · cases hfound : item.candidates[index]? with
    | none => simp [settle, Resolution.settle, Resolution.skip, pushes, chosen, selected?, hfound,
        PendingEdits.pushEach]
    | some candidate =>
      simp [settle, Resolution.settle, Resolution.take, pushes, chosen, selected?, hfound,
        PendingEdits.pushAll_eq, Candidate.pushes]
  · rfl
  · rfl

theorem settle_problems :
    (item.settle resolution answer).2.stats.problems = resolution.stats.problems := by
  rcases answer with _ | ⟨index⟩ | _ | _
  · rfl
  · cases hfound : item.candidates[index]? <;>
      simp [settle, Resolution.settle, hfound, Resolution.skip, Resolution.take]
  · rfl
  · rfl

/-- A run is quit by the answer that says so and by no other. -/
theorem settle_quit (hgoing : resolution.stats.quit = false) :
    (item.settle resolution answer).2.stats.quit = true ↔ answer = some .quit := by
  rcases answer with _ | ⟨index⟩ | _ | _
  · simp [settle, Resolution.passOver, hgoing]
  · cases hfound : item.candidates[index]? <;>
      simp [settle, Resolution.settle, hfound, Resolution.skip, Resolution.take, hgoing]
  · simp [settle, Resolution.settle, Resolution.skip, hgoing]
  · simp [settle, Resolution.settle, Resolution.quit]

end Settle

/-! ## Presenting one problem -/

section Step

variable {σ : Type} (presenter : Presenter (StateM σ)) {resolution : Resolution}

/-- A problem is shown under the next number, the presenter is asked if there are candidates, and
the answer is carried out. Keeping a record makes no difference. -/
theorem present_exchange (hgoing : resolution.stats.quit = false) (item : Presentation)
    (state : σ) :
    ∃ answer state', (answer = none ↔ item.candidates = []) ∧
      (item.present presenter resolution).run state =
        (item.settle resolution.count answer, state') ∧
      ∀ record, (item.present presenter.recorded resolution).run (state, record) =
        (item.settle resolution.count answer,
          (state', record ++ [⟨item.view (resolution.stats.problems + 1), answer⟩])) := by
  unfold present Resolution.present
  simp only [hgoing, Bool.false_eq_true, if_false]
  by_cases hempty : item.candidates.isEmpty = true
  · refine ⟨none, ((presenter.advise (item.view (resolution.stats.problems + 1))).run state).2,
      iff_of_true rfl (List.isEmpty_iff.1 hempty), ?_, fun record => ?_⟩
    · rw [if_pos hempty]
      rfl
    · rw [if_pos hempty]
      rfl
  · refine ⟨some ((presenter.choose (item.view (resolution.stats.problems + 1))).run state).1,
      ((presenter.choose (item.view (resolution.stats.problems + 1))).run state).2,
      iff_of_false (by simp) fun h => hempty (List.isEmpty_iff.2 h), ?_, fun record => ?_⟩
    · rw [if_neg hempty]
      rfl
    · rw [if_neg hempty]
      rfl

end Step

section Quit

variable {m : Type → Type} [Monad m] [LawfulMonad m] (presenter : Presenter m)
  {resolution : Resolution}

/-- After a quit nothing is presented. -/
theorem presentAll_of_quit (hquit : resolution.stats.quit = true) (items : List Presentation) :
    presentAll presenter items resolution =
      pure (List.replicate items.length .quit, resolution) := by
  induction items with
  | nil => rfl
  | cons item rest ih =>
    rw [presentAll, present, Resolution.present, if_pos hquit, pure_bind, ih, pure_bind]
    rfl

theorem presentAll_append (before after : List Presentation) (resolution : Resolution) :
    presentAll presenter (before ++ after) resolution =
      presentAll presenter before resolution >>= fun first =>
        presentAll presenter after first.2 >>= fun second =>
          pure (first.1 ++ second.1, second.2) := by
  induction before generalizing resolution with
  | nil => simp [presentAll]
  | cons item before ih => simp [presentAll, ih]

end Quit

end Presentation

/-! ## Presenting problems one after the other -/

/-- The exchanges over problems that are presented one after the other, what becomes of the
problems, and the state at the end. -/
inductive Exchanges :
    List Presentation → Resolution → List Exchange → List ProblemState → Resolution → Prop
  | nil (resolution : Resolution) : Exchanges [] resolution [] [] resolution
  | quit {resolution : Resolution} (items : List Presentation)
      (quit : resolution.stats.quit = true) :
      Exchanges items resolution [] (List.replicate items.length .quit) resolution
  | shown {item : Presentation} {items : List Presentation} {resolution last : Resolution}
      {answer : Option Decision} {record : List Exchange} {states : List ProblemState}
      (going : resolution.stats.quit = false) (asked : answer = none ↔ item.candidates = [])
      (rest : Exchanges items (item.settle resolution.count answer).2 record states last) :
      Exchanges (item :: items) resolution
        (⟨item.view (resolution.stats.problems + 1), answer⟩ :: record)
        (item.outcome answer :: states) last

theorem Presentation.presentAll_exchanges {σ : Type} (presenter : Presenter (StateM σ))
    (items : List Presentation) (resolution : Resolution) (state : σ) :
    ∃ record states last state', Exchanges items resolution record states last ∧
      (presentAll presenter items resolution).run state = ((states, last), state') ∧
      ∀ earlier, (presentAll presenter.recorded items resolution).run (state, earlier) =
        ((states, last), (state', earlier ++ record)) := by
  induction items generalizing resolution state with
  | nil =>
    refine ⟨[], [], resolution, state, .nil resolution, rfl, fun earlier => ?_⟩
    rw [List.append_nil]
    rfl
  | cons item rest ih =>
    cases hquit : resolution.stats.quit with
    | true =>
      refine ⟨[], _, resolution, state, .quit (item :: rest) hquit, ?_, fun earlier => ?_⟩
      · rw [presentAll_of_quit presenter hquit]
        rfl
      · rw [presentAll_of_quit presenter.recorded hquit, List.append_nil]
        rfl
    | false =>
      obtain ⟨answer, state₁, hasked, hplain, hrecorded⟩ :=
        item.present_exchange presenter hquit state
      obtain ⟨record, states, last, state', hrest, hplain', hrecorded'⟩ :=
        ih (item.settle resolution.count answer).2 state₁
      refine ⟨_, _, last, state', .shown hquit hasked hrest, ?_, fun earlier => ?_⟩
      · rw [presentAll, StateT.run_bind, hplain]
        change StateT.run (presentAll presenter rest _ >>= _) state₁ = _
        rw [StateT.run_bind, hplain', ← settle_outcome item resolution.count answer]
        rfl
      · rw [presentAll, StateT.run_bind, hrecorded]
        change StateT.run (presentAll presenter.recorded rest _ >>= _) _ = _
        rw [StateT.run_bind, hrecorded', ← settle_outcome item resolution.count answer,
          List.append_assoc]
        rfl

namespace Exchanges

variable {items : List Presentation} {first last : Resolution} {record : List Exchange}
  {states : List ProblemState}

/-- The problems are shown in their order, under numbers that follow each other. -/
theorem view_eq (h : Exchanges items first record states last) {n : Nat} {exchange : Exchange}
    (hn : record[n]? = some exchange) :
    ∃ item, items[n]? = some item ∧ exchange.view = item.view (first.stats.problems + n + 1) ∧
      (exchange.answer = none ↔ item.candidates = []) := by
  induction h generalizing n with
  | nil resolution => cases hn
  | quit items quit => cases hn
  | @shown item items resolution last answer record states going asked rest ih =>
    cases n with
    | zero =>
      cases hn
      exact ⟨item, rfl, rfl, asked⟩
    | succ n =>
      obtain ⟨other, hother, hview, hasked⟩ := ih hn
      rw [Presentation.settle_problems] at hview
      have hnumber : resolution.count.stats.problems + n + 1 =
          resolution.stats.problems + (n + 1) + 1 := by
        simp only [Resolution.count]
        omega
      exact ⟨other, hother, hnumber ▸ hview, hasked⟩

theorem problems_eq (h : Exchanges items first record states last) :
    last.stats.problems = first.stats.problems + record.length := by
  induction h with
  | nil resolution => rfl
  | quit items quit => rfl
  | shown going asked rest ih =>
    rw [ih, Presentation.settle_problems, List.length_cons]
    simp only [Resolution.count]
    omega

theorem states_eq (h : Exchanges items first record states last) :
    states = List.zipWith Presentation.outcome items (record.map Exchange.answer) ++
      List.replicate (items.length - record.length) .quit := by
  induction h with
  | nil resolution => rfl
  | quit items quit => simp
  | shown going asked rest ih => simp [ih]

/-- The chosen edits are collected in the order of the problems. -/
theorem pending_eq (h : Exchanges items first record states last) :
    last.pending = first.pending.pushEach
      (List.zipWith Presentation.pushes items (record.map Exchange.answer)).flatten := by
  induction h with
  | nil resolution => rfl
  | quit items quit => simp [PendingEdits.pushEach]
  | shown going asked rest ih =>
    rw [ih, Presentation.settle_pending]
    simp [PendingEdits.pushEach_append, Resolution.count]

/-- All problems are shown unless the user quits. -/
theorem length_eq (h : Exchanges items first record states last)
    (hgoing : last.stats.quit = false) : record.length = items.length := by
  induction h with
  | nil resolution => rfl
  | quit items quit =>
    rw [quit] at hgoing
    cases hgoing
  | shown going asked rest ih => simpa using ih hgoing

/-- Nothing is shown after a quit. -/
theorem eq_nil (h : Exchanges items first record states last) (hquit : first.stats.quit = true) :
    record = [] ∧ last = first := by
  cases h with
  | nil resolution => exact ⟨rfl, rfl⟩
  | quit items quit => exact ⟨rfl, rfl⟩
  | shown going asked rest =>
    rw [hquit] at going
    cases going

/-- A run is quit by the last answer or not at all. -/
theorem quit_iff (h : Exchanges items first record states last)
    (hgoing : first.stats.quit = false) :
    (last.stats.quit = true ↔ ∃ exchange ∈ record, exchange.answer = some .quit) ∧
      ∀ n exchange, record[n]? = some exchange → exchange.answer = some .quit →
        n + 1 = record.length := by
  induction h with
  | nil resolution => simp [hgoing]
  | quit items quit =>
    rw [quit] at hgoing
    cases hgoing
  | @shown item items resolution last answer record states going asked rest ih =>
    have hquit := item.settle_quit resolution.count answer going
    by_cases hanswer : answer = some .quit
    · obtain ⟨rfl, rfl⟩ := rest.eq_nil (hquit.2 hanswer)
      refine ⟨by simpa [hanswer] using hquit, fun n exchange hn _ => ?_⟩
      obtain ⟨hlt, -⟩ := List.getElem?_eq_some_iff.1 hn
      simpa using hlt
    · obtain ⟨hiff, hlast⟩ := ih (Bool.eq_false_of_not_eq_true (mt hquit.1 hanswer))
      refine ⟨by simp [hiff, hanswer], fun n exchange hn hexchange => ?_⟩
      cases n with
      | zero =>
        cases hn
        exact absurd hexchange hanswer
      | succ n => simpa using hlast n exchange hn hexchange

end Exchanges

/-! ## The collected edits -/

namespace PendingEdits

theorem sum_alterEntries (file : String) (edit : Edit) (entries : List (String × List Edit)) :
    ((Table.alterEntries file (fun edits => edits.getD [] ++ [edit]) entries).map
      fun entry => entry.2.length).sum = (entries.map fun entry => entry.2.length).sum + 1 := by
  induction entries with
  | nil => simp [Table.alterEntries]
  | cons entry rest ih =>
    rw [Table.alterEntries]
    split_ifs
    · simp only [Option.getD_some, List.map_cons, List.sum_cons, List.length_append,
        List.length_singleton]
      omega
    · simp only [List.map_cons, List.sum_cons, ih]
      omega

theorem total_eq_sum (pending : PendingEdits) :
    pending.total = (pending.entries.map fun entry => entry.2.length).sum := by
  rw [total, Table.values, List.foldl_map, List.sum_eq_foldl, List.foldl_map]

theorem total_ofPushes (pushes : List (String × Edit)) :
    (ofPushes pushes).total = pushes.length := by
  induction pushes using List.reverseRecOn with
  | nil => rfl
  | append_singleton pushes last ih =>
    rw [ofPushes_snoc, total_eq_sum, push, Table.alter, sum_alterEntries, ← total_eq_sum, ih,
      List.length_append, List.length_singleton]

end PendingEdits

namespace Presentation

/-- The edits for a file among those that answers add. -/
theorem filter_pushes (file : String) (items : List Presentation)
    (answers : List (Option Decision)) :
    ((List.zipWith pushes items answers).flatten.filter fun push => push.1 = file).map Prod.snd =
      (List.zipWith (chosenIn file) items answers).flatten := by
  induction items generalizing answers with
  | nil => rfl
  | cons item rest ih =>
    cases answers with
    | nil => rfl
    | cons answer answers =>
      simp only [List.zipWith_cons_cons, List.flatten_cons, List.filter_append, List.map_append, ih]
      simp [pushes, chosenIn, List.filter_map, Function.comp_def]

theorem length_pushes (items : List Presentation) (answers : List (Option Decision)) :
    (List.zipWith pushes items answers).flatten.length =
      (List.zipWith chosen items answers).flatten.length := by
  induction items generalizing answers with
  | nil => rfl
  | cons item rest ih =>
    cases answers with
    | nil => rfl
    | cons answer answers => simp [ih, pushes]

/-- What came of problems that were presented one after the other, by the record of what was shown
and answered. -/
structure Transcript (items : List Presentation) (record : List Exchange)
    (states : List ProblemState) (last : Resolution) : Prop where
  /-- The problems are shown in their order and numbered from one, each with the prompts of its
  candidates. -/
  shown : ∀ (n : Nat) (exchange : Exchange), record[n]? = some exchange →
    exchange.view.index = n + 1 ∧ ∃ item, items[n]? = some item ∧
      exchange.view = item.view (n + 1) ∧
      exchange.view.prompts = item.candidates.map Candidate.prompt ∧
      (exchange.answer = none ↔ item.candidates = [])
  states_eq : states = List.zipWith outcome items (record.map Exchange.answer) ++
    List.replicate (items.length - record.length) .quit
  edits_eq : ∀ file, last.pending.of file =
    (List.zipWith (chosenIn file) items (record.map Exchange.answer)).flatten
  total_eq : last.pending.total =
    (List.zipWith chosen items (record.map Exchange.answer)).flatten.length
  problems_eq : last.stats.problems = record.length
  all_shown : last.stats.quit = false → record.length = items.length
  quit_iff : last.stats.quit = true ↔ ∃ exchange ∈ record, exchange.answer = some .quit
  quit_last : ∀ (n : Nat) (exchange : Exchange), record[n]? = some exchange →
    exchange.answer = some .quit → n + 1 = record.length

theorem transcript_of_exchanges {items : List Presentation} {record : List Exchange}
    {states : List ProblemState} {last : Resolution}
    (h : Exchanges items .start record states last) : Transcript items record states last := by
  have hpending : last.pending = .ofPushes
      (List.zipWith pushes items (record.map Exchange.answer)).flatten := h.pending_eq
  have hproblems := h.problems_eq
  obtain ⟨hquit, hlast⟩ := h.quit_iff rfl
  refine ⟨fun n exchange hn => ?_, h.states_eq, fun file => ?_, ?_, ?_, h.length_eq, hquit, hlast⟩
  · obtain ⟨item, hitem, hview, hasked⟩ := h.view_eq hn
    have hnumber : exchange.view = item.view (n + 1) := by
      simpa [Resolution.start] using hview
    exact ⟨by rw [hnumber]; rfl, item, hitem, hnumber, by rw [hnumber]; rfl, hasked⟩
  · rw [hpending, PendingEdits.of_ofPushes, filter_pushes]
  · rw [hpending, PendingEdits.total_ofPushes, length_pushes]
  · simpa [Resolution.start] using hproblems

theorem Transcript.indices_eq {items : List Presentation} {record : List Exchange}
    {states : List ProblemState} {last : Resolution} (h : Transcript items record states last) :
    record.map (fun exchange => exchange.view.index) = List.range' 1 record.length := by
  refine List.ext_getElem (by simp) fun n hn _ => ?_
  have hlt : n < record.length := by simpa using hn
  obtain ⟨hindex, -⟩ := h.shown n record[n] (List.getElem?_eq_getElem hlt)
  simp [hindex, Nat.add_comm]

/-- Problems are presented one after the other. What a presenter is shown and answers can be
recorded without a difference to anything else, and the record tells the rest. The problems are
shown in their order and numbered from one, and the presenter is asked about those that have
candidates. The edits of a file are those of the selected candidates that write to it, in the order
of selection, and no others are collected. An answer to quit is the last one: from then on every
problem is quit, nothing is shown, and neither the edits nor the counters change. -/
theorem presentAll_follows_record {σ : Type} (presenter : Presenter (StateM σ))
    (items : List Presentation) (state : σ) :
    ∃ states last state' record,
      (presentAll presenter items .start).run state = ((states, last), state') ∧
      (presentAll presenter.recorded items .start).run (state, []) =
        ((states, last), (state', record)) ∧
      Transcript items record states last ∧
      (last.stats.quit = true → ∀ after,
        (presentAll presenter.recorded (items ++ after) .start).run (state, []) =
          ((states ++ List.replicate after.length .quit, last), (state', record))) := by
  obtain ⟨record, states, last, state', hexchanges, hplain, hrecorded⟩ :=
    presentAll_exchanges presenter items .start state
  refine ⟨states, last, state', record, hplain, hrecorded [], transcript_of_exchanges hexchanges,
    fun hquit after => ?_⟩
  rw [presentAll_append, StateT.run_bind, hrecorded]
  change StateT.run (presentAll presenter.recorded after last >>= _) _ = _
  rw [presentAll_of_quit presenter.recorded hquit]
  rfl

/-- A workspace with a node in each of two files. -/
def twoNodes : Workspace :=
  { (∅ : Workspace) with
    nodes := #[⟨"a.ts", 0, 1, "x", "string", "Identifier", false, false, none⟩,
      ⟨"b.ts", 0, 1, "y", "number", "Identifier", false, false, none⟩] }

/-- A problem between the two nodes, with candidates that have these edits. -/
def betweenNodes (edits : List (List Edit)) : Presentation where
  workspace := twoNodes
  problem := { (default : Problem) with source := 0, target := 1 }
  candidates := edits.map fun edits => ⟨"", edits⟩
  suggestions := []

/-- A problem for which nothing is offered, and six with a choice between one edit of `b.ts` and
edits of both files. -/
def sevenItems : List Presentation :=
  betweenNodes [] :: List.replicate 6 (betweenNodes
    [[⟨.convertType, 0, some 1⟩],
      [⟨.unionType, 0, some 1⟩, ⟨.makeOptional, 1, none⟩, ⟨.unionType, 0, none⟩]])

/-- Answers of every sort. When they are used up, the user quits. -/
def fourAnswers : List Decision :=
  [.select 1, .select 2, .skip, .select 0]

theorem presentAll_follows_record_sevenItems :
    ∃ states last record,
      (presentAll Session.answering.recorded sevenItems .start).run (fourAnswers, []) =
        ((states, last), ([], record)) ∧
      Transcript sevenItems record states last ∧
      states = [.skipped, .selected 1, .skipped, .skipped, .selected 0, .quit, .quit] ∧
      last.pending.of "a.ts" = [⟨.unionType, 0, some 1⟩, ⟨.unionType, 0, none⟩] ∧
      last.pending.of "b.ts" = [⟨.makeOptional, 1, none⟩, ⟨.convertType, 0, some 1⟩] ∧
      record.map (fun exchange => exchange.view.index) = [1, 2, 3, 4, 5, 6] ∧
      ∀ after,
        (presentAll Session.answering.recorded (sevenItems ++ after) .start).run
            (fourAnswers, []) =
          ((states ++ List.replicate after.length .quit, last), ([], record)) := by
  obtain ⟨states, last, state', record, hplain, hrecorded, htranscript, hquit⟩ :=
    presentAll_follows_record Session.answering sevenItems fourAnswers
  have hvalue : ((presentAll Session.answering sevenItems .start).run fourAnswers).1 =
        ([.skipped, .selected 1, .skipped, .skipped, .selected 0, .quit, .quit],
          ⟨.ofPushes [("a.ts", ⟨.unionType, 0, some 1⟩), ("b.ts", ⟨.makeOptional, 1, none⟩),
            ("a.ts", ⟨.unionType, 0, none⟩), ("b.ts", ⟨.convertType, 0, some 1⟩)],
            ⟨6, 2, 3, 1, true⟩⟩) ∧
      ((presentAll Session.answering sevenItems .start).run fourAnswers).2 = [] := by
    decide +kernel
  rw [hplain] at hvalue
  obtain ⟨hresult, rfl⟩ := hvalue
  obtain ⟨rfl, rfl⟩ := Prod.mk.inj hresult
  have hindices := htranscript.indices_eq
  rw [← htranscript.problems_eq] at hindices
  exact ⟨_, _, record, hrecorded, htranscript, rfl, by decide, by decide, hindices, hquit rfl⟩

end Presentation

end TypeMend
