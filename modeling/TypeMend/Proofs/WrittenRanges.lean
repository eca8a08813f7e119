import TypeMend.Proofs.DiscoveryOrder
import TypeMend.Proofs.InsertedMembers

/-!
# What an edit rewrites

The node that an edit writes to is named twice: once to choose the file, and once when the range of
the change is worked out. Both mean the same node: a change has the range of that node, or is an
insertion at its end or strictly inside it. So a run leaves all other bytes of its files as they
are. `Rewritten` says this of two texts without the changes that lead from one to the other.
-/
namespace TypeMend

open Workspace

/-! ## Texts that differ in some ranges -/

def Text.bytes (text : String) : List UInt8 :=
  text.toByteArray.data.toList

theorem Text.bytes_eq (text : String) :
    bytes text = text.toList.flatMap String.utf8EncodeChar := by
  rw [bytes, ← String.utf8Encode_toList, List.utf8Encode, List.data_toByteArray]

/-- `Rewritten allowed pos old new` says that the bytes `old`, which begin at offset `pos` of the
whole text, become `new` when some ranges of them that are allowed are given other bytes. All bytes
between these ranges are kept. -/
inductive Rewritten (allowed : Nat → Nat → Prop) : Nat → List UInt8 → List UInt8 → Prop
  | done (pos : Nat) : Rewritten allowed pos [] []
  | keep {pos : Nat} (byte : UInt8) {old new : List UInt8}
      (rest : Rewritten allowed (pos + 1) old new) :
      Rewritten allowed pos (byte :: old) (byte :: new)
  | rewrite {pos stop : Nat} {replaced : List UInt8} (written : List UInt8) {old new : List UInt8}
      (stop_eq : pos + replaced.length = stop) (within : allowed pos stop)
      (rest : Rewritten allowed stop old new) :
      Rewritten allowed pos (replaced ++ old) (written ++ new)

namespace Rewritten

variable {allowed : Nat → Nat → Prop} {pos : Nat} {old new : List UInt8}

theorem append (kept : List UInt8) (h : Rewritten allowed (pos + kept.length) old new) :
    Rewritten allowed pos (kept ++ old) (kept ++ new) := by
  induction kept generalizing pos with
  | nil => exact h
  | cons byte kept ih =>
    refine .keep byte (ih ?_)
    rwa [List.length_cons, Nat.add_comm kept.length, ← Nat.add_assoc] at h

theorem refl (pos : Nat) (bytes : List UInt8) : Rewritten allowed pos bytes bytes := by
  have hall : Rewritten allowed pos (bytes ++ []) (bytes ++ []) := append bytes (.done _)
  rwa [List.append_nil] at hall

/-- A byte that lies in no allowed range is kept, between what the bytes before and behind it
become. -/
theorem kept_outside (h : Rewritten allowed pos old new) {n : Nat} (hn : n < old.length)
    (houtside : ∀ start stop, allowed start stop → pos + n < start ∨ stop ≤ pos + n) :
    ∃ front byte rest front' rest', old = front ++ byte :: rest ∧ front.length = n ∧
      new = front' ++ byte :: rest' ∧ Rewritten allowed pos front front' ∧
      Rewritten allowed (pos + n + 1) rest rest' := by
  induction h generalizing n with
  | done pos => simp at hn
  | @keep pos byte old new rest ih =>
    cases n with
    | zero => exact ⟨[], byte, old, [], new, rfl, rfl, rfl, .done _, rest⟩
    | succ n =>
      have hshift : pos + 1 + n = pos + (n + 1) := by omega
      obtain ⟨front, other, behind, front', behind', rfl, hlength, rfl, hfront, hbehind⟩ :=
        ih (by simpa using hn) (by rwa [hshift])
      rw [hshift] at hbehind
      exact ⟨byte :: front, other, behind, byte :: front', behind', rfl, by simp [hlength], rfl,
        .keep byte hfront, hbehind⟩
  | @rewrite pos stop replaced written old new stop_eq within rest ih =>
    rw [List.length_append] at hn
    have hbehind : replaced.length ≤ n := by
      rcases houtside _ _ within with hbefore | hafter <;> omega
    have hshift : stop + (n - replaced.length) = pos + n := by omega
    obtain ⟨front, byte, behind, front', behind', rfl, hlength, rfl, hfront, hbehind⟩ :=
      ih (n := n - replaced.length) (by omega) (by rwa [hshift])
    rw [hshift] at hbehind
    refine ⟨replaced ++ front, byte, behind, written ++ front', behind', ?_, ?_, ?_,
      .rewrite written stop_eq within hfront, hbehind⟩
    · rw [List.append_assoc]
    · rw [List.length_append, hlength]
      omega
    · rw [List.append_assoc]

end Rewritten

/-- A splice rewrites the ranges of its changes. -/
theorem TextChange.Spliced.rewritten {allowed : Nat → Nat → Prop} {previous : Option TextChange}
    {pos : Nat} {changes : List TextChange} {old new : List Char}
    (h : Spliced previous pos changes old new)
    (hallowed : ∀ change ∈ changes, allowed change.start change.stop) :
    Rewritten allowed pos (old.flatMap String.utf8EncodeChar)
      (new.flatMap String.utf8EncodeChar) := by
  induction h with
  | rest previous pos cs => exact .refl pos _
  | @change previous pos change changes gap replaced old new start_eq stop_eq tail ih =>
    obtain ⟨hfirst, hothers⟩ := List.forall_mem_cons.1 hallowed
    rw [← Text.length_flatMap_utf8EncodeChar] at start_eq stop_eq
    simp only [List.flatMap_append, List.append_assoc]
    refine .append _ ?_
    rw [start_eq]
    exact .rewrite _ stop_eq hfirst (ih hothers)

/-! ## The range of an edit -/

/-- The ranges that an edit of a kind can rewrite by the node it writes to. -/
def EditKind.Hits (kind : EditKind) (node : Node) (start stop : Nat) : Prop :=
  match kind with
  | .convertType | .unionType => start = node.start ∧ stop = node.stop
  | .makeOptional => start = node.stop ∧ stop = node.stop
  | .insertProperty | .insertOptionalProperty =>
    start = stop ∧ node.start < start ∧ stop < node.stop

theorem EditKind.Hits.within {kind : EditKind} {node : Node} {start stop : Nat}
    (h : kind.Hits node start stop) (hnode : node.start ≤ node.stop) :
    node.start ≤ start ∧ start ≤ stop ∧ stop ≤ node.stop := by
  cases kind <;> simp only [Hits] at h <;> omega

/-- No byte outside a node is hit. -/
theorem EditKind.Hits.outside {kind : EditKind} {node : Node} {start stop n : Nat}
    (h : kind.Hits node start stop) (hn : n < node.start ∨ node.stop ≤ n) :
    n < start ∨ stop ≤ n := by
  cases kind <;> simp only [Hits] at h <;> omega

/-- The ranges that an edit can rewrite in its file. -/
def Edit.Hits (ws : Workspace) (edit : Edit) (start stop : Nat) : Prop :=
  edit.kind.Hits (ws.node edit.writtenNode) start stop

namespace Patch

variable {ws : Workspace} {options : Options}

theorem insertMember_hits {unit property text : String} {declaration : Node} {change : TextChange}
    (h : insertMember unit declaration property text.toList = .change change) :
    change.start = change.stop ∧ declaration.start < change.start ∧
      change.stop < declaration.stop := by
  unfold insertMember at h
  rcases Insertion.change?_cases unit declaration.start declaration.stop property text with
    ⟨hbraced, made, hmade, hlands⟩ | ⟨-, hnone⟩
  · rw [hmade] at h
    cases h
    obtain ⟨opening, -, hopening, -⟩ := hbraced.opened
    have hclose := hlands.le_close
    have hstop := hlands.stop_eq
    exact ⟨hstop.symm, hlands.start_lt, by omega⟩
  · rw [hnone] at h
    cases h

/-- An edit hits the node by which its file is chosen. -/
theorem resolve_hits {edit : Edit} {text : String} {change : TextChange}
    (h : resolve ws options edit text.toList = .change change) :
    edit.Hits ws change.start change.stop := by
  have hproposed := (confine_eq_change_iff.1 h).1
  obtain ⟨kind, prime, other⟩ := edit
  unfold Edit.Hits Edit.writtenNode EditKind.Hits
  cases kind with
  | makeOptional =>
    simp only [propose, markOptional] at hproposed
    split at hproposed
    · cases hproposed
    · cases hproposed
      exact ⟨rfl, rfl⟩
  | convertType =>
    cases other with
    | none => cases hproposed
    | some other =>
      cases hproposed
      exact ⟨rfl, rfl⟩
  | unionType =>
    cases other with
    | none => cases hproposed
    | some other =>
      simp only [propose, Option.map_some, widen] at hproposed
      split_ifs at hproposed
      cases hproposed
      exact ⟨rfl, rfl⟩
  | insertProperty =>
    cases other with
    | none => cases hproposed
    | some other => exact insertMember_hits hproposed
  | insertOptionalProperty =>
    cases other with
    | none => cases hproposed
    | some other => exact insertMember_hits hproposed

/-- The new text of a file differs from the old one in ranges that its edits hit. -/
theorem newText?_rewritten {file text new : String} {edits : List Edit}
    (hloaded : ws.fileText? file = some text) (h : newText? ws options file edits = some new) :
    Rewritten (fun start stop => ∃ edit ∈ edits, edit.Hits ws start stop) 0 (Text.bytes text)
      (Text.bytes new) := by
  obtain ⟨verdicts, _, hledger, -, -, -⟩ := exists_patched options hloaded edits
  obtain ⟨cs, hspliced, rfl, -⟩ := (newText?_eq_some_iff hloaded hledger).1 h
  rw [Text.bytes_eq, Text.bytes_eq, String.toList_ofList]
  refine hspliced.rewritten fun change hchange => ?_
  have haccepted := (TextChange.inOrder_perm _).mem_iff.1 hchange
  obtain ⟨edit, hedit, hresolved⟩ := List.mem_filterMap.1 (hledger.changes_subset haccepted)
  exact ⟨edit, hedit, resolve_hits (Resolved.change?_eq_some_iff.1 hresolved)⟩

end Patch

/-- The ranges of a file that the chosen edits of a run can rewrite. -/
def Run.Hits (run : Run) (file : String) (start stop : Nat) : Prop :=
  ∃ edit ∈ run.resolution.pending.of file, edit.Hits run.workspace start stop

/-- A byte lies in the node of no edit that was chosen for its file. -/
def Run.Passes (run : Run) (file : String) (n : Nat) : Prop :=
  ∀ edit ∈ run.resolution.pending.of file,
    n < (run.workspace.node edit.writtenNode).start ∨
      (run.workspace.node edit.writtenNode).stop ≤ n

instance (run : Run) (file : String) (n : Nat) : Decidable (run.Passes file n) :=
  inferInstanceAs (Decidable (∀ edit ∈ run.resolution.pending.of file,
    n < (run.workspace.node edit.writtenNode).start ∨
      (run.workspace.node edit.writtenNode).stop ≤ n))

theorem Run.Passes.outside {run : Run} {file : String} {n : Nat} (h : run.Passes file n) :
    ∀ start stop, run.Hits file start stop → n < start ∨ stop ≤ n :=
  fun _ _ ⟨edit, hedit, hhits⟩ => hhits.outside (h edit hedit)

namespace Session

/-- What a patch with the chosen edits of a run does to a file that can be read. -/
theorem rewritten_of_apply {store : Store} {options : Options} {run : Run} {outcome : PatchOutcome}
    (hread : ReadFrom store run.workspace)
    (happly : Patch.apply run.workspace options run.resolution.pending = .ok outcome)
    {file text : String} (hstore : store file = .ok text) :
    Rewritten (run.Hits file) 0 (Text.bytes text)
      (Text.bytes ((outcome.files.get? file).getD text)) := by
  obtain ⟨hloaded, -, hfiles⟩ := Patch.apply_spec happly
  rw [hfiles file]
  split_ifs with hkeys
  · obtain ⟨loaded, htext⟩ := hloaded file hkeys
    obtain rfl : loaded = text := by
      simpa [hstore] using (hread file loaded htext).symm
    cases hnew : Patch.newText? run.workspace options file (run.resolution.pending.of file) with
    | none => exact .refl _ _
    | some new => exact Patch.newText?_rewritten htext hnew
  · exact .refl _ _

/-- What an edit rewrites belongs to the node by which its file is chosen. A change has the range of
that node, or is an insertion at its end or strictly inside it, as the kind of the edit has it; so it
lies within the node, unless the range of the node is inverted. In a run with a report every chosen
edit is filed under the file of that node, and the texts of the report differ from what the store
has in such ranges only: every other byte of every file is kept, between what becomes of the bytes
before and behind it. -/
theorem edits_stay_within_written_nodes :
    (∀ (ws : Workspace) (options : Options) (edit : Edit) (text : String) (change : TextChange),
      Patch.resolve ws options edit text.toList = .change change →
        edit.Hits ws change.start change.stop ∧
        ((ws.node edit.writtenNode).start ≤ (ws.node edit.writtenNode).stop →
          (ws.node edit.writtenNode).start ≤ change.start ∧ change.start ≤ change.stop ∧
            change.stop ≤ (ws.node edit.writtenNode).stop)) ∧
    ∀ (session : Session) (σ : Type) (presenter : Presenter (StateM σ))
      (diagnostics : List Diagnostic) (state : σ) (report : Report), session.Reached →
      ((session.run presenter diagnostics).run state).1.1 = .ok report →
      ∃ handled rest contributions last, diagnostics = handled ++ rest ∧
        session.handled presenter diagnostics state = (last, none) ∧
        Run.Logs session.engine handled (.start session.workspace) contributions last ∧
        last.resolution.pending = .ofPushes (contributions.flatMap Contribution.pushes) ∧
        (∀ file, ∀ edit ∈ last.resolution.pending.of file,
          (last.workspace.node edit.writtenNode).file = file) ∧
        (∀ file new, report.files.get? file = some new →
          ∃ text, session.engine.store file = .ok text) ∧
        ∀ file text, session.engine.store file = .ok text →
          Rewritten (last.Hits file) 0 (Text.bytes text)
            (Text.bytes ((report.files.get? file).getD text)) ∧
          ∀ n, n < (Text.bytes text).length → last.Passes file n →
            ∃ front byte rest front' rest', Text.bytes text = front ++ byte :: rest ∧
              front.length = n ∧
              Text.bytes ((report.files.get? file).getD text) = front' ++ byte :: rest' ∧
              Rewritten (last.Hits file) 0 front front' ∧
              Rewritten (last.Hits file) (n + 1) rest rest' := by
  refine ⟨fun ws options edit text change h => ⟨Patch.resolve_hits h, (Patch.resolve_hits h).within⟩,
    fun session σ presenter diagnostics state report hreached hrun => ?_⟩
  obtain ⟨last, outcome, hhandled, happly, rfl⟩ := exists_handled hrun
  obtain ⟨handled, rest, contributions, hsplit, hlogs, -⟩ := logs_of_handled hhandled
  have hlast := (handled_spec hreached.sound presenter diagnostics state).1
  rw [hhandled] at hlast
  have hread : ReadFrom session.engine.store last.workspace :=
    (hlogs.coherent hreached.coherent).1.readFrom
  refine ⟨handled, rest, contributions, last, hsplit, hhandled, hlogs, hlogs.books.pending_eq,
    fun file edit hedit => ?_, fun file new hnew => ?_, fun file text hstore => ?_⟩
  · obtain ⟨edits, hentry, hmem⟩ := PendingEdits.mem_of hedit
    exact (hlast.pending_held.edit_held file edits hentry edit hmem).2
  · have hfiles := (Patch.apply_spec happly).2.2 file
    rw [show outcome.files.get? file = some new from hnew] at hfiles
    split_ifs at hfiles with hkeys
    obtain ⟨text, htext⟩ := (Patch.apply_spec happly).1 file hkeys
    exact ⟨text, hread file text htext⟩
  · have hrewritten := rewritten_of_apply hread happly hstore
    refine ⟨hrewritten, fun n hn hpasses => ?_⟩
    have hkept := hrewritten.kept_outside hn fun start stop hhits => by
      rw [Nat.zero_add]
      exact hpasses.outside start stop hhits
    rwa [Nat.zero_add] at hkept

/-- The type of `x` is widened, and what stands behind it is kept. -/
theorem edits_stay_within_written_nodes_everySort :
    Patch.resolve Patch.twoTypes .default ⟨.unionType, 0, some 2⟩
        "let x: string; let y: string | number;".toList = .change ⟨7, 13, "string | number"⟩ ∧
      (⟨.unionType, 0, some 2⟩ : Edit).Hits Patch.twoTypes 7 13 ∧
      ∃ report last, threeAssignments.Reached ∧
        ((threeAssignments.run answering everySort).run [.select 0]).1.1 = .ok report ∧
        threeAssignments.handled answering everySort [.select 0] = (last, none) ∧
        report.files.get? "a.ts" =
          some "let x: string | number = 5; let y: string = 6; p = 7;" ∧
        Run.Passes last "a.ts" 13 ∧
        ∃ byte front rest front' rest',
          Text.bytes "let x: string = 5; let y: string = 6; p = 7;" = front ++ byte :: rest ∧
          front.length = 13 ∧
          Text.bytes "let x: string | number = 5; let y: string = 6; p = 7;" =
            front' ++ byte :: rest' ∧
          Rewritten (Run.Hits last "a.ts") 0 front front' ∧
          Rewritten (Run.Hits last "a.ts") 14 rest rest' := by
  obtain ⟨hedits, hruns⟩ := edits_stay_within_written_nodes
  have hresolved : Patch.resolve Patch.twoTypes .default ⟨.unionType, 0, some 2⟩
      "let x: string; let y: string | number;".toList = .change ⟨7, 13, "string | number"⟩ := by
    decide +kernel
  have hcheck : checkReport ((threeAssignments.run answering everySort).run [.select 0]).1.1
      (fun report => decide (report.files.get? "a.ts" =
        some "let x: string | number = 5; let y: string = 6; p = 7;")) = true := by
    decide +kernel
  obtain ⟨report, hrun, hfile⟩ := exists_of_checkReport hcheck
  have hfile := of_decide_eq_true hfile
  have hreached : threeAssignments.Reached := .new _ _ _
  obtain ⟨_, _, _, last, -, hlast, -, -, -, -, hkept⟩ := hruns _ _ _ _ _ report hreached hrun
  obtain rfl : (threeAssignments.handled answering everySort [.select 0]).1 = last := by rw [hlast]
  have hpasses : (threeAssignments.handled answering everySort [.select 0]).1.Passes "a.ts" 13 := by
    decide +kernel
  have hstore : threeAssignments.engine.store "a.ts" =
      .ok "let x: string = 5; let y: string = 6; p = 7;" := by decide +kernel
  obtain ⟨front, byte, rest, front', rest', hfront⟩ :=
    (hkept "a.ts" _ hstore).2 13 (by decide +kernel) hpasses
  rw [hfile, Option.getD_some] at hfront
  exact ⟨hresolved, (hedits _ _ _ _ _ hresolved).1, report, _, hreached, hrun, hlast, hfile, hpasses,
    byte, front, rest, front', rest', hfront⟩

end Session

end TypeMend
