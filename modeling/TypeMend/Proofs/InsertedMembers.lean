import TypeMend.Proofs.CarrierNames
import TypeMend.Proofs.Repeats

/-!
# Which members are inserted

A patch accepts a change once, so that no member is written twice into one declaration in the same
way. Names are not compared: problems that were presented one after the other may insert members of
one name, with different types. The candidate of a single problem inserts members of different
names.
-/
namespace TypeMend

open Workspace

/-! ## Accepted edits -/

namespace Patch

/-- The edits that add to the accepted changes, from a selection on. -/
def acceptedAfter (ws : Workspace) (options : Options) (file : String) (cs : List Char) :
    Selection → List Edit → List Edit
  | _, [] => []
  | selection, edit :: rest =>
    let next := selection.add file edit (resolve ws options edit cs)
    if next.accepted = selection.accepted then acceptedAfter ws options file cs next rest
    else edit :: acceptedAfter ws options file cs next rest

/-- The edits of a file that are accepted in its loaded text. -/
def acceptedIn (ws : Workspace) (options : Options) (file : String) (edits : List Edit) :
    List Edit :=
  acceptedAfter ws options file ((ws.fileText? file).getD "").toList ⟨[], []⟩ edits

variable {ws : Workspace} {options : Options} {file : String}

/-- Taking one more edit accepts the change that it comes to, or none. -/
theorem accepted_add_cases (file : String) (selection : Selection) (edit : Edit)
    (resolved : Resolved) :
    (selection.add file edit resolved).accepted = selection.accepted ∨
      ∃ change, resolved = .change change ∧
        (selection.add file edit resolved).accepted = selection.accepted ++ [change] := by
  obtain ⟨verdict, hjudged, haccepted, -⟩ := exists_judged file selection edit resolved
  rw [haccepted]
  cases hjudged with
  | satisfied => exact .inl (by simp [Verdict.change?])
  | refused reason start stop => exact .inl (by simp [Verdict.change?])
  | repeated mem => exact .inl (by simp [Verdict.change?])
  | overlap notMem split touches apart => exact .inl (by simp [Verdict.change?])
  | accepted notMem apart => exact .inr ⟨_, rfl, by simp [Verdict.change?]⟩

theorem map_acceptedAfter (cs : List Char) (selection : Selection) (edits : List Edit) :
    selection.accepted.map some ++
        (acceptedAfter ws options file cs selection edits).map
          (fun edit => (resolve ws options edit cs).change?) =
      (edits.foldl (fun selection edit => selection.add file edit (resolve ws options edit cs))
        selection).accepted.map some := by
  induction edits generalizing selection with
  | nil => simp [acceptedAfter]
  | cons edit rest ih =>
    rw [List.foldl_cons, ← ih, acceptedAfter]
    rcases accepted_add_cases file selection edit (resolve ws options edit cs) with
      hsame | ⟨change, hchange, hadded⟩
    · rw [if_pos hsame, hsame]
    · rw [if_neg (by simp [hadded]), hadded]
      simp [hchange, Resolved.change?]

/-- The accepted edits come to the accepted changes, one for one. -/
theorem map_acceptedIn (ws : Workspace) (options : Options) (file : String) (edits : List Edit) :
    (acceptedIn ws options file edits).map
        (fun edit => (resolve ws options edit ((ws.fileText? file).getD "").toList).change?) =
      (selectIn ws options file edits).accepted.map some := by
  exact map_acceptedAfter ((ws.fileText? file).getD "").toList ⟨[], []⟩ edits

theorem acceptedAfter_sublist (cs : List Char) (selection : Selection) (edits : List Edit) :
    (acceptedAfter ws options file cs selection edits).Sublist edits := by
  induction edits generalizing selection with
  | nil => exact .slnil
  | cons edit rest ih =>
    rw [acceptedAfter]
    split_ifs
    · exact (ih _).cons edit
    · exact (ih _).cons_cons edit

/-- Accepted edits come to different changes. -/
theorem acceptedIn_pairwise (edits : List Edit) :
    (acceptedIn ws options file edits).Pairwise fun edit other =>
      resolve ws options edit ((ws.fileText? file).getD "").toList ≠
        resolve ws options other ((ws.fileText? file).getD "").toList := by
  obtain ⟨verdicts, hledger, haccepted, -⟩ :=
    select_ledger ws options file ((ws.fileText? file).getD "").toList edits
  have hnodup : ((selectIn ws options file edits).accepted.map some).Nodup := by
    rw [selectIn, haccepted]
    exact hledger.nodup.map (Option.some_injective _)
  rw [← map_acceptedIn] at hnodup
  exact (List.pairwise_map.1 hnodup).imp fun hne heq => hne (by rw [heq])

end Patch

/-! ## Inserted members -/

namespace Edit

variable {ws : Workspace} {edit other : Edit} {member member' : InsertedMember}

theorem inserted?_eq_some (h : edit.inserted? ws = some member) :
    edit.other = some member.declaration ∧
      edit.kind.signature? (ws.node edit.prime) = some member.signature := by
  unfold inserted? at h
  split at h
  · next hother hsignature =>
    cases h
    exact ⟨hother, hsignature⟩
  · cases h

/-- A member is written into the declaration that it goes into. -/
theorem writtenNode_of_inserted? (h : edit.inserted? ws = some member) :
    edit.writtenNode = member.declaration := by
  obtain ⟨hother, hsignature⟩ := inserted?_eq_some h
  unfold writtenNode
  cases hkind : edit.kind with
  | insertProperty => simp [hother]
  | insertOptionalProperty => simp [hother]
  | convertType =>
    rw [hkind] at hsignature
    cases hsignature
  | unionType =>
    rw [hkind] at hsignature
    cases hsignature
  | makeOptional =>
    rw [hkind] at hsignature
    cases hsignature

/-- What an inserted member comes to depends on its declaration and its signature only. -/
theorem resolve_eq_of_inserted? (options : Options) (text : String)
    (h : edit.inserted? ws = some member) (h' : other.inserted? ws = some member')
    (hdeclaration : member.declaration = member'.declaration)
    (hsignature : member.signature = member'.signature) :
    Patch.resolve ws options edit text.toList = Patch.resolve ws options other text.toList := by
  obtain ⟨hnode, hwritten⟩ := inserted?_eq_some h
  obtain ⟨hnode', hwritten'⟩ := inserted?_eq_some h'
  rw [Patch.resolve_of_signature? options hnode hwritten,
    Patch.resolve_of_signature? options hnode' hwritten', hdeclaration, hsignature]

end Edit

namespace Run

/-- The edits that a patch with the chosen edits of a run accepts. -/
def acceptedEdits (options : Options) (run : Run) : List Edit :=
  run.resolution.pending.entries.flatMap fun entry =>
    Patch.acceptedIn run.workspace options entry.1 entry.2

/-- The members that a patch with the chosen edits of a run inserts. -/
def insertedMembers (options : Options) (run : Run) : List InsertedMember :=
  (run.acceptedEdits options).filterMap (Edit.inserted? run.workspace)

/-- No member is written into a declaration twice in the same way. -/
theorem nodup_insertedMembers {run : Run} (options : Options)
    (h : run.workspace.HoldsPending run.resolution.pending) :
    ((run.insertedMembers options).map fun member =>
      (member.declaration, member.signature)).Nodup := by
  have hsame {member member' : InsertedMember}
      (heq : (member.declaration, member.signature) = (member'.declaration, member'.signature)) :
      member.declaration = member'.declaration ∧ member.signature = member'.signature :=
    Prod.mk.inj heq
  have hfile {entry : String × List Edit} (hentry : entry ∈ run.resolution.pending.entries)
      {edit : Edit} (hedit : edit ∈ Patch.acceptedIn run.workspace options entry.1 entry.2)
      {member : InsertedMember} (hmember : edit.inserted? run.workspace = some member) :
      (run.workspace.node member.declaration).file = entry.1 := by
    rw [← Edit.writtenNode_of_inserted? hmember]
    exact (h.edit_held entry.1 entry.2 hentry edit
      ((Patch.acceptedAfter_sublist _ _ _).subset hedit)).2
  rw [List.Nodup, List.pairwise_map, insertedMembers, List.pairwise_filterMap, acceptedEdits,
    List.pairwise_flatMap]
  constructor
  · intro entry _
    refine (Patch.acceptedIn_pairwise entry.2).imp fun hne member hmember member' hmember' heq => ?_
    obtain ⟨hdeclaration, hsignature⟩ := hsame heq
    exact hne (Edit.resolve_eq_of_inserted? options _ hmember hmember' hdeclaration hsignature)
  · have hfiles := List.pairwise_map.1 run.resolution.pending.nodup
    refine hfiles.imp_of_mem fun hentry hentry' hne edit hedit other hother member hmember member'
      hmember' heq => hne ?_
    rw [← hfile hentry hedit hmember, ← hfile hentry' hother hmember', (hsame heq).1]

end Run

/-! ## The workspaces of a session -/

namespace Workspace

variable {snapshot : Snapshot} {α β : Type}

/-- From a workspace that shows what is described, an action leads to another one. -/
def Depicts (snapshot : Snapshot) (x : Action α) : Prop :=
  ∀ ws, Depicted snapshot ws → Depicted snapshot (after x ws)

theorem Quietly.depicts {x : Action α} (h : Quietly snapshot x) : Depicts snapshot x :=
  fun ws hd => Quietens.depicted (h ws) hd

theorem Depicts.bind {x : Action α} {f : α → Action β} (hx : Depicts snapshot x)
    (hf : ∀ a, Depicts snapshot (f a)) : Depicts snapshot (x >>= f) :=
  Preserves.bind hx hf

end Workspace

namespace Engine

variable {engine : Engine} {ws ws' : Workspace}

theorem classifyDiagnostic_depicts (engine : Engine) (diagnostic : Diagnostic) :
    Depicts engine.snapshot (engine.classifyDiagnostic diagnostic) := by
  unfold classifyDiagnostic
  cases hpair : engine.snapshot.locate? diagnostic.file diagnostic.start with
  | none => exact (Quietly.pure _).depicts
  | some pair =>
    have hmark : Depicts engine.snapshot (modifyGet fun ws =>
        ws.markProcessed pair.source.file pair.source.start.toNat : Action Bool) :=
      fun ws hd => markProcessed_depicted hd _ _
    refine (ensureFile_quietly _ _).depicts.bind fun _ => hmark.bind fun fresh => ?_
    split_ifs
    · exact (classify_quietly (Strict.mem_of_locate? hpair) _).depicts
    · exact (Quietly.pure _).depicts

/-- What holds of every workspace of an engine holds after a diagnostic has been classified. -/
theorem Coherent.classifyDiagnostic (h : engine.Coherent ws) (diagnostic : Diagnostic) :
    engine.Coherent (after (engine.classifyDiagnostic diagnostic) ws) :=
  h.evolves (classifyDiagnostic_runs h.toConsistent diagnostic).evolves_after
    (classifyDiagnostic_depicts engine diagnostic ws h.depicted)

theorem Coherent.of_classified (h : engine.Coherent ws) {diagnostic : Diagnostic}
    {classification : Classification}
    (hrun : engine.classifyDiagnostic diagnostic ws = .ok classification ws') :
    engine.Coherent ws' ∧ Extends ws ws' := by
  have hafter := h.classifyDiagnostic diagnostic
  rw [after, hrun] at hafter
  exact ⟨hafter, ((classifyDiagnostic_runs h.toConsistent diagnostic).of_ok hrun).1.extends⟩

end Engine

namespace Run

variable {m : Type → Type} [Monad m] [LawfulMonad m] {engine : Engine} {run next last : Run}
  {diagnostic : Diagnostic} {diagnostics : List Diagnostic} {contribution : Contribution}
  {contributions : List Contribution}

/-- What classification keeps holds along a run. -/
theorem handleAll_preserves {P : Workspace → Prop}
    (hP : ∀ diagnostic, Preserves P (engine.classifyDiagnostic diagnostic))
    (presenter : Presenter m) (diagnostics : List Diagnostic) (h : P run.workspace) :
    Yields (handleAll engine presenter diagnostics run) fun result => P result.1.workspace := by
  induction diagnostics generalizing run with
  | nil => exact .pure h
  | cons diagnostic rest ih =>
    unfold handleAll
    split_ifs
    · exact .pure h
    · refine (handle_workspace presenter diagnostic run).bind fun result hresult => ?_
      have hnext : P result.1.workspace := hresult ▸ hP diagnostic run.workspace h
      obtain ⟨next, failure⟩ := result
      cases failure with
      | some failure => exact .pure hnext
      | none => exact ih hnext

/-- What holds of every workspace of an engine holds along a run, and the workspace grows. -/
theorem Logs.coherent (h : Logs engine diagnostics run contributions last)
    (hrun : engine.Coherent run.workspace) :
    engine.Coherent last.workspace ∧ Extends run.workspace last.workspace := by
  induction h with
  | nil run => exact ⟨hrun, .refl _⟩
  | cons _ first _ ih =>
    obtain ⟨classification, hclassified⟩ := first.workspace_eq
    obtain ⟨hnext, hextends⟩ := hrun.of_classified hclassified
    obtain ⟨hlast, hrest⟩ := ih hnext
    exact ⟨hlast, hextends.trans hrest⟩

/-- What is chosen for a problem inserts members of different names. -/
theorem Handles.nodup_insertedNames (h : Handles engine diagnostic run contribution next)
    (hrun : engine.Consistent run.workspace) (hsnapshot : engine.snapshot.SameTexts)
    {ws : Workspace} (hextends : Extends next.workspace ws) (hd : Depicted engine.snapshot ws) :
    (Edit.insertedNames ws (contribution.pushes.map Prod.snd)).Nodup := by
  cases h with
  | duplicate classified => exact List.nodup_nil
  | unsupported classified => exact List.nodup_nil
  | presented classified settled =>
    cases settled with
    | advised unoffered => exact List.nodup_nil
    | skipped offered => exact List.nodup_nil
    | quit offered => exact List.nodup_nil
    | selected found =>
      have hnodup := Engine.nodup_insertedNames hrun classified hsnapshot hextends hd
        (List.mem_of_getElem? found)
      simpa [Candidate.pushes, Function.comp_def] using hnodup

theorem Logs.nodup_insertedNames (h : Logs engine diagnostics run contributions last)
    (hrun : engine.Coherent run.workspace) (hsnapshot : engine.snapshot.SameTexts) :
    ∀ contribution ∈ contributions,
      (Edit.insertedNames last.workspace (contribution.pushes.map Prod.snd)).Nodup := by
  induction h with
  | nil run => simp
  | cons _ first rest ih =>
    obtain ⟨classification, hclassified⟩ := first.workspace_eq
    obtain ⟨hnext, -⟩ := hrun.of_classified hclassified
    obtain ⟨hlast, hextends⟩ := rest.coherent hnext
    exact List.forall_mem_cons.2 ⟨first.nodup_insertedNames hrun.toConsistent hsnapshot hextends
      hlast.depicted, ih hnext⟩

end Run

namespace Session

variable {σ : Type} {session : Session} {presenter : Presenter (StateM σ)}
  {diagnostics : List Diagnostic} {state : σ} {report : Report}

/-- What holds of a new workspace and is kept by classification holds of every session. -/
theorem Reached.preserves {P : Engine → Workspace → Prop} (h : session.Reached)
    (hempty : ∀ engine, P engine ∅)
    (hstep : ∀ engine diagnostic, Preserves (P engine) (engine.classifyDiagnostic diagnostic)) :
    P session.engine session.workspace := by
  induction h with
  | new snapshot store options => exact hempty _
  | @run session σ _ presenter diagnostics state ih =>
    have hstart : P session.engine (Run.start session.workspace).workspace := ih
    rw [run_session]
    exact (Run.handleAll_preserves (hstep _) presenter diagnostics hstart).value state

theorem Reached.coherent (h : session.Reached) : session.engine.Coherent session.workspace :=
  h.preserves Engine.coherent_empty fun _ diagnostic _ hcoherent =>
    hcoherent.classifyDiagnostic diagnostic

/-- No member is written twice in the same way. In a run with a report, the accepted edits are those
whose changes are applied, and no two of them insert a member with the same signature into the same
declaration. If the snapshot gives every range one text, then what is chosen for one problem inserts
members of different names, so that members of one name come of different problems. -/
theorem accepted_members_differ (h : session.Reached)
    (hrun : ((session.run presenter diagnostics).run state).1.1 = .ok report) :
    ∃ handled rest contributions last outcome, diagnostics = handled ++ rest ∧
      session.handled presenter diagnostics state = (last, none) ∧
      Run.Logs session.engine handled (.start session.workspace) contributions last ∧
      last.resolution.pending = .ofPushes (contributions.flatMap Contribution.pushes) ∧
      Patch.apply last.workspace session.engine.options last.resolution.pending = .ok outcome ∧
      report = last.report outcome ∧
      (∀ file edits, (Patch.acceptedIn last.workspace session.engine.options file edits).map
          (fun edit => (Patch.resolve last.workspace session.engine.options edit
            ((last.workspace.fileText? file).getD "").toList).change?) =
        (Patch.selectIn last.workspace session.engine.options file edits).accepted.map some) ∧
      ((last.insertedMembers session.engine.options).map fun member =>
        (member.declaration, member.signature)).Nodup ∧
      (session.engine.snapshot.SameTexts → ∀ contribution ∈ contributions,
        (Edit.insertedNames last.workspace (contribution.pushes.map Prod.snd)).Nodup) := by
  obtain ⟨last, outcome, hhandled, happly, rfl⟩ := exists_handled hrun
  obtain ⟨handled, rest, contributions, hsplit, hlogs, -⟩ := logs_of_handled hhandled
  have hlast := (handled_spec h.sound presenter diagnostics state).1
  rw [hhandled] at hlast
  exact ⟨handled, rest, contributions, last, outcome, hsplit, hhandled, hlogs,
    hlogs.books.pending_eq, happly, rfl, Patch.map_acceptedIn _ _,
    Run.nodup_insertedMembers _ hlast.pending_held, hlogs.nodup_insertedNames h.coherent⟩

/-- A run that handled its diagnostics has a report if the files with chosen edits are loaded. -/
theorem exists_report {last : Run} (h : session.handled presenter diagnostics state = (last, none))
    (hloaded : ∀ file ∈ last.resolution.pending.keys, (last.workspace.fileText? file).isSome) :
    ∃ report, ((session.run presenter diagnostics).run state).1.1 = .ok report ∧
      ∀ file ∈ last.resolution.pending.keys, report.files.get? file =
        Patch.newText? last.workspace session.engine.options file
          (last.resolution.pending.of file) := by
  obtain ⟨outcome, happly, -, hfiles⟩ := Patch.apply_eq_ok last.workspace session.engine.options
    last.resolution.pending hloaded
  refine ⟨last.report outcome, ?_, fun file hfile => ?_⟩
  · rw [run_value, h]
    change (Patch.apply _ _ _).map _ = _
    rw [happly]
    rfl
  · exact (hfiles file).trans (if_pos hfile)

/-- A cat is assigned to a variable that holds a dog, and the sound of a cat is asked of the dog,
once as a number and once as a string. -/
def catForDog : Session :=
  let dog (start : UInt32) : SourceNode :=
    ⟨"a.ts", start, start + 3, "dog", "Dog", "Identifier", false, none, none⟩
  let meow (start : UInt32) (typeText : String) : SourceNode :=
    ⟨"a.ts", start, start + 4, "meow", typeText, "Identifier", false, some ⟨"meow", "Dog", none⟩,
      none⟩
  new
    { diagnostics := []
      locations :=
        [⟨⟨"a.ts", 6, 9, "cat", "Cat", "Identifier", false, none, none⟩, dog 0, none⟩,
          ⟨meow 15 "number", dog 11, none⟩, ⟨meow 25 "string", dog 21, none⟩]
      shapes := .ofList
        [("Cat", .ofList [("meow", ⟨"string", false⟩), ("purr", ⟨"string", false⟩)])]
      declarations := [⟨"Dog", "dog.ts", 0, 31, [⟨"age", 16, 19, 22, 28, "number", true⟩], []⟩]
      layers := [] }
    (.ofTable (.ofList [("a.ts", "dog = cat; dog.meow; dog.meow;"),
      ("dog.ts", "interface Dog \x7b age?: number; \x7d")])) .default

/-- The assignment and both accesses. -/
def catDiagnostics : List Diagnostic :=
  [⟨2322, "a.ts", 6, 3, ""⟩, ⟨2339, "a.ts", 15, 4, ""⟩, ⟨2339, "a.ts", 25, 4, ""⟩]

/-- The run over the diagnostics that takes the first candidate of every problem. -/
def catRun : Run :=
  (catForDog.handled takeFirst catDiagnostics ()).1

theorem handled_catForDog : catForDog.handled takeFirst catDiagnostics () = (catRun, none) := by
  have hnone : (catForDog.handled takeFirst catDiagnostics ()).2 = none := by decide +kernel
  rw [catRun, ← hnone]

theorem loaded_catRun :
    ∀ file ∈ catRun.resolution.pending.keys, (catRun.workspace.fileText? file).isSome := by
  decide +kernel

theorem accepted_members_differ_catForDog :
    catForDog.Reached ∧ catForDog.engine.snapshot.SameTexts ∧
      ∃ report handled rest contributions,
        ((catForDog.run takeFirst catDiagnostics).run ()).1.1 = .ok report ∧
        (catRun.insertedMembers catForDog.engine.options).map InsertedMember.signature =
          ["meow?: string", "purr?: string", "meow?: number"] ∧
        ((catRun.insertedMembers catForDog.engine.options).map fun member =>
          (member.declaration, member.signature)).Nodup ∧
        catDiagnostics = handled ++ rest ∧
        Run.Logs catForDog.engine handled (.start catForDog.workspace) contributions catRun ∧
        ∀ contribution ∈ contributions,
          (Edit.insertedNames catRun.workspace (contribution.pushes.map Prod.snd)).Nodup := by
  have hreached : catForDog.Reached := .new _ _ _
  have htexts : catForDog.engine.snapshot.SameTexts := by decide +kernel
  have hsignatures : (catRun.insertedMembers catForDog.engine.options).map
      InsertedMember.signature = ["meow?: string", "purr?: string", "meow?: number"] := by
    decide +kernel
  obtain ⟨report, hrun, -⟩ := exists_report handled_catForDog loaded_catRun
  obtain ⟨taken, rest, contributions, last, _, hsplit, hlast, hlogs, -, -, -, -, hnodup, hnames⟩ :=
    accepted_members_differ hreached hrun
  rw [handled_catForDog] at hlast
  obtain ⟨rfl, -⟩ := Prod.mk.inj hlast
  exact ⟨hreached, htexts, report, taken, rest, contributions, hrun, hsignatures, hnodup, hsplit,
    hlogs, hnames htexts⟩

/-- Names alone are not enough: the cat and the first access both insert `meow`. -/
theorem accepted_members_share_name :
    (∀ declaration ∈ catForDog.engine.snapshot.declarations,
        (declaration.members.map MemberDeclaration.name).Nodup) ∧
      ∃ report, ((catForDog.run takeFirst catDiagnostics).run ()).1.1 = .ok report ∧
        report.files.get? "dog.ts" = some
          "interface Dog \x7b age?: number; meow?: number; meow?: string; purr?: string; \x7d" ∧
        ¬((catRun.insertedMembers catForDog.engine.options).map fun member =>
          (member.declaration, member.name)).Nodup := by
  have hloaded : catRun.workspace.fileText? "dog.ts" =
      some "interface Dog \x7b age?: number; \x7d" := by
    decide +kernel
  have haccepted : (Patch.selectIn catRun.workspace catForDog.engine.options "dog.ts"
      (catRun.resolution.pending.of "dog.ts")).accepted = [.insertion 29 " meow?: string;",
        .insertion 29 " purr?: string;", .insertion 29 " meow?: number;"] := by
    decide +kernel
  have horder : TextChange.inOrder [.insertion 29 " meow?: string;",
      .insertion 29 " purr?: string;", .insertion 29 " meow?: number;"] =
        [.insertion 29 " meow?: number;", .insertion 29 " meow?: string;",
          .insertion 29 " purr?: string;"] :=
    ((TextChange.inOrder_perm _).trans (by decide)).eq_of_pairwise
      (fun a b _ _ => TextChange.atMost_antisymm a b) (TextChange.inOrder_sorted _) (by decide)
  have hfile : "dog.ts" ∈ catRun.resolution.pending.keys := by decide +kernel
  obtain ⟨report, hrun, hfiles⟩ := exists_report handled_catForDog loaded_catRun
  refine ⟨by decide, report, hrun, ?_, by decide +kernel⟩
  rw [hfiles "dog.ts" hfile, Patch.newText?, hloaded, Option.bind_some, haccepted,
    TextChange.applyAll?, ← TextChange.inOrder, horder]
  decide +kernel

end Session

end TypeMend
