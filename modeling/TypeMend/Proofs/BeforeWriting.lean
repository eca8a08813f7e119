import TypeMend.Command.Run
import TypeMend.Proofs.DiscoveryOrder
import TypeMend.Proofs.Repeats

/-!
# Before the command writes

The command in a world of files and a console has two parts. The first ends with the session: it
reads the configuration, the snapshot and the source files, and talks to the user. Nothing it does
changes a file, whatever the user answers and however it ends. It does not depend on whether the run
is a dry one. If it comes to a report, then each file of the report is one of the snapshot, and what
was read from it differs from what the report has for it.
-/
namespace TypeMend

/-- An error of writing. -/
def CommandError.isWrite : CommandError → Bool
  | writeFile .. => true
  | writeReport .. => true
  | _ => false

namespace Command

variable {α β γ : Type} {view : World → γ}

/-! ## Programs of the command in a world -/

/-- What a program gives in a world, and the world after it. -/
def perform (program : ExceptT CommandError (StateM World) α) (world : World) :
    Except CommandError α × World :=
  program.run.run world

theorem perform_lift (x : StateM World α) (world : World) :
    perform (liftM x) world = (.ok (x.run world).1, (x.run world).2) :=
  rfl

theorem perform_bind (x : ExceptT CommandError (StateM World) α)
    (f : α → ExceptT CommandError (StateM World) β) (world : World) :
    perform (x >>= f) world =
      match perform x world with
      | (.ok a, after) => perform (f a) after
      | (.error error, after) => (.error error, after) := by
  change (StateT.run (ExceptT.run x >>= ExceptT.bindCont f) world) = _
  rw [StateT.run_bind]
  unfold perform
  generalize StateT.run (ExceptT.run x) world = result
  obtain ⟨value, after⟩ := result
  cases value <;> rfl

theorem exists_of_perform_bind {x : ExceptT CommandError (StateM World) α}
    {f : α → ExceptT CommandError (StateM World) β} {world after : World} {b : β}
    (h : perform (x >>= f) world = (.ok b, after)) :
    ∃ a middle, perform x world = (.ok a, middle) ∧ perform (f a) middle = (.ok b, after) := by
  rw [perform_bind] at h
  cases hx : perform x world with
  | mk value middle =>
    cases value with
    | error error => simp [hx] at h
    | ok a => exact ⟨a, middle, rfl, by simpa [hx] using h⟩

/-! ## Programs that change no file -/

/-- A program that leaves a view of the world as it is. -/
def Keeps (view : World → γ) (x : StateM World α) : Prop :=
  ∀ world, view (x.run world).2 = view world

theorem Keeps.pure (a : α) : Keeps view (pure a) := fun _ => rfl

theorem Keeps.bind {x : StateM World α} {f : α → StateM World β} (hx : Keeps view x)
    (hf : ∀ a, Keeps view (f a)) : Keeps view (x >>= f) := by
  intro world
  rw [StateT.run_bind]
  exact (hf _ _).trans (hx world)

/-- A program that leaves a view of the world as it is, and never fails in writing. -/
def Peeks (view : World → γ) (x : ExceptT CommandError (StateM World) α) : Prop :=
  ∀ world, view (perform x world).2 = view world ∧
    ∀ error, (perform x world).1 = .error error → error.isWrite = false

theorem Peeks.pure (a : α) : Peeks view (pure a) := fun _ => ⟨rfl, fun _ h => by cases h⟩

theorem Peeks.throw {error : CommandError} (h : error.isWrite = false) :
    Peeks view (throw error : ExceptT CommandError (StateM World) α) := by
  refine fun _ => ⟨rfl, fun other hother => ?_⟩
  cases hother
  exact h

theorem Peeks.lift {x : StateM World α} (h : Keeps view x) :
    Peeks view (liftM x : ExceptT CommandError (StateM World) α) :=
  fun world => ⟨h world, fun _ hother => by cases hother⟩

theorem Peeks.bind {x : ExceptT CommandError (StateM World) α}
    {f : α → ExceptT CommandError (StateM World) β} (hx : Peeks view x)
    (hf : ∀ a, Peeks view (f a)) : Peeks view (x >>= f) := by
  intro world
  obtain ⟨hview, herror⟩ := hx world
  rw [perform_bind]
  generalize perform x world = result at hview herror
  obtain ⟨value, after⟩ := result
  cases value with
  | error error => exact ⟨hview, fun other hother => by cases hother; exact herror error rfl⟩
  | ok a =>
    obtain ⟨hnext, hnextError⟩ := hf a after
    exact ⟨hnext.trans hview, hnextError⟩

/-! ## The parts of the command -/

/-- The first part of the command: everything up to the end of the session. -/
def prepare (args : Arguments) (color : Bool) :
    ExceptT CommandError (StateM World) (Config × Report × Workspace) := do
  let config ← loadConfig World.host args
  let snapshot ← loadSnapshot World.host args
  let sources ← (readSources World.host (projectRoot args) snapshot.fileNames : StateM World _)
  let settings := config.resolve args
  let session := Session.new snapshot (storeOf sources) settings.options
  let (result, session) ←
    (session.run (World.host.presenter ⟨color⟩ settings.autoSelect) snapshot.diagnostics :
      StateM World _)
  match result with
  | .error failure => throw (.session failure)
  | .ok report => return (config, report, session.workspace)

/-- The second part of the command, in which it writes. -/
def conclude (args : Arguments) (color : Bool) (config : Config) (report : Report)
    (ws : Workspace) : ExceptT CommandError (StateM World) Report := do
  let dryRun := (config.resolve args).dryRun
  writeResults World.host ⟨color⟩ (projectRoot args) dryRun ws report.files.entries
  writeReport World.host args report
  (World.host.print ((⟨color⟩ : Renderer).summary report dryRun ++ "\n") : StateM World Unit)
  return report

theorem run_eq (args : Arguments) (color : Bool) :
    run World.host args color = prepare args color >>= fun (config, report, ws) =>
      conclude args color config report ws := by
  simp only [run, prepare, bind_assoc]
  refine bind_congr fun config => bind_congr fun snapshot => bind_congr fun sources =>
    bind_congr fun result => ?_
  obtain ⟨value, session⟩ := result
  cases value with
  | error failure => rfl
  | ok report => simp [conclude]

theorem prepare_dryRun (args : Arguments) (color dryRun : Bool) :
    prepare { args with dryRun := dryRun } color = prepare args color :=
  rfl

def configIn (args : Arguments) (world : World) : Except CommandError Config :=
  (perform (loadConfig World.host args) world).1

def snapshotIn (args : Arguments) (world : World) : Except CommandError Snapshot :=
  (perform (loadSnapshot World.host args) world).1

theorem keeps_configPath (args : Arguments) : Keeps view (configPath World.host args) := by
  intro world
  unfold configPath
  cases args.config <;> rfl

theorem peeks_loadConfig (args : Arguments) : Peeks view (loadConfig World.host args) := by
  refine .bind (.lift (keeps_configPath args)) fun found => ?_
  cases found with
  | none => exact .pure _
  | some path =>
    refine .bind (.lift fun _ => rfl) fun content => ?_
    cases content with
    | error fault => exact .throw rfl
    | ok text =>
      dsimp only
      cases Config.parse text with
      | error fault => exact .throw rfl
      | ok config => exact .pure _

theorem peeks_loadSnapshot (args : Arguments) : Peeks view (loadSnapshot World.host args) := by
  refine .bind (.lift fun _ => rfl) fun content => ?_
  cases content with
  | error fault => exact .throw rfl
  | ok text =>
    dsimp only
    cases Snapshot.parse text with
    | error error => exact .throw rfl
    | ok snapshot => exact .pure _

theorem keeps_readSources (root : String) (files : List String) :
    Keeps view (readSources World.host root files) := by
  induction files with
  | nil => exact .pure _
  | cons file rest ih => exact .bind (fun _ => rfl) fun content => .bind ih fun sources => .pure _

/-- What has been read is what was in the files. -/
theorem get?_readSources {root : String} {files : List String} {world : World} {file : String}
    {content : Except FileFault String}
    (h : ((readSources World.host root files).run world).1.get? file = some content) :
    file ∈ files ∧ content = world.tree.read (Path.join root file) := by
  induction files with
  | nil => cases h
  | cons other rest ih =>
    have hsources : ((readSources World.host root (other :: rest)).run world).1 =
        ((readSources World.host root rest).run world).1.insert other
          (world.tree.read (Path.join root other)) := rfl
    rw [hsources, Table.get?_insert] at h
    split_ifs at h with hsame
    · cases h
      exact ⟨hsame ▸ List.mem_cons_self, by rw [hsame]⟩
    · obtain ⟨hmem, hread⟩ := ih h
      exact ⟨List.mem_cons_of_mem _ hmem, hread⟩

/-! ## The session changes no file -/

/-- A presenter that leaves the files as they are. -/
def KeepsTree (presenter : Presenter (StateM World)) : Prop :=
  ∀ view, Keeps World.tree (presenter.choose view) ∧ Keeps World.tree (presenter.advise view)

theorem keepsTree_presenter (renderer : Renderer) (autoSelect : AutoSelect) :
    KeepsTree (World.host.presenter renderer autoSelect) := by
  intro view
  cases autoSelect with
  | none => exact ⟨fun _ => rfl, fun _ => rfl⟩
  | first => exact ⟨fun _ => rfl, fun _ => rfl⟩

variable {presenter : Presenter (StateM World)}

theorem keeps_present (h : KeepsTree presenter) (ws : Workspace) (problem : Problem)
    (candidates : List Candidate) (suggestions : List Suggestion) (resolution : Resolution) :
    Keeps World.tree (resolution.present presenter ws problem candidates suggestions) := by
  unfold Resolution.present
  split_ifs
  · exact .pure _
  · exact .bind (h _).2 fun _ => .pure _
  · exact .bind (h _).1 fun _ => .pure _

theorem keeps_handle (h : KeepsTree presenter) (engine : Engine) (diagnostic : Diagnostic)
    (run : TypeMend.Run) : Keeps World.tree (run.handle engine presenter diagnostic) := by
  unfold Run.handle
  split
  · exact .pure _
  · exact .pure _
  · exact .pure _
  · exact .bind (keeps_present h _ _ _ _ _) fun _ => .pure _

theorem keeps_handleAll (h : KeepsTree presenter) (engine : Engine)
    (diagnostics : List Diagnostic) (run : TypeMend.Run) :
    Keeps World.tree (Run.handleAll engine presenter diagnostics run) := by
  induction diagnostics generalizing run with
  | nil => exact .pure _
  | cons diagnostic rest ih =>
    unfold Run.handleAll
    split_ifs
    · exact .pure _
    · refine .bind (keeps_handle h engine diagnostic run) fun result => ?_
      cases result.2 with
      | some failure => exact .pure _
      | none => exact ih result.1

theorem keeps_session (h : KeepsTree presenter) (session : Session)
    (diagnostics : List Diagnostic) : Keeps World.tree (session.run presenter diagnostics) := by
  refine .bind (keeps_handleAll h _ _ _) fun result => ?_
  dsimp only
  cases result.2 with
  | some failure => exact .pure _
  | none => exact .pure _

/-- Nothing is written until the session has ended. -/
theorem peeks_prepare (args : Arguments) (color : Bool) :
    Peeks World.tree (prepare args color) := by
  refine .bind (peeks_loadConfig args) fun config => .bind (peeks_loadSnapshot args)
    fun snapshot => .bind (.lift (keeps_readSources _ _)) fun sources =>
      .bind (.lift (keeps_session (keepsTree_presenter _ _) _ _)) fun result => ?_
  dsimp only
  cases result.1 with
  | error failure => exact .throw rfl
  | ok report => exact .pure _

/-- A file of the report was loaded with another text. -/
theorem loaded_of_report {session : Session} {σ : Type} {asked : Presenter (StateM σ)}
    {diagnostics : List Diagnostic} {state : σ} {report : Report}
    (hrun : ((session.run asked diagnostics).run state).1.1 = .ok report)
    (hsound : Workspace.Sound session.engine.setting.outside session.workspace)
    (hread : Workspace.ReadFrom session.engine.store session.workspace)
    {file text : String} (hfile : report.files.get? file = some text) :
    ∃ before, session.engine.store file = .ok before ∧ text ≠ before := by
  obtain ⟨last, outcome, hhandled, happly, rfl⟩ := Session.exists_handled hrun
  have hlast : (session.handled asked diagnostics state).1.workspace = last.workspace := by
    rw [hhandled]
  have hevolves := (Run.attemptAll_opens asked diagnostics (.start session.workspace) hsound
    state).evolves
  have hlastRead : Workspace.ReadFrom session.engine.store last.workspace :=
    hlast ▸ hevolves.readFrom hread
  have hnew : Patch.newText? last.workspace session.engine.options file
      (last.resolution.pending.of file) = some text := by
    have hfiles := (Patch.apply_spec happly).2.2 file
    rw [show outcome.files.get? file = some text from hfile] at hfiles
    split_ifs at hfiles
    exact hfiles.symm
  obtain ⟨before, hbefore, hpatched⟩ := Option.bind_eq_some_iff.1 hnew
  obtain ⟨patched, -, hdiffers⟩ := Option.bind_eq_some_iff.1 hpatched
  split_ifs at hdiffers with hsame
  cases hdiffers
  exact ⟨before, hlastRead file before hbefore, hsame⟩

/-- What the first part leads to: the files of the report are source files of the snapshot, and
what was read from them differs from what the report has. -/
theorem prepare_eq_ok {args : Arguments} {color : Bool} {world after : World} {config : Config}
    {report : Report} {ws : Workspace}
    (h : perform (prepare args color) world = (.ok (config, report, ws), after)) :
    configIn args world = .ok config ∧ ∃ snapshot, snapshotIn args world = .ok snapshot ∧
      ∀ file text, report.files.get? file = some text → file ∈ snapshot.fileNames ∧
        ∃ before, world.tree.read (Path.join (projectRoot args) file) = .ok before ∧
          text ≠ before := by
  obtain ⟨config, first, hconfig, h⟩ := exists_of_perform_bind h
  obtain ⟨snapshot, second, hsnapshot, h⟩ := exists_of_perform_bind h
  obtain ⟨sources, third, hsources, h⟩ := exists_of_perform_bind h
  obtain ⟨⟨value, session⟩, fourth, hsession, h⟩ := exists_of_perform_bind h
  obtain rfl : first = world := by
    simpa [hconfig] using ((peeks_loadConfig args : Peeks id _) world).1
  obtain rfl : second = first := by
    simpa [hsnapshot] using ((peeks_loadSnapshot args : Peeks id _) first).1
  obtain rfl : third = second := by
    simpa [hsources] using ((Peeks.lift (keeps_readSources (projectRoot args) snapshot.fileNames) :
      Peeks id _) second).1
  cases value with
  | error failure => cases h
  | ok report =>
    cases h
    refine ⟨by rw [configIn, hconfig], snapshot, by rw [snapshotIn, hsnapshot], ?_⟩
    intro file text hfile
    have hrun := congrArg Prod.fst hsession
    rw [perform_lift] at hrun
    obtain ⟨before, hstore, hdiffers⟩ := loaded_of_report (congrArg Prod.fst (Except.ok.inj hrun))
      (Workspace.sound_empty _) (Engine.coherent_empty _).readFrom hfile
    have hread : sources.get? file = some (.ok before) := by
      have hstored : (sources.get? file).getD (.error .notFound) = .ok before := hstore
      cases hget : sources.get? file with
      | none => simp [hget] at hstored
      | some content => simpa [hget] using hstored
    obtain rfl : ((readSources World.host (projectRoot args) snapshot.fileNames).run third).1 =
        sources := Except.ok.inj (congrArg Prod.fst hsources)
    obtain ⟨hmem, hcontent⟩ := get?_readSources hread
    exact ⟨hmem, before, hcontent.symm, hdiffers⟩

end Command

end TypeMend
