import TypeMend.Proofs.BeforeWriting
import TypeMend.Proofs.TreeWrites

/-!
# What the command writes

The second part of the command writes the files of the report, unless the run is a dry one, and the
report itself. The files lead to files that are there, so that writing them moves no place: each
text ends up where its path led before the run, and whether the report can be written is the same
in a dry run and in a real one.
-/
namespace TypeMend.Command

/-! ## Texts and their paths -/

/-- The texts of files with the paths to which they are written. -/
def pathed (root : String) (entries : List (String × String)) : List (String × String) :=
  entries.map fun (file, text) => (Path.join root file, text)

/-- What a run writes of the files of its report. A dry run, which the arguments or the
configuration may ask for, writes none. -/
def fileWrites (args : Arguments) (config : Config) (report : Report) : List (String × String) :=
  if args.dryRun = true ∨ config.dryRun = some true then []
  else pathed (projectRoot args) report.files.entries

/-- The report with the path to which it is written, if there is one. -/
def reportWrite (args : Arguments) (report : Report) : List (String × String) :=
  args.reportJson.toList.map fun path => (path, report.toJson.render)

/-- The outcome of writing texts, with the error that a fault comes to. -/
def inWorld (cause : String → FileFault → CommandError) (console : Console) :
    Except (String × FileFault) Unit × FileTree → Except CommandError Unit × World
  | (.ok (), tree) => (.ok (), ⟨tree, console⟩)
  | (.error (path, fault), tree) => (.error (cause path fault), ⟨tree, console⟩)

theorem perform_write (path text : String) (world : World) :
    perform (liftM (World.host.write path text)) world =
      match world.tree.write path text with
      | .ok tree => (.ok (.ok ()), { world with tree := tree })
      | .error fault => (.ok (.error fault), world) := by
  rw [perform_lift]
  simp only [World.host, StateT.run]
  cases world.tree.write path text <;> rfl

theorem writeResults_dry (renderer : Renderer) (root : String) (ws : Workspace)
    (entries : List (String × String)) (world : World) :
    ∃ console, perform (writeResults World.host renderer root true ws entries) world =
      (.ok (), { world with console := console }) := by
  induction entries generalizing world with
  | nil => exact ⟨world.console, rfl⟩
  | cons entry rest ih =>
    obtain ⟨file, text⟩ := entry
    exact ih _

theorem writeResults_real (renderer : Renderer) (root : String) (ws : Workspace)
    (entries : List (String × String)) (world : World) :
    perform (writeResults World.host renderer root false ws entries) world =
      inWorld .writeFile world.console (world.tree.writeAll (pathed root entries)) := by
  induction entries generalizing world with
  | nil => rfl
  | cons entry rest ih =>
    obtain ⟨file, text⟩ := entry
    unfold writeResults
    simp only [Bool.false_eq_true, if_false, perform_bind, perform_write, pathed,
      List.map_cons, FileTree.writeAll]
    cases hwrite : world.tree.write (Path.join root file) text with
    | error fault => rfl
    | ok tree => exact ih _

theorem perform_writeReport (args : Arguments) (report : Report) (world : World) :
    perform (writeReport World.host args report) world =
      inWorld .writeReport world.console (world.tree.writeAll (reportWrite args report)) := by
  unfold writeReport reportWrite
  cases args.reportJson with
  | none => rfl
  | some path =>
    simp only [perform_bind, perform_write, Option.toList_some, List.map_cons, List.map_nil,
      FileTree.writeAll]
    cases world.tree.write path report.toJson.render <;> rfl

/-! ## The second part -/

variable {args : Arguments} {color : Bool} {config : Config} {report : Report} {ws : Workspace}
  {world : World}

theorem dryRun_resolve (config : Config) (args : Arguments) :
    (config.resolve args).dryRun = true ↔ args.dryRun = true ∨ config.dryRun = some true := by
  cases hdry : config.dryRun <;> simp [Config.resolve, hdry]

theorem exists_writeResults (args : Arguments) (color : Bool) (config : Config) (report : Report)
    (ws : Workspace) (world : World) :
    ∃ console, perform (writeResults World.host ⟨color⟩ (projectRoot args)
        (config.resolve args).dryRun ws report.files.entries) world =
      inWorld .writeFile console (world.tree.writeAll (fileWrites args config report)) := by
  unfold fileWrites
  rw [← if_congr (dryRun_resolve config args) rfl rfl]
  cases (config.resolve args).dryRun with
  | true => exact writeResults_dry ⟨color⟩ (projectRoot args) ws report.files.entries world
  | false => exact ⟨world.console, writeResults_real ⟨color⟩ (projectRoot args) ws _ world⟩

/-- What the command comes to once its files are written and the report is written with some
outcome. -/
def concluded (report : Report) : Except (String × FileFault) Unit → Except CommandError Report
  | .ok () => .ok report
  | .error (path, fault) => .error (.writeReport path fault)

theorem conclude_of_written {tree : FileTree}
    (h : world.tree.writeAll (fileWrites args config report) = (.ok (), tree)) :
    ∃ console, perform (conclude args color config report ws) world =
      (concluded report (tree.writeAll (reportWrite args report)).1,
        ⟨(tree.writeAll (reportWrite args report)).2, console⟩) := by
  obtain ⟨console, hfiles⟩ := exists_writeResults args color config report ws world
  rw [h] at hfiles
  unfold conclude
  simp only [perform_bind, hfiles, inWorld, perform_writeReport]
  generalize tree.writeAll (reportWrite args report) = outcome
  obtain ⟨value, last⟩ := outcome
  cases value with
  | error fault => exact ⟨_, rfl⟩
  | ok _ => exact ⟨_, rfl⟩

theorem conclude_of_fault {path : String} {fault : FileFault} {tree : FileTree}
    (h : world.tree.writeAll (fileWrites args config report) = (.error (path, fault), tree)) :
    (perform (conclude args color config report ws) world).1 =
      .error (.writeFile path fault) := by
  obtain ⟨console, hfiles⟩ := exists_writeResults args color config report ws world
  rw [h] at hfiles
  unfold conclude
  rw [perform_bind, hfiles]
  rfl

/-- Either all files are written, or the command fails because one cannot be. -/
theorem written_or_fault (args : Arguments) (color : Bool) (config : Config) (report : Report)
    (ws : Workspace) (world : World) :
    (∃ tree, world.tree.writeAll (fileWrites args config report) = (.ok (), tree)) ∨
      ∃ path fault, (perform (conclude args color config report ws) world).1 =
        .error (.writeFile path fault) := by
  cases hfiles : world.tree.writeAll (fileWrites args config report) with
  | mk value tree =>
    cases value with
    | ok _ => exact .inl ⟨tree, rfl⟩
    | error fault => exact .inr ⟨fault.1, fault.2, conclude_of_fault hfiles⟩

theorem isWrite_of_conclude {error : CommandError}
    (h : (perform (conclude args color config report ws) world).1 = .error error) :
    error.isWrite = true := by
  obtain ⟨tree, hfiles⟩ | ⟨path, fault, hfault⟩ :=
    written_or_fault args color config report ws world
  · obtain ⟨console, hperform⟩ := conclude_of_written hfiles
    rw [hperform] at h
    cases hreport : (tree.writeAll (reportWrite args report)).1 with
    | ok _ => simp [hreport, concluded] at h
    | error fault =>
      rw [hreport] at h
      cases h
      rfl
  · rw [hfault] at h
    cases h
    rfl

/-! ## Where the texts are in the end -/

section Places

variable {middle : World}

/-- Every file of the report leads to a file that had another text. -/
theorem exists_read_of_report
    (h : perform (prepare args color) world = (.ok (config, report, ws), middle)) :
    ∀ write ∈ pathed (projectRoot args) report.files.entries,
      ∃ before, world.tree.read write.1 = .ok before ∧ write.2 ≠ before := by
  intro write hwrite
  obtain ⟨⟨file, text⟩, hentry, rfl⟩ := List.mem_map.1 hwrite
  obtain ⟨-, snapshot, -, hfiles⟩ := prepare_eq_ok h
  exact (hfiles file text (Table.get?_eq_some_iff.2 hentry)).2

theorem mem_pathed_of_mem_fileWrites {write : String × String}
    (h : write ∈ fileWrites args config report) :
    write ∈ pathed (projectRoot args) report.files.entries := by
  unfold fileWrites at h
  split_ifs at h
  · cases h
  · exact h

theorem leadsToFile_of_report
    (h : perform (prepare args color) world = (.ok (config, report, ws), middle)) :
    ∀ write ∈ pathed (projectRoot args) report.files.entries,
      world.tree.LeadsToFile write.1 := by
  intro write hwrite
  obtain ⟨before, hread, -⟩ := exists_read_of_report h write hwrite
  obtain ⟨names, hplace, hcontent⟩ := FileTree.read_eq_ok hread
  exact ⟨names, Table.mem_keys_iff.2 ⟨_, hcontent⟩, hplace⟩

/-- The paths of the command lead to places of their own: no two files of the snapshot have the same
place, and none has that of the report. -/
structure PathsApart (args : Arguments) (world : World) : Prop where
  files : ∀ snapshot, snapshotIn args world = .ok snapshot → ∀ file ∈ snapshot.fileNames,
    ∀ other ∈ snapshot.fileNames, world.tree.SamePlace (Path.join (projectRoot args) file)
      (Path.join (projectRoot args) other) → file = other
  report : ∀ snapshot, snapshotIn args world = .ok snapshot → ∀ file ∈ snapshot.fileNames,
    ∀ path ∈ args.reportJson, ¬world.tree.SamePlace (Path.join (projectRoot args) file) path

theorem pathed_apart (hapart : PathsApart args world)
    (h : perform (prepare args color) world = (.ok (config, report, ws), middle)) :
    (pathed (projectRoot args) report.files.entries).Pairwise
        (fun a b => world.tree.place? a.1 ≠ world.tree.place? b.1) ∧
      ∀ write ∈ pathed (projectRoot args) report.files.entries, ∀ path ∈ args.reportJson,
        world.tree.place? write.1 ≠ world.tree.place? path := by
  obtain ⟨-, snapshot, hsnapshot, hfiles⟩ := prepare_eq_ok h
  have hnamed {entry} (hentry : entry ∈ report.files.entries) :
      entry.1 ∈ snapshot.fileNames :=
    (hfiles entry.1 entry.2 (Table.get?_eq_some_iff.2 hentry)).1
  have hsame {entry} (hentry : entry ∈ report.files.entries) {other}
      (hplace : world.tree.place? (Path.join (projectRoot args) entry.1) =
        world.tree.place? other) :
      world.tree.SamePlace (Path.join (projectRoot args) entry.1) other := by
    obtain ⟨names, -, hnames⟩ := leadsToFile_of_report h _ (List.mem_map_of_mem hentry)
    exact ⟨names, hnames, hplace ▸ hnames⟩
  constructor
  · have hkeys : report.files.entries.Pairwise fun a b => a.1 ≠ b.1 :=
      List.pairwise_map.1 report.files.nodup
    refine List.pairwise_map.2 (hkeys.imp_of_mem fun {a b} ha hb hne hplace => hne ?_)
    exact hapart.files snapshot hsnapshot a.1 (hnamed ha) b.1 (hnamed hb) (hsame ha hplace)
  · intro write hwrite path hpath hplace
    obtain ⟨entry, hentry, rfl⟩ := List.mem_map.1 hwrite
    exact hapart.report snapshot hsnapshot entry.1 (hnamed hentry) path hpath
      (hsame hentry hplace)

end Places

theorem written_report {first tree : FileTree} {done : List (String × String)}
    (h : first.Written tree done) (hkeys : tree.files.keys = first.files.keys)
    (hapart : ∀ write ∈ done, ∀ path ∈ args.reportJson, first.place? write.1 ≠ first.place? path)
    (hok : (tree.writeAll (reportWrite args report)).1 = .ok ()) :
    first.Written (tree.writeAll (reportWrite args report)).2
      (done ++ reportWrite args report) := by
  unfold reportWrite at hok ⊢
  cases hpath : args.reportJson with
  | none => simpa [FileTree.writeAll] using h
  | some path =>
    simp only [hpath, Option.toList_some, List.map_cons, List.map_nil, FileTree.writeAll]
      at hok ⊢
    cases hwrite : tree.write path report.toJson.render with
    | error fault => simp [hwrite] at hok
    | ok last =>
      exact h.snoc (FileTree.place?_eq hkeys path) (fun write hmem => hapart write hmem path hpath)
        hwrite

/-- What the second part leaves behind, if it succeeds: the texts are where their paths led before
it, and everything else is as it was. -/
theorem written_of_conclude {after : World}
    (hfiles : ∀ write ∈ fileWrites args config report, world.tree.LeadsToFile write.1)
    (hapart : (fileWrites args config report).Pairwise fun a b =>
      world.tree.place? a.1 ≠ world.tree.place? b.1)
    (hreport : ∀ write ∈ fileWrites args config report, ∀ path ∈ args.reportJson,
      world.tree.place? write.1 ≠ world.tree.place? path)
    (h : perform (conclude args color config report ws) world = (.ok report, after)) :
    world.tree.Written after.tree (fileWrites args config report ++ reportWrite args report) := by
  obtain ⟨tree, hall⟩ | ⟨path, fault, hfault⟩ :=
    written_or_fault args color config report ws world
  · have hkeys := FileTree.keys_writeAll hfiles
    have hwritten := (FileTree.Written.nil world.tree).writeAll rfl hfiles hapart
    rw [hall] at hkeys hwritten
    obtain ⟨console, hperform⟩ := conclude_of_written hall
    rw [h] at hperform
    obtain ⟨hvalue, rfl⟩ := Prod.mk.inj hperform
    refine written_report (hwritten rfl) hkeys hreport ?_
    cases houtcome : (tree.writeAll (reportWrite args report)).1 with
    | ok _ => rfl
    | error fault => simp [houtcome, concluded] at hvalue
  · rw [h] at hfault
    cases hfault

/-! ## Dry runs and real runs -/

theorem writeAll_reportWrite_eq {tree tree' : FileTree} (h : tree'.files.keys = tree.files.keys)
    (args : Arguments) (report : Report) :
    (tree'.writeAll (reportWrite args report)).1 = (tree.writeAll (reportWrite args report)).1 := by
  unfold reportWrite
  cases args.reportJson with
  | none => rfl
  | some path => exact FileTree.writeAll_singleton_eq h path _

/-- When its files are written, the command ends as it would if it only wrote the report. -/
theorem conclude_value {tree : FileTree}
    (hfiles : ∀ write ∈ fileWrites args config report, world.tree.LeadsToFile write.1)
    (hall : world.tree.writeAll (fileWrites args config report) = (.ok (), tree)) :
    (perform (conclude args color config report ws) world).1 =
      concluded report (world.tree.writeAll (reportWrite args report)).1 := by
  have hkeys := FileTree.keys_writeAll hfiles
  rw [hall] at hkeys
  obtain ⟨console, hperform⟩ := conclude_of_written hall
  rw [hperform, writeAll_reportWrite_eq hkeys]

/-- The flag for a dry run makes a difference in the second part only. -/
theorem perform_run_dryRun (args : Arguments) (color dryRun : Bool) (world : World) :
    perform (run World.host { args with dryRun := dryRun } color) world =
      match perform (prepare args color) world with
      | (.ok (config, report, ws), middle) =>
        perform (conclude { args with dryRun := dryRun } color config report ws) middle
      | (.error error, after) => (.error error, after) := by
  rw [run_eq, perform_bind, prepare_dryRun]
  generalize perform (prepare args color) world = result
  obtain ⟨value, middle⟩ := result
  cases value with
  | error error => rfl
  | ok prepared => rfl

theorem value_of_dry_eq
    (hno : ∀ path fault, (perform (run World.host { args with dryRun := false } color) world).1 ≠
      .error (.writeFile path fault)) :
    (perform (run World.host { args with dryRun := true } color) world).1 =
      (perform (run World.host { args with dryRun := false } color) world).1 := by
  rw [perform_run_dryRun] at hno
  rw [perform_run_dryRun, perform_run_dryRun]
  have htree := (peeks_prepare args color world).1
  cases hprepare : perform (prepare args color) world with
  | mk value middle =>
    rw [hprepare] at hno htree
    cases value with
    | error error => rfl
    | ok prepared =>
      obtain ⟨config, report, ws⟩ := prepared
      have hfiles : ∀ write ∈ pathed (projectRoot args) report.files.entries,
          middle.tree.LeadsToFile write.1 := by
        rw [show middle.tree = world.tree from htree]
        exact leadsToFile_of_report hprepare
      have hvalue {dryRun : Bool} {tree : FileTree} (hall : middle.tree.writeAll
          (fileWrites { args with dryRun := dryRun } config report) = (.ok (), tree)) :
          (perform (conclude { args with dryRun := dryRun } color config report ws) middle).1 =
            concluded report (middle.tree.writeAll (reportWrite args report)).1 := by
        refine conclude_value (fun write hwrite => ?_) hall
        have hpathed := mem_pathed_of_mem_fileWrites hwrite
        exact hfiles write hpathed
      obtain ⟨tree, hall⟩ | ⟨path, fault, hfault⟩ :=
        written_or_fault { args with dryRun := false } color config report ws middle
      · exact (hvalue rfl).trans (hvalue hall).symm
      · exact absurd hfault (hno path fault)

/-! ## The whole run -/

theorem tree_eq_of_error {error : CommandError} {after : World}
    (h : perform (run World.host args color) world = (.error error, after))
    (herror : error.isWrite = false) : after.tree = world.tree := by
  obtain ⟨htree, -⟩ := peeks_prepare args color world
  rw [run_eq, perform_bind] at h
  cases hprepare : perform (prepare args color) world with
  | mk value middle =>
    rw [hprepare] at h htree
    cases value with
    | error found =>
      cases h
      exact htree
    | ok prepared =>
      have hwrite := isWrite_of_conclude (congrArg Prod.fst h)
      rw [herror] at hwrite
      cases hwrite

/-- A run that succeeds has come through both of its parts. -/
theorem exists_prepared {after : World}
    (h : perform (run World.host args color) world = (.ok report, after)) :
    ∃ config ws middle, perform (prepare args color) world = (.ok (config, report, ws), middle) ∧
      middle.tree = world.tree ∧
      perform (conclude args color config report ws) middle = (.ok report, after) := by
  rw [run_eq] at h
  obtain ⟨⟨config, found, ws⟩, middle, hprepare, hconclude⟩ := exists_of_perform_bind h
  obtain rfl : found = report := by
    obtain ⟨-, first, -, hrest⟩ := exists_of_perform_bind hconclude
    obtain ⟨-, second, -, hrest⟩ := exists_of_perform_bind hrest
    obtain ⟨-, third, -, hrest⟩ := exists_of_perform_bind hrest
    cases hrest
    rfl
  have htree := (peeks_prepare args color world).1
  rw [hprepare] at htree
  exact ⟨config, ws, middle, hprepare, htree, hconclude⟩

/-- What the command writes. If it fails before or in its session, then no file is changed. If it
succeeds, then each file of the report had another text; the report is at its path, if there is one;
in a real run the files of the report have the texts that it gives, in a dry run they are left as
they are; and everything else is as it was. Last, a dry run comes to the same as a real run, if this
can write its files. -/
theorem run_writes_what_it_reports (args : Arguments) (color : Bool) (world : World)
    (hapart : PathsApart args world) :
    (∀ error after, perform (run World.host args color) world = (.error error, after) →
      error.isWrite = false → after.tree = world.tree) ∧
    (∀ report after, perform (run World.host args color) world = (.ok report, after) →
      ∃ config, configIn args world = .ok config ∧
        (∀ write ∈ pathed (projectRoot args) report.files.entries,
          ∃ before, world.tree.read write.1 = .ok before ∧ write.2 ≠ before) ∧
        world.tree.Written after.tree
          (fileWrites args config report ++ reportWrite args report)) ∧
    ((∀ path fault, (perform (run World.host { args with dryRun := false } color) world).1 ≠
        .error (.writeFile path fault)) →
      (perform (run World.host { args with dryRun := true } color) world).1 =
        (perform (run World.host { args with dryRun := false } color) world).1) := by
  refine ⟨fun _ _ => tree_eq_of_error, fun report after h => ?_, value_of_dry_eq⟩
  obtain ⟨config, ws, middle, hprepare, htree, hconclude⟩ := exists_prepared h
  refine ⟨config, (prepare_eq_ok hprepare).1, exists_read_of_report hprepare, ?_⟩
  have hfiles := leadsToFile_of_report hprepare
  obtain ⟨hplaces, hreport⟩ := pathed_apart hapart hprepare
  rw [← htree] at hfiles hplaces hreport ⊢
  refine written_of_conclude
    (fun write hwrite => hfiles write (mem_pathed_of_mem_fileWrites hwrite)) ?_
    (fun write hwrite => hreport write (mem_pathed_of_mem_fileWrites hwrite)) hconclude
  unfold fileWrites
  split_ifs
  · exact .nil
  · exact hplaces

/-- A project in which a number is assigned to a variable that another file declares as a
string. -/
def twoFiles : World where
  tree := ⟨.ofList
    [(["s.json"], .text ("[[[2322,\"b.ts\",4,1]],[[[\"b.ts\",4,5,\"5\",\"number\",\"\"]," ++
        "[\"a.ts\",4,5,\"x\",\"string\",\"\",false,null,[\"a.ts\",7,13,\"string\"]]]]]")),
      (["a.ts"], .text "let x: string;"),
      (["b.ts"], .text "x = 5;")]⟩
  console := .ofText ""

/-- The first candidate is taken without asking, and a report is asked for. -/
def withReport : Arguments :=
  ⟨"s.json", none, none, true, false, some "r.json", none, none, false, true⟩

theorem place?_twoFiles :
    twoFiles.tree.place? (Path.join (projectRoot withReport) "a.ts") = some ["a.ts"] ∧
      twoFiles.tree.place? (Path.join (projectRoot withReport) "b.ts") = some ["b.ts"] ∧
      twoFiles.tree.place? "r.json" = some ["r.json"] := by
  decide +kernel

theorem pathsApart_twoFiles : PathsApart withReport twoFiles := by
  have hnames {snapshot} (h : snapshotIn withReport twoFiles = .ok snapshot) :
      snapshot.fileNames = ["b.ts", "a.ts"] := by
    have hread : (snapshotIn withReport twoFiles).map Snapshot.fileNames =
        .ok ["b.ts", "a.ts"] := by decide +kernel
    rw [h] at hread
    exact Except.ok.inj hread
  obtain ⟨ha, hb, hr⟩ := place?_twoFiles
  constructor
  · intro snapshot hsnapshot file hfile other hother hsame
    rw [hnames hsnapshot] at hfile hother
    obtain ⟨names, hnames, hnames'⟩ := hsame
    simp only [List.mem_cons, List.not_mem_nil, or_false] at hfile hother
    rcases hfile with rfl | rfl <;> rcases hother with rfl | rfl <;> simp_all
  · intro snapshot hsnapshot file hfile path hpath hsame
    rw [hnames hsnapshot] at hfile
    obtain ⟨names, hnames, hnames'⟩ := hsame
    obtain rfl : "r.json" = path := Option.some.inj hpath
    simp only [List.mem_cons, List.not_mem_nil, or_false] at hfile
    rcases hfile with rfl | rfl <;> simp_all

/-- The declaration is widened, the report is written, and the other file stays as it is. A dry run
comes to the same report and writes it, but leaves the declaration as it is. -/
theorem run_writes_what_it_reports_twoFiles :
    PathsApart withReport twoFiles ∧
      ∃ report after, perform (run World.host withReport false) twoFiles = (.ok report, after) ∧
        report.files.entries = [("a.ts", "let x: string | number;")] ∧
        after.tree.files.get? ["a.ts"] = some (.text "let x: string | number;") ∧
        after.tree.files.get? ["b.ts"] = some (.text "x = 5;") ∧
        after.tree.files.get? ["r.json"] = some (.text report.toJson.render) ∧
        ∃ last, perform (run World.host { withReport with dryRun := true } false) twoFiles =
            (.ok report, last) ∧
          last.tree.files.get? ["a.ts"] = some (.text "let x: string;") ∧
          last.tree.files.get? ["r.json"] = some (.text report.toJson.render) := by
  have hentries : (perform (run World.host withReport false) twoFiles).1.map
      (fun report => report.files.entries) = .ok [("a.ts", "let x: string | number;")] := by
    decide +kernel
  refine ⟨pathsApart_twoFiles, ?_⟩
  obtain ⟨-, hwrites, hdry⟩ :=
    run_writes_what_it_reports withReport false twoFiles pathsApart_twoFiles
  cases hrun : perform (run World.host withReport false) twoFiles with
  | mk value after =>
    cases value with
    | error error =>
      rw [hrun] at hentries
      cases hentries
    | ok report =>
      rw [hrun] at hentries
      have hfiles : report.files.entries = [("a.ts", "let x: string | number;")] :=
        Except.ok.inj hentries
      obtain ⟨config, hconfig, -, hthere, helsewhere⟩ := hwrites report after hrun
      have hempty : configIn withReport twoFiles = .ok ∅ := by decide +kernel
      rw [hempty] at hconfig
      cases hconfig
      have hlist : fileWrites withReport ∅ report ++ reportWrite withReport report =
            [(Path.join (projectRoot withReport) "a.ts", "let x: string | number;"),
              ("r.json", report.toJson.render)] := by
        rw [fileWrites, hfiles]
        rfl
      rw [hlist] at hthere helsewhere
      obtain ⟨ha, hb, hr⟩ := place?_twoFiles
      have htext : after.tree.files.get? ["a.ts"] = some (.text "let x: string | number;") := by
        simpa [ha] using hthere _ List.mem_cons_self
      have hreport : after.tree.files.get? ["r.json"] = some (.text report.toJson.render) := by
        simpa [hr] using hthere _ (List.mem_cons_of_mem _ List.mem_cons_self)
      have hother : after.tree.files.get? ["b.ts"] = some (.text "x = 5;") :=
        (helsewhere ["b.ts"] (by simp [ha, hr])).trans (by decide +kernel)
      have hreal : perform (run World.host { withReport with dryRun := false } false) twoFiles =
          (.ok report, after) := hrun
      have hvalue := hdry fun path fault h => by
        rw [hreal] at h
        cases h
      rw [hreal] at hvalue
      obtain ⟨-, hwritten, -⟩ := run_writes_what_it_reports { withReport with dryRun := true } false
        twoFiles ⟨pathsApart_twoFiles.1, pathsApart_twoFiles.2⟩
      cases hlast : perform (run World.host { withReport with dryRun := true } false) twoFiles with
      | mk found last =>
        rw [hlast] at hvalue
        obtain rfl : found = .ok report := hvalue
        obtain ⟨config, -, -, hthere, helsewhere⟩ := hwritten report last hlast
        have honly : fileWrites { withReport with dryRun := true } config report ++
            reportWrite withReport report = [("r.json", report.toJson.render)] := by
          rw [fileWrites, if_pos (.inl rfl)]
          rfl
        rw [show reportWrite { withReport with dryRun := true } report =
          reportWrite withReport report from rfl, honly] at hthere helsewhere
        refine ⟨report, after, rfl, hfiles, htext, hother, hreport, last, rfl, ?_, ?_⟩
        · exact (helsewhere ["a.ts"] (by simp [hr])).trans (by decide +kernel)
        · simpa [hr] using hthere _ List.mem_cons_self

end TypeMend.Command
