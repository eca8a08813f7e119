import TypeMend.Command.FileTree
import TypeMend.Proofs.Lookup

/-!
# Writing to a tree of files

Writing a text changes what is at one place, the one that the path leads to, and nothing else. Where
paths lead depends on the places of the files only, and replacing a file keeps those. Texts that are
written over files one after the other therefore end up at the places to which their paths lead in
the first tree.
-/
namespace TypeMend.FileTree

variable {tree tree' : FileTree} {names : List String}

/-- The place that a path leads to: that of a file, or one where a file can be put. -/
def place? (tree : FileTree) (path : String) : Option (List String) :=
  match tree.target path with
  | .file names _ => some names
  | .vacant names => some names
  | .directory => none
  | .fault _ => none

/-- Two paths lead to one place. -/
def SamePlace (tree : FileTree) (path other : String) : Prop :=
  ∃ names, tree.place? path = some names ∧ tree.place? other = some names

/-- The tree with a text at some place. -/
def put (tree : FileTree) (names : List String) (text : String) : FileTree :=
  ⟨tree.files.insert names (.text text)⟩

theorem get?_put (tree : FileTree) (names here : List String) (text : String) :
    (tree.put names text).files.get? here =
      if here = names then some (.text text) else tree.files.get? here :=
  Table.get?_insert _ _ _ _

theorem keys_put (h : names ∈ tree.files.keys) (text : String) :
    (tree.put names text).files.keys = tree.files.keys := by
  rw [put, Table.insert, Table.keys_alter, if_pos h]

/-! ## Where paths lead -/

/-- What a path leads to, whatever is in the file. -/
def Target.outline : Target → Target
  | .file names _ => .file names .binary
  | .directory => .directory
  | .vacant names => .vacant names
  | .fault found => .fault found

theorem follow_outline (h : tree'.files.keys = tree.files.keys) (here parts : List String) :
    (tree'.follow here parts).outline = (tree.follow here parts).outline := by
  have hdirectories (names : List String) : tree'.isDirectory names = tree.isDirectory names := by
    rw [isDirectory, isDirectory, h]
  induction parts generalizing here with
  | nil => rfl
  | cons part rest ih =>
    unfold follow
    split_ifs with hpoint habove
    · exact ih here
    · exact ih (above here)
    · simp only [hdirectories]
      split_ifs
      · exact ih _
      · have hfiles : (tree'.files.get? (here ++ [part])).isSome =
            (tree.files.get? (here ++ [part])).isSome := by
          rw [Bool.eq_iff_iff, Option.isSome_iff_exists, Option.isSome_iff_exists,
            ← Table.mem_keys_iff, ← Table.mem_keys_iff, h]
        cases hnew : tree'.files.get? (here ++ [part]) <;>
          cases hold : tree.files.get? (here ++ [part]) <;> cases rest <;>
          simp_all [Target.outline]

theorem target_outline (h : tree'.files.keys = tree.files.keys) (path : String) :
    (tree'.target path).outline = (tree.target path).outline := by
  simp only [target, apply_ite Target.outline, follow_outline h]

theorem place?_eq_outline (tree : FileTree) (path : String) :
    tree.place? path = match (tree.target path).outline with
      | .file names _ => some names
      | .vacant names => some names
      | .directory => none
      | .fault _ => none := by
  rw [place?]
  cases tree.target path <;> rfl

theorem place?_eq (h : tree'.files.keys = tree.files.keys) (path : String) :
    tree'.place? path = tree.place? path := by
  rw [place?_eq_outline, place?_eq_outline, target_outline h]

/-- Whether a text can be written, and if not why, does not depend on what is in the files. -/
theorem write_map_eq (h : tree'.files.keys = tree.files.keys) (path text : String) :
    (tree'.write path text).map (fun _ => ()) = (tree.write path text).map (fun _ => ()) := by
  have houtline := target_outline h path
  unfold write
  generalize tree'.target path = new at houtline ⊢
  generalize tree.target path = old at houtline ⊢
  cases new <;> cases old <;> cases houtline
  · dsimp only
    split_ifs <;> rfl
  · rfl
  · dsimp only
    split_ifs <;> rfl
  · rfl

/-! ## Reading and writing -/

theorem write_eq_ok {path text : String} (h : tree.write path text = .ok tree') :
    ∃ names, tree.place? path = some names ∧ tree' = tree.put names text := by
  unfold write at h
  cases htarget : tree.target path with
  | file here content =>
    simp only [htarget] at h
    split_ifs at h
    cases h
    exact ⟨here, by rw [place?, htarget], rfl⟩
  | vacant here =>
    simp only [htarget] at h
    split_ifs at h
    cases h
    exact ⟨here, by rw [place?, htarget], rfl⟩
  | directory => simp [htarget] at h
  | fault found => simp [htarget] at h

theorem get?_of_follow {here parts : List String} {content : FileContent}
    (h : tree.follow here parts = .file names content) : tree.files.get? names = some content := by
  induction parts generalizing here with
  | nil => cases h
  | cons part rest ih =>
    unfold follow at h
    split_ifs at h
    · exact ih h
    · exact ih h
    · simp only at h
      split_ifs at h
      · exact ih h
      · cases hget : tree.files.get? (here ++ [part]) <;> cases rest <;> simp_all

theorem get?_of_target {path : String} {content : FileContent}
    (h : tree.target path = .file names content) : tree.files.get? names = some content := by
  unfold target at h
  split_ifs at h
  · exact get?_of_follow h
  · exact get?_of_follow h

/-- A file that can be read is at the place of its path. -/
theorem read_eq_ok {path text : String} (h : tree.read path = .ok text) :
    ∃ names, tree.place? path = some names ∧ tree.files.get? names = some (.text text) := by
  unfold read content at h
  cases htarget : tree.target path with
  | file names content =>
    refine ⟨names, by rw [place?, htarget], ?_⟩
    rw [get?_of_target htarget]
    simp only [htarget] at h
    split_ifs at h
    cases content with
    | text found =>
      cases h
      rfl
    | binary => cases h
  | directory => simp [htarget] at h
  | vacant names => simp [htarget] at h
  | fault found => simp [htarget] at h

/-! ## Writing one text after the other -/

/-- Some texts are at the places to which their paths led, and everything else is as it was. -/
structure Written (tree tree' : FileTree) (writes : List (String × String)) : Prop where
  there : ∀ write ∈ writes, ∃ names, tree.place? write.1 = some names ∧
    tree'.files.get? names = some (.text write.2)
  elsewhere : ∀ names, (∀ write ∈ writes, tree.place? write.1 ≠ some names) →
    tree'.files.get? names = tree.files.get? names

theorem Written.nil (tree : FileTree) : Written tree tree [] where
  there := by simp
  elsewhere _ _ := rfl

/-- One more text is written, to a place that none of the others has. -/
theorem Written.snoc {writes : List (String × String)} {path text : String} {last : FileTree}
    (h : Written tree tree' writes) (hplace : tree'.place? path = tree.place? path)
    (hapart : ∀ write ∈ writes, tree.place? write.1 ≠ tree.place? path)
    (hwrite : tree'.write path text = .ok last) :
    Written tree last (writes ++ [(path, text)]) := by
  obtain ⟨names, hnames, rfl⟩ := write_eq_ok hwrite
  rw [hplace] at hnames
  constructor
  · intro write hmem
    rcases List.mem_append.1 hmem with hmem | hmem
    · obtain ⟨here, hhere, htext⟩ := h.there write hmem
      have hne : here ≠ names := by
        rintro rfl
        exact hapart write hmem (hhere.trans hnames.symm)
      exact ⟨here, hhere, by rw [get?_put, if_neg hne, htext]⟩
    · obtain rfl := List.mem_singleton.1 hmem
      exact ⟨names, hnames, by rw [get?_put, if_pos rfl]⟩
  · intro here hnot
    have hne : here ≠ names := by
      rintro rfl
      exact hnot (path, text) (by simp) hnames
    rw [get?_put, if_neg hne]
    exact h.elsewhere here fun write hmem => hnot write (List.mem_append_left _ hmem)

/-- Writes texts one after the other, up to the first that cannot be written. -/
def writeAll (tree : FileTree) :
    List (String × String) → Except (String × FileFault) Unit × FileTree
  | [] => (.ok (), tree)
  | (path, text) :: rest =>
    match tree.write path text with
    | .error fault => (.error (path, fault), tree)
    | .ok tree => tree.writeAll rest

/-- Where the files are decides whether a text can be written, and what the fault is if not. -/
theorem writeAll_singleton_eq (h : tree'.files.keys = tree.files.keys) (path text : String) :
    (tree'.writeAll [(path, text)]).1 = (tree.writeAll [(path, text)]).1 := by
  have hmap := write_map_eq h path text
  simp only [writeAll]
  cases hnew : tree'.write path text <;> cases hold : tree.write path text <;>
    simp_all [Except.map]

/-- A path leads to a file. -/
def LeadsToFile (tree : FileTree) (path : String) : Prop :=
  ∃ names ∈ tree.files.keys, tree.place? path = some names

theorem LeadsToFile.of_keys {path : String} (h : tree.LeadsToFile path)
    (hkeys : tree'.files.keys = tree.files.keys) : tree'.LeadsToFile path := by
  obtain ⟨names, hnames, hplace⟩ := h
  exact ⟨names, hkeys ▸ hnames, by rw [place?_eq hkeys, hplace]⟩

theorem keys_write {path text : String} (h : tree.LeadsToFile path)
    (hwrite : tree.write path text = .ok tree') : tree'.files.keys = tree.files.keys := by
  obtain ⟨names, hnames, hplace⟩ := h
  obtain ⟨here, hhere, rfl⟩ := write_eq_ok hwrite
  rw [hplace] at hhere
  cases hhere
  exact keys_put hnames text

theorem keys_writeAll {writes : List (String × String)}
    (h : ∀ write ∈ writes, tree.LeadsToFile write.1) :
    (tree.writeAll writes).2.files.keys = tree.files.keys := by
  induction writes generalizing tree with
  | nil => rfl
  | cons write rest ih =>
    obtain ⟨path, text⟩ := write
    obtain ⟨hfirst, hrest⟩ := List.forall_mem_cons.1 h
    unfold writeAll
    cases hwrite : tree.write path text with
    | error fault => rfl
    | ok next =>
      have hkeys := keys_write hfirst hwrite
      exact (ih fun other hother => (hrest other hother).of_keys hkeys).trans hkeys

/-- Texts that are written over files whose places differ are all there in the end. -/
theorem Written.writeAll {first : FileTree} {done writes : List (String × String)}
    (h : Written first tree done) (hkeys : tree.files.keys = first.files.keys)
    (hfiles : ∀ write ∈ writes, first.LeadsToFile write.1)
    (hapart : (done ++ writes).Pairwise fun a b => first.place? a.1 ≠ first.place? b.1)
    (hok : (tree.writeAll writes).1 = .ok ()) :
    Written first (tree.writeAll writes).2 (done ++ writes) := by
  induction writes generalizing tree done with
  | nil => simpa [FileTree.writeAll] using h
  | cons write rest ih =>
    obtain ⟨path, text⟩ := write
    obtain ⟨hfirst, hrest⟩ := List.forall_mem_cons.1 hfiles
    unfold FileTree.writeAll at hok ⊢
    cases hwrite : tree.write path text with
    | error fault => simp [hwrite] at hok
    | ok next =>
      simp only [hwrite] at hok ⊢
      have hothers : ∀ other ∈ done, first.place? other.1 ≠ first.place? path := by
        intro other hother
        have hlater := (List.pairwise_append.1 hapart).2.2 other hother
        exact hlater (path, text) List.mem_cons_self
      have hnext : Written first next (done ++ [(path, text)]) :=
        h.snoc (place?_eq hkeys path) hothers hwrite
      have hnextKeys := (keys_write (hfirst.of_keys hkeys) hwrite).trans hkeys
      have hall : done ++ (path, text) :: rest = done ++ [(path, text)] ++ rest := by simp
      rw [hall] at hapart ⊢
      exact ih hnext hnextKeys hrest hapart hok

end TypeMend.FileTree
