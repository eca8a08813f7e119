import TypeMend.Proofs.Operations

/-!
# Files beside each other

Handling one more diagnostic may load a further file and note a further place. `Beside` says that
the files of one workspace are ahead of those of another by just that: by files that the store has
and by noted places that are listed.
-/
namespace TypeMend

open Workspace

/-- Where a node begins. -/
abbrev Place := String × Nat

namespace Workspace

variable {store : Store} {extra : List Place} {files files' : Table String FileBuffer}

/-- The workspace with other files. -/
def withFiles (ws : Workspace) (files : Table String FileBuffer) : Workspace :=
  { ws with files := files }

@[simp] theorem withFiles_files (ws : Workspace) (files : Table String FileBuffer) :
    (ws.withFiles files).files = files := rfl

@[simp] theorem withFiles_withFiles (ws : Workspace) (files files' : Table String FileBuffer) :
    (ws.withFiles files).withFiles files' = ws.withFiles files' := rfl

/-! ## Files beside each other -/

/-- What two workspaces know of a file, where the first one is ahead by the places that are
listed. -/
inductive BesideAt (store : Store) (extra : List Place) (file : String) :
    Option FileBuffer → Option FileBuffer → Prop
  | neither (none_extra : ∀ offset, (file, offset) ∉ extra) : BesideAt store extra file none none
  | both {buffer buffer' : FileBuffer} (read : store file = .ok buffer.text)
      (text_eq : buffer.text = buffer'.text)
      (noted : ∀ offset, offset ∈ buffer.processed ↔
        offset ∈ buffer'.processed ∨ (file, offset) ∈ extra) :
      BesideAt store extra file (some buffer) (some buffer')
  | ahead {buffer : FileBuffer} (read : store file = .ok buffer.text)
      (some_extra : ∃ offset, (file, offset) ∈ extra)
      (noted : ∀ offset, offset ∈ buffer.processed ↔ (file, offset) ∈ extra) :
      BesideAt store extra file (some buffer) none

/-- The files of two workspaces, of which the first is ahead by the places that are listed. -/
def Beside (store : Store) (extra : List Place) (files files' : Table String FileBuffer) : Prop :=
  ∀ file, BesideAt store extra file (files.get? file) (files'.get? file)

/-- Files stay beside each other when only one of them changes. -/
theorem Beside.update (h : Beside store extra files files') (file : String)
    {next next' : Table String FileBuffer}
    (hnext : ∀ other, other ≠ file → next.get? other = files.get? other)
    (hnext' : ∀ other, other ≠ file → next'.get? other = files'.get? other)
    (hfile : BesideAt store extra file (next.get? file) (next'.get? file)) :
    Beside store extra next next' := by
  intro other
  by_cases hother : other = file
  · exact hother ▸ hfile
  · rw [hnext other hother, hnext' other hother]
    exact h other

theorem Beside.fileText?_eq (h : Beside store extra files files') {file : String}
    (hextra : (∃ buffer, files'.get? file = some buffer) ∨ ∀ offset, (file, offset) ∉ extra) :
    (files.get? file).map FileBuffer.text = (files'.get? file).map FileBuffer.text := by
  have hfile := h file
  cases hget : files.get? file with
  | none =>
    rw [hget] at hfile
    cases hget' : files'.get? file with
    | none => rfl
    | some buffer' => rw [hget'] at hfile; cases hfile
  | some buffer =>
    rw [hget] at hfile
    cases hget' : files'.get? file with
    | none =>
      rw [hget'] at hfile
      cases hfile with
      | ahead _ some_extra _ =>
        obtain ⟨offset, hoffset⟩ := some_extra
        rcases hextra with ⟨other, hother⟩ | hnone
        · rw [hget'] at hother
          cases hother
        · exact absurd hoffset (hnone offset)
    | some buffer' =>
      rw [hget'] at hfile
      cases hfile with
      | both _ text_eq _ => simp [text_eq]

/-! ## Loading files and noting places -/

theorem ensureFile_of_loaded {ws : Workspace} {file : String} {buffer : FileBuffer}
    (h : ws.files.get? file = some buffer) : ensureFile store file ws = .ok () ws := by
  simp [ensureFile, Table.contains, h]

theorem ensureFile_of_unloaded {ws : Workspace} {file : String} (h : ws.files.get? file = none) :
    ensureFile store file ws =
      match store file with
      | .ok text => .ok () (ws.withFiles (ws.files.insert file ⟨text, []⟩))
      | .error fault => .error (.unreadable file fault) ws := by
  simp only [ensureFile, Table.contains, h, Option.isSome_none, Bool.false_eq_true, if_false]
  rfl

/-- A place is noted. -/
def Noted (files : Table String FileBuffer) (place : Place) : Prop :=
  ∃ buffer, files.get? place.1 = some buffer ∧ place.2 ∈ buffer.processed

/-- What noting a place in a loaded file does. -/
theorem markProcessed_of_loaded {ws : Workspace} {file : String} {buffer : FileBuffer}
    (h : ws.files.get? file = some buffer) (offset : Nat) :
    ws.markProcessed file offset =
      if offset ∈ buffer.processed then (false, ws)
      else (true, ws.withFiles
        (ws.files.insert file { buffer with processed := offset :: buffer.processed })) := by
  unfold markProcessed isProcessed
  rw [h]
  simp only [List.contains_iff_mem]
  rfl

theorem noted_markProcessed {ws : Workspace} {file : String} (h : ws.Loaded file) (offset : Nat) :
    Noted (ws.markProcessed file offset).2.files (file, offset) := by
  obtain ⟨text, htext⟩ := h
  obtain ⟨buffer, hbuffer, -⟩ := Option.map_eq_some_iff.1 htext
  rw [markProcessed_of_loaded hbuffer]
  split_ifs with hmem
  · exact ⟨buffer, hbuffer, hmem⟩
  · exact ⟨_, ws.files.get?_insert_self file _, List.mem_cons_self⟩

/-- A place that is noted stays noted. -/
theorem Step.noted {s : Setting} {ws ws' : Workspace} {place : Place} (h : Step s ws ws')
    (hnoted : Noted ws.files place) : Noted ws'.files place := by
  obtain ⟨buffer, hbuffer, hmem⟩ := hnoted
  cases h with
  | @load file text fresh _ =>
    refine ⟨buffer, ?_, hmem⟩
    have hother : place.1 ≠ file := by
      rintro rfl
      rw [fresh] at hbuffer
      cases hbuffer
    rw [Table.get?_insert_of_ne _ hother, hbuffer]
  | mark file offset =>
    unfold markProcessed
    split_ifs
    · exact ⟨buffer, hbuffer, hmem⟩
    · cases hget : ws.files.get? file with
      | none => exact ⟨buffer, hbuffer, hmem⟩
      | some other =>
        dsimp only
        by_cases hfile : place.1 = file
        · rw [hfile, hget] at hbuffer
          cases hbuffer
          exact ⟨_, by rw [hfile, Table.get?_insert_self], List.mem_cons_of_mem _ hmem⟩
        · exact ⟨buffer, by rw [Table.get?_insert_of_ne _ hfile, hbuffer], hmem⟩
  | intern _ _ => exact ⟨buffer, hbuffer, hmem⟩
  | detach _ => exact ⟨buffer, hbuffer, hmem⟩
  | miss _ => exact ⟨buffer, hbuffer, hmem⟩
  | declare _ _ _ => exact ⟨buffer, hbuffer, hmem⟩
  | link _ _ _ => exact ⟨buffer, hbuffer, hmem⟩

theorem Evolves.noted {s : Setting} {ws ws' : Workspace} {place : Place} (h : Evolves s ws ws')
    (hnoted : Noted ws.files place) : Noted ws'.files place := by
  induction h with
  | refl => exact hnoted
  | tail _ hstep ih => exact hstep.noted ih

theorem loaded_of_ensureFile {file : String} {ws ws₁ : Workspace}
    (h : ensureFile store file ws = .ok () ws₁) : ∃ buffer, ws₁.files.get? file = some buffer := by
  unfold ensureFile at h
  split_ifs at h with hloaded
  · cases h
    exact Option.isSome_iff_exists.1 hloaded
  · split at h
    · cases h
      exact ⟨_, Table.get?_insert_self _ _ _⟩
    · cases h

theorem BesideAt.read {file : String} {buffer : FileBuffer} {old' : Option FileBuffer}
    (h : BesideAt store extra file (some buffer) old') : store file = .ok buffer.text := by
  cases h with
  | both read _ _ => exact read
  | ahead read _ _ => exact read

/-- One side notes a further place of a file. -/
theorem BesideAt.note {file : String} {offset : Nat} {old old' : Option FileBuffer}
    (h : BesideAt store extra file old old') {buffer : FileBuffer}
    (hread : store file = .ok buffer.text)
    (hnoted : ∀ other, other ∈ buffer.processed ↔
      other = offset ∨ ∃ before, old = some before ∧ other ∈ before.processed) :
    BesideAt store ((file, offset) :: extra) file (some buffer) old' := by
  cases h with
  | neither none_extra =>
    exact .ahead hread ⟨offset, List.mem_cons_self⟩ fun other => by simp [hnoted, none_extra other]
  | both read text_eq noted =>
    rw [read] at hread
    refine .both (by rwa [← Except.ok.inj hread]) ((Except.ok.inj hread).symm.trans text_eq)
      fun other => ?_
    simp only [hnoted, Option.some.injEq, exists_eq_left', noted, List.mem_cons, Prod.mk.injEq,
      true_and]
    tauto
  | ahead _ _ noted =>
    refine .ahead hread ⟨offset, List.mem_cons_self⟩ fun other => ?_
    simp [hnoted, noted]

/-- What is known of the other files does not hang on a further place. -/
theorem BesideAt.other {file : String} {place : Place} {old old' : Option FileBuffer}
    (h : BesideAt store extra file old old') (hfile : file ≠ place.1) :
    BesideAt store (place :: extra) file old old' := by
  have hmem (offset : Nat) : (file, offset) ∈ place :: extra ↔ (file, offset) ∈ extra := by
    rw [List.mem_cons, or_iff_right]
    rintro rfl
    exact hfile rfl
  cases h with
  | neither none_extra => exact .neither fun offset => by rw [hmem]; exact none_extra offset
  | both read text_eq noted =>
    exact .both read text_eq fun offset => by rw [hmem]; exact noted offset
  | ahead read some_extra noted =>
    obtain ⟨offset, hoffset⟩ := some_extra
    refine .ahead read ⟨offset, (hmem offset).2 hoffset⟩ fun offset => ?_
    rw [hmem]
    exact noted offset

/-- One side loads a file that the store has and notes a place in it, and is further ahead then. -/
theorem note_ahead {ws : Workspace} {file text : String} (hread : store file = .ok text)
    (offset : Nat) (h : Beside store extra ws.files files') :
    ∃ fresh files₁,
      (ensureFile store file >>= fun _ => modifyGet fun ws => ws.markProcessed file offset) ws =
          .ok fresh (ws.withFiles files₁) ∧
        Beside store ((file, offset) :: extra) files₁ files' := by
  have hgrow {files₁ : Table String FileBuffer} {buffer : FileBuffer}
      (hothers : ∀ other, other ≠ file → files₁.get? other = ws.files.get? other)
      (hfile : files₁.get? file = some buffer) (htext : store file = .ok buffer.text)
      (hnoted : ∀ other, other ∈ buffer.processed ↔ other = offset ∨
        ∃ before, ws.files.get? file = some before ∧ other ∈ before.processed) :
      Beside store ((file, offset) :: extra) files₁ files' := by
    intro other
    by_cases hother : other = file
    · subst hother
      rw [hfile]
      exact (h other).note htext hnoted
    · rw [hothers other hother]
      exact (h other).other hother
  simp only [Bind.bind, EStateM.bind]
  cases hget : ws.files.get? file with
  | some buffer =>
    have hfile := h file
    rw [hget] at hfile
    have htext := hfile.read
    rw [ensureFile_of_loaded hget]
    simp only [modifyGet_apply, markProcessed_of_loaded hget]
    split_ifs with hmem
    · refine ⟨false, ws.files, rfl, hgrow (fun _ _ => rfl) hget htext fun other => ?_⟩
      rw [hget]
      simp only [Option.some.injEq, exists_eq_left']
      exact ⟨.inr, fun hor => hor.elim (fun heq => heq ▸ hmem) id⟩
    · refine ⟨true, _, rfl, hgrow (fun other hother => Table.get?_insert_of_ne _ hother _)
        (Table.get?_insert_self _ _ _) htext fun other => ?_⟩
      simp [hget]
  | none =>
    have hloaded : (ws.withFiles (ws.files.insert file ⟨text, []⟩)).files.get? file =
        some ⟨text, []⟩ := Table.get?_insert_self _ _ _
    rw [ensureFile_of_unloaded hget, hread]
    simp only [modifyGet_apply, markProcessed_of_loaded hloaded, List.not_mem_nil, if_false]
    refine ⟨true, _, rfl, hgrow (fun other hother => ?_) (Table.get?_insert_self _ _ _) hread
      fun other => ?_⟩
    · rw [Table.get?_insert_of_ne _ hother, withFiles_files, Table.get?_insert_of_ne _ hother]
    · simp [hget]

/-- A place that both sides have noted is noted again to no effect. -/
theorem note_again {ws : Workspace} {file : String} {offset : Nat}
    (h : Beside store extra ws.files files') (hnoted : Noted files' (file, offset)) :
    (ensureFile store file >>= fun _ => modifyGet fun ws => ws.markProcessed file offset) ws =
      .ok false ws := by
  obtain ⟨buffer', hget', hmem'⟩ := hnoted
  have hfile := h file
  rw [hget'] at hfile
  cases hget : ws.files.get? file with
  | none => rw [hget] at hfile; cases hfile
  | some buffer =>
    rw [hget] at hfile
    cases hfile with
    | both _ _ noted =>
      simp only [Bind.bind, EStateM.bind, ensureFile_of_loaded hget, modifyGet_apply,
        markProcessed_of_loaded hget, if_pos ((noted offset).2 (.inl hmem'))]

end Workspace

end TypeMend
