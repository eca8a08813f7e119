import TypeMend.Proofs.Calls
import TypeMend.Proofs.Descriptions

/-!
# First visits

A workspace is told which places have been taken up, and it says of each whether it hears of it for
the first time. Notes of a loaded file are kept with the file and notes of other files apart from
it. Loading a file starts with no notes and does not take over those that were kept apart. So a
place counts as noted exactly if a call noted it and its file has not been loaded since. Where files
are loaded before places in them are noted, or never, this is the same as having been noted at all.
-/
namespace TypeMend.Workspace

variable {ws ws' ws'' : Workspace} {file : String} {offset : Nat}

/-! ## Noting a place -/

theorem loaded_iff_exists_buffer : ws.Loaded file ↔ ∃ buffer, ws.files.get? file = some buffer := by
  rw [loaded_iff, Table.contains, Option.isSome_iff_exists]

theorem markProcessed_fst (ws : Workspace) (file : String) (offset : Nat) :
    (ws.markProcessed file offset).1 = !ws.isProcessed file offset := by
  unfold markProcessed
  split_ifs with hnoted
  · simp [hnoted]
  · cases ws.files.get? file <;> simp [hnoted]

theorem isProcessed_markProcessed (ws : Workspace) (file other : String) (offset position : Nat) :
    (ws.markProcessed file offset).2.isProcessed other position = true ↔
      (other = file ∧ position = offset) ∨ ws.isProcessed other position = true := by
  unfold markProcessed
  split_ifs with hnoted
  · refine ⟨.inr, ?_⟩
    rintro (⟨rfl, rfl⟩ | hold)
    · exact hnoted
    · exact hold
  · cases hfile : ws.files.get? file with
    | some buffer =>
      dsimp only
      by_cases hother : other = file
      · subst hother
        simp [isProcessed, hfile]
      · simp [isProcessed, Table.get?_insert_of_ne _ hother, hother]
    | none =>
      cases hbuffer : ws.files.get? other with
      | some buffer =>
        have hother : other ≠ file := by
          rintro rfl
          rw [hfile] at hbuffer
          cases hbuffer
        simp [isProcessed, hbuffer, hother]
      | none => simp [isProcessed, hbuffer]

theorem loaded_markProcessed (ws : Workspace) (file other : String) (offset : Nat) :
    (ws.markProcessed file offset).2.Loaded other ↔ ws.Loaded other := by
  obtain ⟨files, unbuffered, heq, htexts⟩ := markProcessed_eq ws file offset
  rw [heq]
  exact exists_congr fun text => by rw [← htexts other]; rfl

/-! ## Everything else -/

/-- No place is noted, and no file changes but that it may be loaded. -/
structure LoadsOnly (ws ws' : Workspace) : Prop where
  unbuffered_eq : ws'.unbuffered = ws.unbuffered
  file_eq : ∀ file, ws'.files.get? file = ws.files.get? file ∨
    ws.files.get? file = none ∧ ∃ text, ws'.files.get? file = some ⟨text, []⟩

namespace LoadsOnly

theorem refl (ws : Workspace) : LoadsOnly ws ws :=
  ⟨rfl, fun _ => .inl rfl⟩

theorem trans (h : LoadsOnly ws ws') (h' : LoadsOnly ws' ws'') : LoadsOnly ws ws'' where
  unbuffered_eq := h'.unbuffered_eq.trans h.unbuffered_eq
  file_eq file := by
    rcases h.file_eq file with hsame | ⟨hnone, text, hloaded⟩
    · rw [← hsame]
      exact h'.file_eq file
    · rcases h'.file_eq file with hsame | ⟨hnone', -⟩
      · exact .inr ⟨hnone, text, hsame.trans hloaded⟩
      · rw [hloaded] at hnone'
        cases hnone'

theorem insert (hfresh : ws.files.get? file = none) (text : String) :
    LoadsOnly ws { ws with files := ws.files.insert file ⟨text, []⟩ } := by
  refine ⟨rfl, fun other => ?_⟩
  by_cases hother : other = file
  · subst hother
    exact .inr ⟨hfresh, text, Table.get?_insert_self _ _ _⟩
  · exact .inl (Table.get?_insert_of_ne _ hother _)

theorem loaded (h : LoadsOnly ws ws') (hloaded : ws.Loaded file) : ws'.Loaded file := by
  rw [loaded_iff_exists_buffer] at hloaded ⊢
  obtain ⟨buffer, hbuffer⟩ := hloaded
  rcases h.file_eq file with hsame | ⟨hnone, -⟩
  · exact ⟨buffer, hsame.trans hbuffer⟩
  · rw [hnone] at hbuffer
    cases hbuffer

/-- A file that is loaded comes without notes, and those of other files stay. -/
theorem isProcessed_iff (h : LoadsOnly ws ws') (offset : Nat) :
    ws'.isProcessed file offset = true ↔
      ws.isProcessed file offset = true ∧ (ws.Loaded file ↔ ws'.Loaded file) := by
  simp only [loaded_iff_exists_buffer]
  rcases h.file_eq file with hsame | ⟨hnone, text, hloaded⟩
  · simp [isProcessed, hsame, h.unbuffered_eq]
  · simp [isProcessed, hnone, hloaded]

end LoadsOnly

theorem Quiet.loadsOnly {snapshot : Snapshot} (h : Quiet snapshot ws ws') : LoadsOnly ws ws' := by
  cases h with
  | load fresh text => exact .insert fresh text
  | declare declarations declarationIndex unresolved => exact ⟨rfl, fun _ => .inl rfl⟩
  | detach node => exact ⟨rfl, fun _ => .inl rfl⟩
  | intern described known =>
    unfold Workspace.intern
    split <;> exact ⟨rfl, fun _ => .inl rfl⟩

theorem Quietens.loadsOnly {snapshot : Snapshot} (h : Quietens snapshot ws ws') :
    LoadsOnly ws ws' := by
  induction h with
  | refl => exact .refl ws
  | tail _ hstep ih => exact ih.trans hstep.loadsOnly

theorem intern_loadsOnly (ws : Workspace) (node : Node) : LoadsOnly ws (ws.intern node).2 := by
  unfold intern
  split <;> exact ⟨rfl, fun _ => .inl rfl⟩

theorem internSource_loadsOnly (ws : Workspace) (node : SourceNode) :
    LoadsOnly ws (ws.internSource node).2 := by
  unfold internSource
  cases node.writtenType with
  | none => exact intern_loadsOnly ws _
  | some span => exact (intern_loadsOnly ws _).trans (intern_loadsOnly _ _)

/-- Every call but one that notes a place. -/
theorem Call.perform_loadsOnly (ws : Workspace) {call : Call}
    (hcall : ∀ file offset, call ≠ .markProcessed file offset) :
    LoadsOnly ws (call.perform ws).2 := by
  cases call with
  | loadFile file text =>
    simp only [perform, Workspace.loadFile]
    cases hold : ws.files.get? file with
    | some buffer => rw [Table.insertNew_of_some hold]; exact .refl ws
    | none => rw [Table.insertNew_of_none hold]; exact .insert hold text
  | ensureFile store file =>
    rw [perform, Action.reply_snd]
    have hquiet : Quietly ∅ (Workspace.ensureFile store file) := ensureFile_quietly store file
    exact (hquiet ws).loadsOnly
  | markProcessed file offset => exact absurd rfl (hcall file offset)
  | intern node => exact intern_loadsOnly ws node
  | addDetached node => exact ⟨rfl, fun _ => .inl rfl⟩
  | internSource node => exact internSource_loadsOnly ws node
  | internSpan span kindName => exact intern_loadsOnly ws _
  | register declaration =>
    -- As in a session whose snapshot has this declaration only.
    have hquiet : Quietens ⟨[], [], ∅, [declaration], []⟩ ws (ws.register declaration).2 :=
      register_quietens (List.mem_singleton.2 rfl) ws
    exact hquiet.loadsOnly
  | resolve snapshot store typeText =>
    rw [perform, Action.reply_snd]
    exact (resolve_quietly store typeText ws).loadsOnly
  | resolveMember snapshot store id key =>
    rw [perform, Action.reply_snd]
    exact (resolveMember_quietly store id key ws).loadsOnly

/-- What a call leaves noted: the place that it notes, and what was noted before unless the file is
loaded by the call. -/
theorem Call.isProcessed_perform_iff (ws : Workspace) (call : Call) (file : String)
    (offset : Nat) :
    (call.perform ws).2.isProcessed file offset = true ↔
      call = .markProcessed file offset ∨ ws.isProcessed file offset = true ∧
        (ws.Loaded file ↔ (call.perform ws).2.Loaded file) := by
  by_cases hcall : ∃ other position, call = .markProcessed other position
  · obtain ⟨other, position, rfl⟩ := hcall
    simp only [perform, isProcessed_markProcessed, loaded_markProcessed, iff_self, and_true,
      markProcessed.injEq, @eq_comm _ other, @eq_comm _ position]
  · have hother : call ≠ .markProcessed file offset := fun heq => hcall ⟨file, offset, heq⟩
    have hloads := perform_loadsOnly ws fun other position heq => hcall ⟨other, position, heq⟩
    rw [hloads.isProcessed_iff, or_iff_right hother]

theorem Call.loaded_perform (call : Call) (hloaded : ws.Loaded file) :
    (call.perform ws).2.Loaded file := by
  by_cases hcall : ∃ other position, call = .markProcessed other position
  · obtain ⟨other, position, rfl⟩ := hcall
    exact (loaded_markProcessed ws other file position).2 hloaded
  · exact (perform_loadsOnly ws fun other position heq =>
      hcall ⟨other, position, heq⟩).loaded hloaded

/-! ## Calls one after the other -/

/-- The workspace after calls one after the other, whatever they are. -/
def afterCalls (calls : List Call) : Workspace :=
  calls.foldl (fun ws call => (call.perform ws).2) ∅

theorem afterCalls_snoc (calls : List Call) (call : Call) :
    afterCalls (calls ++ [call]) = (call.perform (afterCalls calls)).2 := by
  simp [afterCalls]

theorem loaded_of_isPrefix {before calls : List Call} (h : before <+: calls)
    (hloaded : (afterCalls before).Loaded file) : (afterCalls calls).Loaded file := by
  obtain ⟨later, rfl⟩ := h
  induction later using List.reverseRecOn with
  | nil => simpa using hloaded
  | append_singleton later call ih =>
    rw [← List.append_assoc, afterCalls_snoc]
    exact call.loaded_perform ih

/-- A call noted a place, and the file of the place has not been loaded since. -/
def NotedSinceLoad (calls : List Call) (file : String) (offset : Nat) : Prop :=
  ∃ before, before ++ [.markProcessed file offset] <+: calls ∧
    ((afterCalls before).Loaded file ↔ (afterCalls calls).Loaded file)

theorem notedSinceLoad_snoc_iff (calls : List Call) (call : Call) (file : String) (offset : Nat) :
    NotedSinceLoad (calls ++ [call]) file offset ↔
      call = .markProcessed file offset ∨ NotedSinceLoad calls file offset ∧
        ((afterCalls calls).Loaded file ↔ (afterCalls (calls ++ [call])).Loaded file) := by
  constructor
  · rintro ⟨before, hbefore, hsame⟩
    rcases List.prefix_concat_iff.1 hbefore with heq | hearlier
    · exact .inl (List.singleton_inj.1 (List.append_inj_right' heq.symm rfl))
    · have hfirst : (afterCalls before).Loaded file → (afterCalls calls).Loaded file :=
        loaded_of_isPrefix ((List.prefix_append _ _).trans hearlier)
      have hlast : (afterCalls calls).Loaded file →
          (afterCalls (calls ++ [call])).Loaded file :=
        loaded_of_isPrefix (List.prefix_append _ _)
      exact .inr ⟨⟨before, hearlier, hfirst, fun h => hsame.2 (hlast h)⟩, hlast,
        fun h => hfirst (hsame.2 h)⟩
  · rintro (rfl | ⟨⟨before, hbefore, hsame⟩, hlast⟩)
    · refine ⟨calls, List.prefix_rfl, ?_⟩
      rw [afterCalls_snoc, Call.perform, loaded_markProcessed]
    · exact ⟨before, hbefore.trans (List.prefix_append _ _), hsame.trans hlast⟩

/-- What counts as noted after any calls. -/
theorem isProcessed_afterCalls_iff (calls : List Call) (file : String) (offset : Nat) :
    (afterCalls calls).isProcessed file offset = true ↔ NotedSinceLoad calls file offset := by
  induction calls using List.reverseRecOn with
  | nil =>
    have hempty : (afterCalls []).isProcessed file offset = false := rfl
    exact iff_of_false (by simp [hempty]) fun ⟨before, hbefore, _⟩ => by simp at hbefore
  | append_singleton calls call ih =>
    rw [notedSinceLoad_snoc_iff, ← ih, afterCalls_snoc]
    exact call.isProcessed_perform_iff _ file offset

/-- Whatever was called before, noting a place is taken for the first time exactly if no call noted
it since its file was loaded, and it counts as noted exactly if one did. If its file was not loaded
after a call noted it, then any earlier call that noted it counts. -/
theorem markProcessed_first_since_load (calls : List Call) (file : String) (offset : Nat) :
    (((afterCalls calls).markProcessed file offset).1 = true ↔
        ¬NotedSinceLoad calls file offset) ∧
      ((afterCalls calls).isProcessed file offset = true ↔ NotedSinceLoad calls file offset) ∧
      ((∀ before, before ++ [.markProcessed file offset] <+: calls →
          ((afterCalls before).Loaded file ↔ (afterCalls calls).Loaded file)) →
        (((afterCalls calls).markProcessed file offset).1 = true ↔
            .markProcessed file offset ∉ calls) ∧
          ((afterCalls calls).isProcessed file offset = true ↔
            .markProcessed file offset ∈ calls)) := by
  have hnoted := isProcessed_afterCalls_iff calls file offset
  have hfresh : ((afterCalls calls).markProcessed file offset).1 = true ↔
      ¬(afterCalls calls).isProcessed file offset = true := by
    rw [markProcessed_fst]
    simp
  refine ⟨hfresh.trans (not_congr hnoted), hnoted, fun hsame => ?_⟩
  have hmem : NotedSinceLoad calls file offset ↔ .markProcessed file offset ∈ calls := by
    constructor
    · rintro ⟨before, hbefore, -⟩
      exact hbefore.subset (by simp)
    · intro hmem
      obtain ⟨before, later, rfl⟩ := List.append_of_mem hmem
      have hbefore : before ++ [.markProcessed file offset] <+:
          before ++ .markProcessed file offset :: later := ⟨later, by simp⟩
      exact ⟨before, hbefore, hsame before hbefore⟩
  exact ⟨hfresh.trans (not_congr (hnoted.trans hmem)), hnoted.trans hmem⟩

/-- A place that was noted before its file was loaded is taken for the first time again. -/
theorem markProcessed_first_again :
    ∃ calls : List Call, .markProcessed "a.ts" 4 ∈ calls ∧
      ((afterCalls calls).markProcessed "a.ts" 4).1 = true ∧
      (afterCalls calls).isProcessed "a.ts" 4 = false :=
  ⟨[.markProcessed "a.ts" 4, .loadFile "a.ts" "let x = 1;"], by simp, by decide +kernel,
    by decide +kernel⟩

end TypeMend.Workspace
