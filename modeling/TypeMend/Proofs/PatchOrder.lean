import Mathlib.Data.List.Pairwise
import Mathlib.Data.List.Perm.Basic
import TypeMend.Proofs.PatchPolicy

/-!
# The order of registration does not matter

As long as no two registered edits overlap, a patch is the same whatever the order in which they
were registered: the texts agree byte for byte, and the same edits are reported. What an edit
comes to does not depend on the others, and without overlaps the accepted changes are just the
distinct changes that the edits come to.
-/
namespace TypeMend

def UnappliedEdit.IsOverlap (entry : UnappliedEdit) : Prop :=
  ∃ start stop, entry.reason = .overlap start stop

namespace PendingEdits

/-- The pending edits that arise by pushing edits one after the other. -/
def ofPushes (pushes : List (String × Edit)) : PendingEdits :=
  pushes.foldl (fun pending push => pending.push push.1 push.2) ∅

theorem ofPushes_snoc (pushes : List (String × Edit)) (push : String × Edit) :
    ofPushes (pushes ++ [push]) = (ofPushes pushes).push push.1 push.2 := by
  simp [ofPushes]

theorem of_push (pending : PendingEdits) (file other : String) (edit : Edit) :
    (pending.push file edit).of other =
      if other = file then pending.of file ++ [edit] else pending.of other := by
  unfold of push
  rw [Table.get?_alter]
  split_ifs <;> rfl

/-- The edits of a file are those pushed for it. -/
theorem of_ofPushes (pushes : List (String × Edit)) (file : String) :
    (ofPushes pushes).of file = (pushes.filter fun push => push.1 = file).map Prod.snd := by
  induction pushes using List.reverseRecOn with
  | nil => rfl
  | append_singleton pushes push ih =>
    rw [ofPushes_snoc, of_push, List.filter_append, List.map_append, ← ih]
    by_cases h : file = push.1
    · simp [h]
    · have h' : ¬push.1 = file := fun e => h e.symm
      simp [h, h']

theorem mem_keys_push {pending : PendingEdits} {file other : String} {edit : Edit} :
    other ∈ (pending.push file edit).keys ↔ other ∈ pending.keys ∨ file = other := by
  rw [PendingEdits.push, Table.keys_alter]
  split_ifs with h
  · constructor
    · exact .inl
    · rintro (hother | rfl)
      · exact hother
      · exact h
  · simp [eq_comm]

theorem mem_keys_ofPushes {pushes : List (String × Edit)} {file : String} :
    file ∈ (ofPushes pushes).keys ↔ ∃ push ∈ pushes, push.1 = file := by
  induction pushes using List.reverseRecOn with
  | nil => simp [ofPushes]
  | append_singleton pushes push ih =>
    rw [ofPushes_snoc, mem_keys_push, ih]
    simp [or_and_right, exists_or]

theorem loaded_of_mem_keys {ws : Workspace} {pushes : List (String × Edit)}
    (h : ∀ push ∈ pushes, (ws.fileText? push.1).isSome) :
    ∀ file ∈ (ofPushes pushes).keys, (ws.fileText? file).isSome := by
  intro file hfile
  obtain ⟨push, hpush, rfl⟩ := mem_keys_ofPushes.1 hfile
  exact h push hpush

theorem keys_ofPushes_perm {pushes pushes' : List (String × Edit)} (h : pushes.Perm pushes') :
    (ofPushes pushes).keys.Perm (ofPushes pushes').keys := by
  refine (List.perm_ext_iff_of_nodup (ofPushes pushes).nodup (ofPushes pushes').nodup).2 ?_
  intro file
  change file ∈ (ofPushes pushes).keys ↔ file ∈ (ofPushes pushes').keys
  simp only [mem_keys_ofPushes, h.mem_iff]

end PendingEdits

namespace Resolved

/-- The change that an edit comes to. -/
def change? : Resolved → Option TextChange
  | .change made => some made
  | _ => none

theorem change?_eq_some_iff {resolved : Resolved} {change : TextChange} :
    resolved.change? = some change ↔ resolved = .change change := by
  cases resolved <;> simp [change?]

/-- The report of an edit that comes to no change. -/
def refusal? (file : String) (edit : Edit) : Resolved → Option UnappliedEdit
  | .refused reason start stop => some ⟨file, edit.kind, start, stop, "", reason⟩
  | _ => none

end Resolved

namespace Patch

def changesOf (ws : Workspace) (options : Options) (cs : List Char) (edits : List Edit) :
    List TextChange :=
  edits.filterMap fun edit => (resolve ws options edit cs).change?

def refusalsOf (ws : Workspace) (options : Options) (file : String) (cs : List Char)
    (edits : List Edit) : List UnappliedEdit :=
  edits.filterMap fun edit => (resolve ws options edit cs).refusal? file edit

/-- Different changes that edits come to do not touch. -/
def Apart (ws : Workspace) (options : Options) (cs : List Char) (edits : List Edit) : Prop :=
  ∀ a ∈ changesOf ws options cs edits, ∀ b ∈ changesOf ws options cs edits,
    a ≠ b → a.intersects b = false

theorem changesOf_snoc (ws : Workspace) (options : Options) (cs : List Char) (edits : List Edit)
    (edit : Edit) :
    changesOf ws options cs (edits ++ [edit]) =
      changesOf ws options cs edits ++ (resolve ws options edit cs).change?.toList := by
  rw [changesOf, List.filterMap_append]
  cases h : (resolve ws options edit cs).change? <;> simp [changesOf, h]

theorem refusalsOf_snoc (ws : Workspace) (options : Options) (file : String) (cs : List Char)
    (edits : List Edit) (edit : Edit) :
    refusalsOf ws options file cs (edits ++ [edit]) =
      refusalsOf ws options file cs edits ++
        ((resolve ws options edit cs).refusal? file edit).toList := by
  rw [refusalsOf, List.filterMap_append]
  cases h : (resolve ws options edit cs).refusal? file edit <;> simp [refusalsOf, h]

section Ledger

variable {ws : Workspace} {options : Options} {file : String} {cs : List Char}
  {edits : List Edit} {verdicts : List Verdict}

theorem Ledger.nodup (h : Ledger ws options file cs edits verdicts) :
    (Verdict.changes verdicts).Nodup := by
  induction h with
  | nil => simp [Verdict.changes]
  | @snoc _ _ _ verdict _ hjudged ih =>
    rw [Verdict.changes_append, List.nodup_append]
    refine ⟨ih, by cases verdict <;> simp [Verdict.change?], ?_⟩
    intro a ha b hb hab
    exact (hjudged.change_mem hb).2.1 (hab ▸ ha)

/-- Every accepted change is one that an edit comes to. -/
theorem Ledger.changes_subset (h : Ledger ws options file cs edits verdicts) :
    Verdict.changes verdicts ⊆ changesOf ws options cs edits := by
  induction h with
  | nil => simp [Verdict.changes]
  | snoc _ hjudged ih =>
    intro change hchange
    rw [Verdict.changes_append, List.mem_append] at hchange
    rw [changesOf_snoc, List.mem_append]
    rcases hchange with hchange | hchange
    · exact .inl (ih hchange)
    · exact .inr (by simp [(hjudged.change_mem hchange).1, Resolved.change?])

/-- Without overlaps every change that an edit comes to is accepted, and only refused edits are
reported. -/
theorem Ledger.of_no_overlap (h : Ledger ws options file cs edits verdicts)
    (hno : ∀ entry ∈ Verdict.entries verdicts, ¬entry.IsOverlap) :
    changesOf ws options cs edits ⊆ Verdict.changes verdicts ∧
      Verdict.entries verdicts = refusalsOf ws options file cs edits := by
  induction h with
  | nil => exact ⟨by simp [changesOf], rfl⟩
  | @snoc edits verdicts edit verdict _ hjudged ih =>
    rw [Verdict.entries_append] at hno
    obtain ⟨hchanges, hentries⟩ := ih fun entry hentry => hno entry (List.mem_append_left _ hentry)
    rw [changesOf_snoc, refusalsOf_snoc, Verdict.changes_append, Verdict.entries_append, hentries]
    generalize resolve ws options edit cs = resolved at hjudged
    cases hjudged with
    | satisfied =>
      refine ⟨?_, rfl⟩
      simpa [Resolved.change?] using List.subset_append_of_subset_left _ hchanges
    | refused reason start stop =>
      exact ⟨by simpa [Resolved.change?] using List.subset_append_of_subset_left _ hchanges, rfl⟩
    | repeated hmem =>
      refine ⟨List.append_subset.2 ⟨List.subset_append_of_subset_left _ hchanges, ?_⟩, rfl⟩
      simp [Resolved.change?, hmem]
    | accepted =>
      refine ⟨List.append_subset.2 ⟨List.subset_append_of_subset_left _ hchanges, ?_⟩, rfl⟩
      simp [Resolved.change?, Verdict.change?]
    | @overlap change first =>
      exact absurd ⟨first.start, first.stop, rfl⟩
        (hno _ (List.mem_append_right _ (List.mem_singleton.2 rfl)))

/-- Edits none of which is reported as an overlap do not touch. -/
theorem Ledger.apart (h : Ledger ws options file cs edits verdicts)
    (hno : ∀ entry ∈ Verdict.entries verdicts, ¬entry.IsOverlap) :
    Apart ws options cs edits := by
  have hsubset := (h.of_no_overlap hno).1
  have : Std.Symm fun a b : TextChange => a.intersects b = false :=
    ⟨fun a b hab => (TextChange.intersects_comm b a).trans hab⟩
  intro a ha b hb hab
  exact h.disjoint.forall (hsubset ha) (hsubset hb) hab

/-- Edits that do not touch are not reported as overlaps. -/
theorem Ledger.entries_of_apart (h : Ledger ws options file cs edits verdicts)
    (hapart : Apart ws options cs edits) :
    Verdict.entries verdicts = refusalsOf ws options file cs edits := by
  induction h with
  | nil => rfl
  | @snoc edits verdicts edit verdict hledger hjudged ih =>
    have hsubset : changesOf ws options cs edits ⊆ changesOf ws options cs (edits ++ [edit]) := by
      rw [changesOf_snoc]
      exact List.subset_append_left _ _
    have hearlier : Apart ws options cs edits := fun a ha b hb =>
      hapart a (hsubset ha) b (hsubset hb)
    rw [refusalsOf_snoc, Verdict.entries_append, ih hearlier]
    generalize hresolved : resolve ws options edit cs = resolved at hjudged
    cases hjudged with
    | satisfied => rfl
    | refused reason start stop => rfl
    | repeated => rfl
    | accepted => rfl
    | @overlap change first before after hnotMem hsplit htouches =>
      have hfirst : first ∈ Verdict.changes verdicts := by simp [hsplit]
      have hne : first ≠ change := fun e => hnotMem (e ▸ hfirst)
      have hchange : change ∈ changesOf ws options cs (edits ++ [edit]) := by
        simp [changesOf_snoc, hresolved, Resolved.change?]
      have hdisjoint := hapart first (hsubset (hledger.changes_subset hfirst)) change hchange hne
      rw [hdisjoint] at htouches
      contradiction

end Ledger

theorem changesOf_perm (ws : Workspace) (options : Options) (cs : List Char)
    {edits edits' : List Edit} (h : edits.Perm edits') :
    (changesOf ws options cs edits).Perm (changesOf ws options cs edits') :=
  h.filterMap _

theorem refusalsOf_perm (ws : Workspace) (options : Options) (file : String) (cs : List Char)
    {edits edits' : List Edit} (h : edits.Perm edits') :
    (refusalsOf ws options file cs edits).Perm (refusalsOf ws options file cs edits') :=
  h.filterMap _

theorem Apart.of_perm {ws : Workspace} {options : Options} {cs : List Char}
    {edits edits' : List Edit} (hapart : Apart ws options cs edits) (h : edits.Perm edits') :
    Apart ws options cs edits' := by
  intro a ha b hb
  have hperm := changesOf_perm ws options cs h
  exact hapart a (hperm.mem_iff.2 ha) b (hperm.mem_iff.2 hb)

/-- Registering the edits of a file in another order accepts the same changes and reports the
same edits, if none of them was reported as an overlap. -/
theorem select_perm (ws : Workspace) (options : Options) (file : String) (cs : List Char)
    {edits edits' : List Edit} (h : edits.Perm edits')
    (hno : ∀ entry ∈ (select ws options file cs edits).unapplied, ¬entry.IsOverlap) :
    (select ws options file cs edits').accepted.Perm (select ws options file cs edits).accepted ∧
      (select ws options file cs edits').unapplied.Perm
        (select ws options file cs edits).unapplied := by
  obtain ⟨verdicts, hledger, haccepted, hunapplied⟩ := select_ledger ws options file cs edits
  obtain ⟨verdicts', hledger', haccepted', hunapplied'⟩ := select_ledger ws options file cs edits'
  rw [hunapplied] at hno
  rw [haccepted, haccepted', hunapplied, hunapplied']
  obtain ⟨hcovers, hentries⟩ := hledger.of_no_overlap hno
  have hentries' := hledger'.entries_of_apart ((hledger.apart hno).of_perm h)
  have hreports : (Verdict.entries verdicts').Perm (Verdict.entries verdicts) := by
    rw [hentries, hentries']
    exact (refusalsOf_perm ws options file cs h).symm
  have hcovers' := (hledger'.of_no_overlap fun entry hentry =>
    hno entry (hreports.mem_iff.1 hentry)).1
  refine ⟨(List.perm_ext_iff_of_nodup hledger'.nodup hledger.nodup).2 fun change => ?_, hreports⟩
  have hmem := (changesOf_perm ws options cs h).mem_iff (a := change)
  constructor
  · exact fun hchange => hcovers (hmem.2 (hledger'.changes_subset hchange))
  · exact fun hchange => hcovers' (hmem.1 (hledger.changes_subset hchange))

/-- The new text of a file depends on the accepted changes only up to their order. -/
theorem newText?_eq_of_perm {ws : Workspace} {options : Options} {file : String}
    {edits edits' : List Edit}
    (h : (selectIn ws options file edits').accepted.Perm
      (selectIn ws options file edits).accepted) :
    newText? ws options file edits' = newText? ws options file edits := by
  have hsorted := TextChange.inOrder_eq_of_perm h
  simp only [TextChange.inOrder] at hsorted
  simp only [newText?, TextChange.applyAll?, hsorted]

/-- A patch does not depend on the order of registration. Edits of loaded files are applied in
every order in which they are pushed, and if one order reports no overlap, then no other does,
all give the same new text to every file, and all report the same edits. -/
theorem apply_perm (ws : Workspace) (options : Options) {pushes pushes' : List (String × Edit)}
    (hperm : pushes.Perm pushes') (hloaded : ∀ push ∈ pushes, (ws.fileText? push.1).isSome) :
    ∃ outcome outcome', apply ws options (.ofPushes pushes) = .ok outcome ∧
      apply ws options (.ofPushes pushes') = .ok outcome' ∧
      ((∀ entry ∈ outcome.unapplied, ¬entry.IsOverlap) →
        (∀ entry ∈ outcome'.unapplied, ¬entry.IsOverlap) ∧
        (∀ file, outcome'.files.get? file = outcome.files.get? file) ∧
        outcome'.unapplied.Perm outcome.unapplied) := by
  obtain ⟨outcome, happly, hunapplied, hfiles⟩ := apply_eq_ok ws options (.ofPushes pushes)
    (PendingEdits.loaded_of_mem_keys hloaded)
  obtain ⟨outcome', happly', hunapplied', hfiles'⟩ := apply_eq_ok ws options (.ofPushes pushes')
    (PendingEdits.loaded_of_mem_keys fun push hpush => hloaded push (hperm.mem_iff.2 hpush))
  refine ⟨outcome, outcome', happly, happly', fun hno => ?_⟩
  have hkeys := PendingEdits.keys_ofPushes_perm hperm
  have hedits : ∀ file, ((PendingEdits.ofPushes pushes).of file).Perm
      ((PendingEdits.ofPushes pushes').of file) := by
    intro file
    rw [PendingEdits.of_ofPushes, PendingEdits.of_ofPushes]
    exact (hperm.filter _).map _
  have hselect : ∀ file ∈ (PendingEdits.ofPushes pushes).keys,
      (selectIn ws options file ((PendingEdits.ofPushes pushes').of file)).accepted.Perm
          (selectIn ws options file ((PendingEdits.ofPushes pushes).of file)).accepted ∧
        (selectIn ws options file ((PendingEdits.ofPushes pushes').of file)).unapplied.Perm
          (selectIn ws options file ((PendingEdits.ofPushes pushes).of file)).unapplied := by
    intro file hfile
    refine select_perm ws options file _ (hedits file) fun entry hentry => hno entry ?_
    rw [hunapplied]
    exact List.mem_flatMap.2 ⟨file, hfile, hentry⟩
  have hreports : outcome'.unapplied.Perm outcome.unapplied := by
    rw [hunapplied, hunapplied']
    exact hkeys.symm.flatMap fun file hfile => (hselect file (hkeys.mem_iff.2 hfile)).2
  refine ⟨fun entry hentry => hno entry (hreports.mem_iff.1 hentry), fun file => ?_, hreports⟩
  rw [hfiles, hfiles']
  by_cases hfile : file ∈ (PendingEdits.ofPushes pushes).keys
  · rw [if_pos hfile, if_pos (hkeys.mem_iff.1 hfile)]
    exact newText?_eq_of_perm (hselect file hfile).1
  · rw [if_neg hfile, if_neg fun h => hfile (hkeys.mem_iff.2 h)]

/-- Two edits that do not touch each other. -/
def apartPushes : List (String × Edit) :=
  [("a.ts", ⟨.unionType, 0, some 2⟩), ("a.ts", ⟨.makeOptional, 3, none⟩)]

theorem apply_perm_apart :
    apartPushes.Perm apartPushes.reverse ∧
      (∀ push ∈ apartPushes, (twoTypes.fileText? push.1).isSome) ∧
      ∃ outcome outcome', apply twoTypes .default (.ofPushes apartPushes) = .ok outcome ∧
        apply twoTypes .default (.ofPushes apartPushes.reverse) = .ok outcome' ∧
        (∀ entry ∈ outcome.unapplied, ¬entry.IsOverlap) ∧
        (∀ file, outcome'.files.get? file = outcome.files.get? file) ∧
        outcome'.unapplied.Perm outcome.unapplied := by
  have hperm : apartPushes.Perm apartPushes.reverse := (List.reverse_perm _).symm
  have hloaded : ∀ push ∈ apartPushes, (twoTypes.fileText? push.1).isSome := by decide
  obtain ⟨outcome, outcome', happly, happly', hsame⟩ :=
    apply_perm twoTypes .default hperm hloaded
  obtain ⟨_, hvalue, hunapplied, -⟩ := apply_eq_ok twoTypes .default (.ofPushes apartPushes)
    (PendingEdits.loaded_of_mem_keys hloaded)
  rw [happly] at hvalue
  cases hvalue
  have hnone : outcome.unapplied = [] := hunapplied.trans rfl
  have hno : ∀ entry ∈ outcome.unapplied, ¬entry.IsOverlap := by simp [hnone]
  exact ⟨hperm, hloaded, outcome, outcome', happly, happly', hno, (hsame hno).2⟩

end Patch

end TypeMend
