import TypeMend.Patch
import TypeMend.Proofs.Splice

/-!
# Which edits of a file are applied

The edits of a file are judged one after the other. A `Ledger` holds the verdicts: every edit has
exactly one, and each depends only on what the edit comes to and on the changes accepted before
it. Selecting edits keeps such a ledger, and the accepted changes can always be applied together.
-/
namespace TypeMend.Patch

/-- What becomes of an edit. -/
inductive Verdict
  /-- Its change is made. -/
  | accepted (change : TextChange)
  /-- The text is already as the edit wants it. -/
  | satisfied
  /-- Its change is one that was accepted before. -/
  | repeated (change : TextChange)
  /-- It is reported. -/
  | unapplied (entry : UnappliedEdit)

namespace Verdict

def change? : Verdict → Option TextChange
  | accepted change => some change
  | _ => none

def entry? : Verdict → Option UnappliedEdit
  | unapplied entry => some entry
  | _ => none

def changes (verdicts : List Verdict) : List TextChange :=
  verdicts.filterMap change?

def entries (verdicts : List Verdict) : List UnappliedEdit :=
  verdicts.filterMap entry?

@[simp] theorem changes_append (verdicts verdicts' : List Verdict) :
    changes (verdicts ++ verdicts') = changes verdicts ++ changes verdicts' :=
  List.filterMap_append

@[simp] theorem entries_append (verdicts verdicts' : List Verdict) :
    entries (verdicts ++ verdicts') = entries verdicts ++ entries verdicts' :=
  List.filterMap_append

@[simp] theorem changes_singleton (verdict : Verdict) :
    changes [verdict] = verdict.change?.toList := by
  cases verdict <;> rfl

@[simp] theorem entries_singleton (verdict : Verdict) :
    entries [verdict] = verdict.entry?.toList := by
  cases verdict <;> rfl

end Verdict

/-- The verdict on an edit, by what the edit comes to and by the changes accepted earlier. -/
inductive Judged (file : String) (earlier : List TextChange) (edit : Edit) :
    Resolved → Verdict → Prop
  | satisfied : Judged file earlier edit .satisfied .satisfied
  | refused (reason : UnappliedReason) (start stop : Nat) :
      Judged file earlier edit (.refused reason start stop)
        (.unapplied ⟨file, edit.kind, start, stop, "", reason⟩)
  | repeated {change : TextChange} (mem : change ∈ earlier) :
      Judged file earlier edit (.change change) (.repeated change)
  | accepted {change : TextChange} (notMem : change ∉ earlier)
      (apart : ∀ other ∈ earlier, other.intersects change = false) :
      Judged file earlier edit (.change change) (.accepted change)
  | overlap {change first : TextChange} {before after : List TextChange}
      (notMem : change ∉ earlier) (split : earlier = before ++ first :: after)
      (touches : first.intersects change = true)
      (apart : ∀ other ∈ before, other.intersects change = false) :
      Judged file earlier edit (.change change)
        (.unapplied ⟨file, edit.kind, change.start, change.stop, change.text,
          .overlap first.start first.stop⟩)

/-- The verdicts on edits that are judged in order. -/
inductive Ledger (ws : Workspace) (options : Options) (file : String) (cs : List Char) :
    List Edit → List Verdict → Prop
  | nil : Ledger ws options file cs [] []
  | snoc {edits : List Edit} {verdicts : List Verdict} {edit : Edit} {verdict : Verdict}
      (earlier : Ledger ws options file cs edits verdicts)
      (judged : Judged file (Verdict.changes verdicts) edit (resolve ws options edit cs) verdict) :
      Ledger ws options file cs (edits ++ [edit]) (verdicts ++ [verdict])

/-- Taking one more edit into a selection carries out the verdict on it. -/
theorem exists_judged (file : String) (selection : Selection) (edit : Edit) (resolved : Resolved) :
    ∃ verdict, Judged file selection.accepted edit resolved verdict ∧
      (selection.add file edit resolved).accepted =
        selection.accepted ++ Verdict.changes [verdict] ∧
      (selection.add file edit resolved).unapplied =
        selection.unapplied ++ Verdict.entries [verdict] := by
  cases resolved with
  | satisfied =>
    refine ⟨_, .satisfied, ?_, ?_⟩ <;> simp [Selection.add, Verdict.change?, Verdict.entry?]
  | refused reason start stop =>
    refine ⟨_, .refused reason start stop, ?_, ?_⟩ <;>
      simp [Selection.add, Verdict.change?, Verdict.entry?]
  | change change =>
    by_cases hmem : change ∈ selection.accepted
    · refine ⟨_, .repeated hmem, ?_, ?_⟩ <;>
        simp [Selection.add, hmem, Verdict.change?, Verdict.entry?]
    cases hfind : selection.accepted.find? fun earlier => earlier.intersects change with
    | none =>
      have hapart : ∀ other ∈ selection.accepted, other.intersects change = false := by
        simpa using hfind
      refine ⟨_, .accepted hmem hapart, ?_, ?_⟩ <;>
        simp [Selection.add, hmem, hfind, Verdict.change?, Verdict.entry?]
    | some first =>
      obtain ⟨htouches, before, after, hsplit, hbefore⟩ := List.find?_eq_some_iff_append.1 hfind
      have hapart : ∀ other ∈ before, other.intersects change = false := by
        simpa using hbefore
      refine ⟨_, .overlap hmem hsplit htouches hapart, ?_, ?_⟩ <;>
        simp [Selection.add, hmem, hfind, Verdict.change?, Verdict.entry?]

/-- The selection from the edits of a file follows a ledger. -/
theorem select_ledger (ws : Workspace) (options : Options) (file : String) (cs : List Char)
    (edits : List Edit) :
    ∃ verdicts, Ledger ws options file cs edits verdicts ∧
      (select ws options file cs edits).accepted = Verdict.changes verdicts ∧
      (select ws options file cs edits).unapplied = Verdict.entries verdicts := by
  induction edits using List.reverseRecOn with
  | nil => exact ⟨[], .nil, rfl, rfl⟩
  | append_singleton edits edit ih =>
    obtain ⟨verdicts, hledger, haccepted, hunapplied⟩ := ih
    obtain ⟨verdict, hjudged, haccepted', hunapplied'⟩ := exists_judged file
      (select ws options file cs edits) edit (resolve ws options edit cs)
    rw [haccepted] at hjudged
    refine ⟨verdicts ++ [verdict], .snoc hledger hjudged, ?_, ?_⟩
    · rw [Verdict.changes_append, ← haccepted, ← haccepted']
      simp [select]
    · rw [Verdict.entries_append, ← hunapplied, ← hunapplied']
      simp [select]

/-! ## The accepted changes fit together -/

/-- A confined change is one that was proposed and that fits the text. -/
theorem confine_eq_change_iff {cs : List Char} {proposed : Resolved} {change : TextChange} :
    confine cs proposed = .change change ↔ proposed = .change change ∧ change.fits cs = true := by
  cases proposed with
  | change made =>
    simp only [confine]
    split_ifs with hfits
    · rw [Resolved.change.injEq]
      exact ⟨fun h => ⟨h, h ▸ hfits⟩, And.left⟩
    · rw [Resolved.change.injEq]
      exact ⟨fun h => (by cases h), fun ⟨h, hmade⟩ => absurd (h ▸ hmade) hfits⟩
  | satisfied => simp [confine]
  | refused reason start stop => simp [confine]

theorem resolve_fits {ws : Workspace} {options : Options} {edit : Edit} {cs : List Char}
    {change : TextChange} (h : resolve ws options edit cs = .change change) :
    change.fits cs = true :=
  (confine_eq_change_iff.1 h).2

theorem Judged.change_mem {file : String} {earlier : List TextChange} {edit : Edit}
    {resolved : Resolved} {verdict : Verdict} (h : Judged file earlier edit resolved verdict)
    {change : TextChange} (hchange : change ∈ Verdict.changes [verdict]) :
    resolved = .change change ∧ change ∉ earlier ∧
      ∀ other ∈ earlier, other.intersects change = false := by
  cases h <;> simp_all [Verdict.change?]

variable {ws : Workspace} {options : Options} {file : String} {cs : List Char}
  {edits : List Edit} {verdicts : List Verdict}

theorem Ledger.fits (h : Ledger ws options file cs edits verdicts) :
    ∀ change ∈ Verdict.changes verdicts, change.fits cs = true := by
  induction h with
  | nil => simp [Verdict.changes]
  | snoc _ hjudged ih =>
    intro change hchange
    rw [Verdict.changes_append, List.mem_append] at hchange
    rcases hchange with hchange | hchange
    · exact ih change hchange
    · exact resolve_fits (hjudged.change_mem hchange).1

theorem Ledger.disjoint (h : Ledger ws options file cs edits verdicts) :
    (Verdict.changes verdicts).Pairwise fun a b => a.intersects b = false := by
  induction h with
  | nil => simp [Verdict.changes]
  | @snoc _ _ _ verdict _ hjudged ih =>
    rw [Verdict.changes_append, List.pairwise_append]
    refine ⟨ih, ?_, ?_⟩
    · cases verdict <;> simp [Verdict.change?]
    · intro a ha b hb
      exact (hjudged.change_mem hb).2.2 a ha

end TypeMend.Patch
