import TypeMend.Proofs.Lookup
import TypeMend.Proofs.OnePass
import TypeMend.Proofs.Selection

/-!
# The policy of a patch

Edits are accepted in the order in which they were registered, and no edit is lost: each is made,
needs no change, repeats an accepted change or is reported once. A file is in the outcome exactly
when the pass that puts the text of each accepted change where its range was makes another text.
-/
namespace TypeMend

theorem PendingEdits.of_eq {pending : PendingEdits} {file : String} {edits : List Edit}
    (h : pending.get? file = some edits) : pending.of file = edits := by
  simp [PendingEdits.of, h]

namespace Patch

/-! ## One ledger for a list of edits -/

theorem Judged.unique {file : String} {earlier : List TextChange} {edit : Edit}
    {resolved : Resolved} {verdict verdict' : Verdict}
    (h : Judged file earlier edit resolved verdict)
    (h' : Judged file earlier edit resolved verdict') : verdict = verdict' := by
  cases h with
  | satisfied => cases h'; rfl
  | refused reason start stop => cases h'; rfl
  | repeated hmem =>
    cases h' with
    | repeated => rfl
    | accepted hnotMem => exact absurd hmem hnotMem
    | overlap hnotMem => exact absurd hmem hnotMem
  | accepted hnotMem hapart =>
    cases h' with
    | repeated hmem => exact absurd hmem hnotMem
    | accepted => rfl
    | @overlap _ first _ _ _ hsplit htouches =>
      have hfirst := hapart first (by simp [hsplit])
      simp [hfirst] at htouches
  | @overlap change first before after hnotMem hsplit htouches hapart =>
    cases h' with
    | repeated hmem => exact absurd hmem hnotMem
    | accepted _ hapart' =>
      have hfirst := hapart' first (by simp [hsplit])
      simp [hfirst] at htouches
    | @overlap _ first' before' after' _ hsplit' htouches' hapart' =>
      have hfind : earlier.find? (fun other => other.intersects change) = some first :=
        List.find?_eq_some_iff_append.2 ⟨htouches, before, after, hsplit, by simpa using hapart⟩
      have hfind' : earlier.find? (fun other => other.intersects change) = some first' :=
        List.find?_eq_some_iff_append.2
          ⟨htouches', before', after', hsplit', by simpa using hapart'⟩
      rw [hfind, Option.some.injEq] at hfind'
      rw [hfind']

theorem Ledger.unique {ws : Workspace} {options : Options} {file : String} {cs : List Char}
    {edits : List Edit} {verdicts verdicts' : List Verdict}
    (h : Ledger ws options file cs edits verdicts)
    (h' : Ledger ws options file cs edits verdicts') : verdicts = verdicts' := by
  induction h generalizing verdicts' with
  | nil =>
    generalize hedits : ([] : List Edit) = edits at h'
    cases h' with
    | nil => rfl
    | snoc => simp at hedits
  | @snoc edits verdicts edit verdict _ hjudged ih =>
    generalize hedits : edits ++ [edit] = edits' at h'
    cases h' with
    | nil => simp at hedits
    | snoc hledger' hjudged' =>
      obtain ⟨rfl, hlast⟩ := List.append_inj' hedits rfl
      cases hlast
      obtain rfl := ih hledger'
      rw [hjudged.unique hjudged']

/-! ## The files of an outcome -/

def selectIn (ws : Workspace) (options : Options) (file : String) (edits : List Edit) :
    Selection :=
  select ws options file ((ws.fileText? file).getD "").toList edits

/-- The new text of a file, if its edits change it. -/
def newText? (ws : Workspace) (options : Options) (file : String) (edits : List Edit) :
    Option String :=
  (ws.fileText? file).bind fun text =>
    (TextChange.applyAll? text (selectIn ws options file edits).accepted).bind fun patched =>
      if patched = text then none else some patched

/-- The changes selected for a loaded file are applied: what comes out is the splice of the
changes that the ledger of the file accepts. -/
theorem exists_patched {ws : Workspace} (options : Options) {file text : String}
    (hloaded : ws.fileText? file = some text) (edits : List Edit) :
    ∃ verdicts cs, Ledger ws options file text.toList edits verdicts ∧
      (selectIn ws options file edits).unapplied = Verdict.entries verdicts ∧
      TextChange.Spliced none 0 (TextChange.inOrder (Verdict.changes verdicts)) text.toList cs ∧
      TextChange.applyAll? text (selectIn ws options file edits).accepted =
        some (String.ofList cs) := by
  obtain ⟨verdicts, hledger, haccepted, hunapplied⟩ :=
    select_ledger ws options file text.toList edits
  obtain ⟨cs, hspliced, happly⟩ :=
    TextChange.applyAll?_eq_some hledger.fits hledger.disjoint
  refine ⟨verdicts, cs, hledger, ?_, hspliced, ?_⟩
  · simpa [selectIn, hloaded] using hunapplied
  · simpa [selectIn, hloaded, haccepted] using happly

/-- Applying the edits of loaded files succeeds. Every file adds its reports, and its new text if
it has one. -/
theorem applyFiles_eq_ok (ws : Workspace) (options : Options) (entries : List (String × List Edit))
    (outcome : PatchOutcome) (hnodup : (entries.map Prod.fst).Nodup)
    (hloaded : ∀ entry ∈ entries, (ws.fileText? entry.1).isSome) :
    ∃ final, applyFiles ws options entries outcome = .ok final ∧
      final.unapplied = outcome.unapplied ++
        entries.flatMap (fun entry => (selectIn ws options entry.1 entry.2).unapplied) ∧
      ∀ file, final.files.get? file =
        ((Table.find? file entries).bind (newText? ws options file)).or
          (outcome.files.get? file) := by
  induction entries generalizing outcome with
  | nil => exact ⟨outcome, rfl, by simp, fun file => by simp [Table.find?]⟩
  | cons entry rest ih =>
    obtain ⟨file, edits⟩ := entry
    rw [List.map_cons, List.nodup_cons] at hnodup
    obtain ⟨text, htext⟩ := Option.isSome_iff_exists.1 (hloaded (file, edits) List.mem_cons_self)
    obtain ⟨verdicts, cs, _, _, _, happly⟩ := exists_patched options htext edits
    have hselect : select ws options file text.toList edits = selectIn ws options file edits := by
      simp [selectIn, htext]
    obtain ⟨final, hfinal, hunapplied, hfiles⟩ := ih
      { files := if String.ofList cs = text then outcome.files
          else outcome.files.insert file (String.ofList cs)
        unapplied := outcome.unapplied ++ (selectIn ws options file edits).unapplied }
      hnodup.2 (fun entry hentry => hloaded entry (List.mem_cons_of_mem _ hentry))
    refine ⟨final, ?_, ?_, ?_⟩
    · simp only [applyFiles, htext, hselect, happly]
      exact hfinal
    · rw [hunapplied]
      simp
    · intro other
      rw [hfiles other]
      by_cases hother : file = other
      · subst hother
        have hrest : Table.find? file rest = none := Table.find?_eq_none_iff.2 hnodup.1
        by_cases hsame : String.ofList cs = text
        · simp [hrest, Table.find?, newText?, htext, happly, hsame]
        · simp [hrest, Table.find?, newText?, htext, happly, hsame]
      · have hother' : ¬other = file := fun e => hother e.symm
        simp only [Table.find?, hother, if_false]
        split_ifs
        · rfl
        · rw [Table.get?_insert, if_neg hother']

/-- Edits of loaded files are applied: the reports come file by file, and every file has the new
text that its edits give. -/
theorem apply_eq_ok (ws : Workspace) (options : Options) (pending : PendingEdits)
    (hloaded : ∀ file ∈ pending.keys, (ws.fileText? file).isSome) :
    ∃ outcome, apply ws options pending = .ok outcome ∧
      outcome.unapplied = pending.keys.flatMap (fun file =>
        (selectIn ws options file (pending.of file)).unapplied) ∧
      ∀ file, outcome.files.get? file =
        if file ∈ pending.keys then newText? ws options file (pending.of file) else none := by
  obtain ⟨outcome, happly, hunapplied, hfiles⟩ := applyFiles_eq_ok ws options pending.entries
    ⟨∅, []⟩ pending.nodup fun entry hentry =>
      hloaded entry.1 (List.mem_map.2 ⟨entry, hentry, rfl⟩)
  refine ⟨outcome, happly, ?_, ?_⟩
  · rw [hunapplied, List.nil_append, Table.keys, List.flatMap_map]
    refine List.flatMap_congr fun entry hentry => ?_
    rw [PendingEdits.of_eq (Table.get?_eq_some_iff.2 hentry)]
  · intro file
    rw [hfiles file, Table.get?_empty, Option.or_none]
    change (pending.get? file).bind _ = _
    cases hedits : pending.get? file with
    | none =>
      rw [if_neg (Table.get?_eq_none_iff.1 hedits)]
      rfl
    | some edits =>
      rw [if_pos (Table.mem_keys_iff.2 ⟨edits, hedits⟩), PendingEdits.of_eq hedits]
      rfl

/-- The new text of a loaded file is the splice of its accepted changes, if that differs from the
text. -/
theorem newText?_eq_some_iff {ws : Workspace} {options : Options} {file text : String}
    (hloaded : ws.fileText? file = some text) {edits : List Edit} {verdicts : List Verdict}
    (hledger : Ledger ws options file text.toList edits verdicts) {new : String} :
    newText? ws options file edits = some new ↔
      ∃ cs, TextChange.Spliced none 0 (TextChange.inOrder (Verdict.changes verdicts))
          text.toList cs ∧ new = String.ofList cs ∧ new ≠ text := by
  obtain ⟨verdicts', cs, hledger', _, hspliced, happly⟩ := exists_patched options hloaded edits
  obtain rfl := hledger.unique hledger'
  have hnew : newText? ws options file edits =
      if String.ofList cs = text then none else some (String.ofList cs) := by
    simp [newText?, hloaded, happly]
  rw [hnew]
  constructor
  · intro h
    split_ifs at h with hsame
    cases h
    exact ⟨cs, hspliced, rfl, hsame⟩
  · rintro ⟨cs', hspliced', rfl, hdiffers⟩
    obtain rfl := hspliced.unique hspliced'
    rw [if_neg hdiffers]

/-- The bytes of the new text of a loaded file are those of one pass over the file with its accepted
changes in order. -/
theorem newText?_eq_some_iff_onePass {ws : Workspace} {options : Options} {file text : String}
    (hloaded : ws.fileText? file = some text) {edits : List Edit} {verdicts : List Verdict}
    (hledger : Ledger ws options file text.toList edits verdicts) {new : String} :
    newText? ws options file edits = some new ↔
      ∃ sorted : List TextChange, sorted.Perm (Verdict.changes verdicts) ∧
        sorted.Pairwise TextChange.Precedes ∧
        new.toByteArray = TextChange.onePass text.toByteArray none 0 sorted ∧ new ≠ text := by
  rw [newText?_eq_some_iff hloaded hledger]
  constructor
  · rintro ⟨cs, hspliced, rfl, hdiffers⟩
    exact ⟨_, TextChange.inOrder_perm _, TextChange.inOrder_pairwise _,
      hspliced.toByteArray_eq, hdiffers⟩
  · rintro ⟨sorted, hperm, hsorted, hbytes, hdiffers⟩
    obtain ⟨cs, hspliced, -⟩ := TextChange.applyAll?_eq_some hledger.fits hledger.disjoint
    rw [TextChange.eq_inOrder hperm hsorted, ← hspliced.toByteArray_eq] at hbytes
    exact ⟨cs, hspliced, String.toByteArray_inj.1 hbytes, hdiffers⟩

/-- First registered wins, and no edit is lost. When all files are loaded, edits are applied. The
edits of each file have exactly one ledger, in which changes touch if each begins before the other
ends; the reports of the outcome are those of the ledgers; and a file is in the outcome exactly when
one pass over its bytes, which puts the text of each accepted change where its range was and copies
the rest, makes something else of it. -/
theorem apply_follows_ledgers (ws : Workspace) (options : Options) (pending : PendingEdits)
    (hloaded : ∀ file ∈ pending.keys, (ws.fileText? file).isSome) :
    ∃ outcome, ∃ verdicts : String → List Verdict,
      apply ws options pending = .ok outcome ∧
      (∀ file edits text, pending.get? file = some edits → ws.fileText? file = some text →
        ∀ list, Ledger ws options file text.toList edits list ↔ list = verdicts file) ∧
      (∀ change other : TextChange, change.intersects other = true ↔
        change.start < other.stop ∧ other.start < change.stop) ∧
      outcome.unapplied = pending.keys.flatMap (fun file => Verdict.entries (verdicts file)) ∧
      ∀ file new, outcome.files.get? file = some new ↔
        file ∈ pending.keys ∧ ∃ text, ws.fileText? file = some text ∧
          ∃ sorted : List TextChange, sorted.Perm (Verdict.changes (verdicts file)) ∧
            sorted.Pairwise TextChange.Precedes ∧
            new.toByteArray = TextChange.onePass text.toByteArray none 0 sorted ∧ new ≠ text := by
  obtain ⟨outcome, happly, hreports, hfiles⟩ := apply_eq_ok ws options pending hloaded
  choose verdicts hledger haccepted hunapplied using fun file => select_ledger ws options file
    ((ws.fileText? file).getD "").toList (pending.of file)
  have hledgerOf : ∀ {file text}, ws.fileText? file = some text →
      Ledger ws options file text.toList (pending.of file) (verdicts file) := by
    intro file text htext
    simpa [htext] using hledger file
  refine ⟨outcome, verdicts, happly, ?_, TextChange.intersects_iff, ?_, ?_⟩
  · intro file edits text hedits htext list
    rw [← PendingEdits.of_eq hedits]
    constructor
    · exact fun h => h.unique (hledgerOf htext)
    · rintro rfl
      exact hledgerOf htext
  · rw [hreports]
    exact List.flatMap_congr fun file _ => hunapplied file
  · intro file new
    rw [hfiles file]
    by_cases hkeys : file ∈ pending.keys
    · obtain ⟨text, htext⟩ := Option.isSome_iff_exists.1 (hloaded file hkeys)
      rw [if_pos hkeys, newText?_eq_some_iff_onePass htext (hledgerOf htext)]
      simp [hkeys, htext]
    · simp [hkeys]

/-- A file with two written types, and two literals to widen them by. -/
def twoTypes : Workspace :=
  { (∅ : Workspace) with
    nodes :=
      #[⟨"a.ts", 7, 13, "string", "string", "TypeAnnotation", false, false, none⟩,
        ⟨"a.ts", 22, 37, "string | number", "string | number", "TypeAnnotation", false, false,
          none⟩,
        ⟨"a.ts", 4, 5, "5", "number", "NumericLiteral", false, false, none⟩,
        ⟨"a.ts", 4, 5, "true", "boolean", "TrueKeyword", false, false, none⟩]
    files := .ofList [("a.ts", ⟨"let x: string; let y: string | number;", []⟩)] }

/-- One edit with each verdict, and a second that is accepted. -/
def mixedEdits : List Edit :=
  [⟨.unionType, 0, some 2⟩, ⟨.unionType, 0, some 3⟩, ⟨.unionType, 0, some 2⟩,
    ⟨.unionType, 1, some 2⟩, ⟨.insertProperty, 3, none⟩, ⟨.makeOptional, 3, none⟩]

/-- What is said of each edit. -/
def mixedVerdicts : List Verdict :=
  [.accepted ⟨7, 13, "string | number"⟩,
    .unapplied ⟨"a.ts", .unionType, 7, 13, "string | boolean", .overlap 7 13⟩,
    .repeated ⟨7, 13, "string | number"⟩, .satisfied,
    .unapplied ⟨"a.ts", .insertProperty, 4, 5, "", .noInsertionPoint⟩,
    .accepted (.insertion 5 "?")]

theorem ledger_mixedEdits : Ledger twoTypes .default "a.ts"
    "let x: string; let y: string | number;".toList mixedEdits mixedVerdicts := by
  let cs := "let x: string; let y: string | number;".toList
  let widened : TextChange := ⟨7, 13, "string | number"⟩
  have hnumber : resolve twoTypes .default ⟨.unionType, 0, some 2⟩ cs = .change widened := by
    decide +kernel
  have hboolean : resolve twoTypes .default ⟨.unionType, 0, some 3⟩ cs =
      .change ⟨7, 13, "string | boolean"⟩ := by decide +kernel
  have hmember : resolve twoTypes .default ⟨.unionType, 1, some 2⟩ cs = .satisfied := by
    decide +kernel
  have hnowhere : resolve twoTypes .default ⟨.insertProperty, 3, none⟩ cs =
      .refused .noInsertionPoint 4 5 := by decide +kernel
  have hmark : resolve twoTypes .default ⟨.makeOptional, 3, none⟩ cs =
      .change (.insertion 5 "?") := by decide +kernel
  have haccepted : Judged "a.ts" [] ⟨.unionType, 0, some 2⟩ (.change widened)
      (.accepted widened) := .accepted (by simp) (by simp)
  have hoverlap : Judged "a.ts" [widened] ⟨.unionType, 0, some 3⟩
      (.change ⟨7, 13, "string | boolean"⟩)
      (.unapplied ⟨"a.ts", .unionType, 7, 13, "string | boolean", .overlap 7 13⟩) :=
    @Judged.overlap _ _ _ _ widened [] [] (by decide) rfl (by decide) (by simp)
  have hrepeated : Judged "a.ts" [widened] ⟨.unionType, 0, some 2⟩ (.change widened)
      (.repeated widened) := .repeated (by simp)
  have hmarked : Judged "a.ts" [widened] ⟨.makeOptional, 3, none⟩ (.change (.insertion 5 "?"))
      (.accepted (.insertion 5 "?")) := .accepted (by decide) (by decide)
  exact .snoc (.snoc (.snoc (.snoc (.snoc (.snoc .nil (hnumber ▸ haccepted))
    (hboolean ▸ hoverlap)) (hnumber ▸ hrepeated)) (hmember ▸ .satisfied))
    (hnowhere ▸ .refused _ _ _)) (hmark ▸ hmarked)

theorem apply_follows_ledgers_mixed :
    (∀ file ∈ (Table.ofList [("a.ts", mixedEdits)]).keys, (twoTypes.fileText? file).isSome) ∧
      ∃ outcome, apply twoTypes .default (.ofList [("a.ts", mixedEdits)]) = .ok outcome ∧
        (∀ list, Ledger twoTypes .default "a.ts" "let x: string; let y: string | number;".toList
          mixedEdits list ↔ list = mixedVerdicts) ∧
        outcome.unapplied =
          [⟨"a.ts", .unionType, 7, 13, "string | boolean", .overlap 7 13⟩,
            ⟨"a.ts", .insertProperty, 4, 5, "", .noInsertionPoint⟩] ∧
        outcome.files.get? "a.ts" = some "let x?: string | number; let y: string | number;" := by
  have hloaded : ∀ file ∈ (Table.ofList [("a.ts", mixedEdits)]).keys,
      (twoTypes.fileText? file).isSome := by decide
  obtain ⟨outcome, verdicts, happly, hledger, -, hunapplied, hfiles⟩ :=
    apply_follows_ledgers twoTypes .default (.ofList [("a.ts", mixedEdits)]) hloaded
  have htext : twoTypes.fileText? "a.ts" = some "let x: string; let y: string | number;" := rfl
  have hverdicts : mixedVerdicts = verdicts "a.ts" :=
    (hledger "a.ts" mixedEdits _ rfl htext _).1 ledger_mixedEdits
  refine ⟨hloaded, outcome, happly, hverdicts ▸ hledger "a.ts" mixedEdits _ rfl htext, ?_, ?_⟩
  · rw [hunapplied]
    change Verdict.entries (verdicts "a.ts") ++ [] = _
    rw [← hverdicts]
    rfl
  · refine (hfiles "a.ts" _).2 ⟨by decide, _, htext,
      [.insertion 5 "?", ⟨7, 13, "string | number"⟩], ?_, ?_, ?_, ?_⟩
    · rw [← hverdicts]
      decide
    · simp [TextChange.Precedes, TextChange.insertion]
    · decide +kernel
    · decide

end Patch

end TypeMend
