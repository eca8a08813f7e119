import TypeMend.Proofs.Likeness
import TypeMend.Proofs.Quitting

/-!
# The order of discovery

Diagnostics that come in another order are classified from other workspaces. If all descriptions of
one key agree and each diagnostic has a place of its own, then the candidates for a diagnostic say
the same in both orders, edit by edit. Two runs that take the first candidate of every problem
choose the same edits up to their order and the numbers of their nodes, and as long as none of them
overlap they leave the same files.
-/
section Relations

variable {κ α β : Type} {r : α → β → Prop}

theorem List.rel_mapM {f : κ → Option α} {g : κ → Option β}
    (h : ∀ key, Option.Rel r (f key) (g key)) (keys : List κ) :
    Option.Rel (List.Forall₂ r) (keys.mapM f) (keys.mapM g) := by
  induction keys with
  | nil => exact .some .nil
  | cons key keys ih =>
    rw [List.mapM_cons, List.mapM_cons]
    exact (h key).bind fun _ _ hab => ih.bind fun _ _ hrest => .some (.cons hab hrest)

/-- Two lists that are related to the same one. -/
theorem List.Forall₂.join {r : κ → α → Prop} {r' : κ → β → Prop} {t : α → β → Prop}
    {keys : List κ} {as : List α} {bs : List β} (h : List.Forall₂ r keys as)
    (h' : List.Forall₂ r' keys bs) (ht : ∀ key a b, r key a → r' key b → t a b) :
    List.Forall₂ t as bs := by
  induction h generalizing bs with
  | nil =>
    cases h'
    exact .nil
  | cons ha _ ih =>
    cases h' with
    | cons hb hrest => exact .cons (ht _ _ _ ha hb) (ih hrest)

end Relations

namespace TypeMend

open Workspace

/-! ## Edits and candidates that say the same -/

namespace Workspace

variable {ws ws' v v' : Workspace}

/-- Two edits do the same with nodes of the same content. -/
structure AlikeEdits (ws ws' : Workspace) (edit edit' : Edit) : Prop where
  kind_eq : edit.kind = edit'.kind
  prime : Like ws ws' edit.prime edit'.prime
  other : Option.Rel (Like ws ws') edit.other edit'.other

/-- The edits of two candidates. -/
def AlikeCandidates (ws ws' : Workspace) (candidate candidate' : Candidate) : Prop :=
  List.Forall₂ (AlikeEdits ws ws') candidate.edits candidate'.edits

/-- Two edits of one file. -/
def AlikePushes (ws ws' : Workspace) (push push' : String × Edit) : Prop :=
  push.1 = push'.1 ∧ AlikeEdits ws ws' push.2 push'.2

theorem AlikeEdits.grow {edit edit' : Edit} (h : AlikeEdits ws ws' edit edit')
    (hv : Extends ws v) (hv' : Extends ws' v') : AlikeEdits v v' edit edit' :=
  ⟨h.kind_eq, h.prime.grow hv hv', h.other.imp fun _ _ hlike => hlike.grow hv hv'⟩

theorem AlikePushes.grow {push push' : String × Edit} (h : AlikePushes ws ws' push push')
    (hv : Extends ws v) (hv' : Extends ws' v') : AlikePushes v v' push push' :=
  ⟨h.1, h.2.grow hv hv'⟩

theorem AlikeEdits.writtenNode {edit edit' : Edit} (h : AlikeEdits ws ws' edit edit') :
    Like ws ws' edit.writtenNode edit'.writtenNode := by
  have hother : Like ws ws' (edit.other.getD edit.prime) (edit'.other.getD edit'.prime) := by
    obtain ⟨kind, prime, other⟩ := edit
    obtain ⟨kind', prime', other'⟩ := edit'
    cases h.other with
    | none => exact h.prime
    | some hlike => exact hlike
  unfold Edit.writtenNode
  rw [← h.kind_eq]
  split
  · exact hother
  · exact hother
  · exact hother
  · exact h.prime
  · exact h.prime

theorem AlikeCandidates.pushes {candidate candidate' : Candidate}
    (h : AlikeCandidates ws ws' candidate candidate') :
    List.Forall₂ (AlikePushes ws ws') (candidate.pushes ws) (candidate'.pushes ws') := by
  rw [Candidate.pushes, Candidate.pushes, List.forall₂_map_left_iff, List.forall₂_map_right_iff]
  exact h.imp fun _ _ hedits => ⟨hedits.writtenNode.file_eq, hedits⟩

end Workspace

namespace Candidate

variable {ws ws' : Workspace}

theorem single_alike {edits edits' : List Edit}
    (h : List.Forall₂ (AlikeEdits ws ws') edits edits') (prompt prompt' : String) :
    List.Forall₂ (AlikeCandidates ws ws') (single prompt edits) (single prompt' edits') := by
  cases h with
  | nil => exact .nil
  | cons hedit hrest => exact .cons (.cons hedit hrest) .nil

theorem forMismatch_alike {source source' target target' : NodeId}
    (hsource : Alike ws ws' source source') (htarget : Alike ws ws' target target')
    (suffix suffix' : String) :
    List.Forall₂ (AlikeCandidates ws ws') (forMismatch ws suffix source target)
      (forMismatch ws' suffix' source' target') := by
  refine List.rel_append ?_ ?_
  · rw [List.forall₂_map_left_iff, List.forall₂_map_right_iff]
    exact hsource.written.forall₂_toList.imp fun _ _ hwritten =>
      .cons ⟨rfl, htarget.toLike, .some hwritten⟩ .nil
  · rw [List.forall₂_map_left_iff, List.forall₂_map_right_iff]
    exact htarget.written.forall₂_toList.imp fun _ _ hwritten =>
      .cons ⟨rfl, hwritten, .some hsource.toLike⟩ .nil

theorem outermost_alike {layer layer' : Layer} (h : AlikeLayers ws ws' layer layer')
    (suffix suffix' : String) :
    List.Forall₂ (AlikeCandidates ws ws') (outermost ws suffix layer)
      (outermost ws' suffix' layer') := by
  unfold outermost
  rw [← h.kind_eq]
  split_ifs
  · dsimp only
    rw [List.forall₂_map_left_iff, List.forall₂_map_right_iff]
    exact h.target.written.forall₂_toList.imp fun _ _ hwritten =>
      .cons ⟨rfl, h.source.toLike, .some hwritten⟩ .nil
  · exact .nil

section Problems

variable {snapshot : Snapshot} {problem problem' : Problem}
  (hproblem : AlikeProblems snapshot ws ws' problem problem')
include hproblem

theorem outerLayer_alike : AlikeLayers ws ws' problem.outerLayer problem'.outerLayer := by
  have hdefault : AlikeLayers ws ws' ⟨.diagnostic, problem.source, problem.target⟩
      ⟨.diagnostic, problem'.source, problem'.target⟩ :=
    ⟨rfl, hproblem.source, hproblem.target⟩
  have hstack := hproblem.stack
  unfold Problem.outerLayer
  generalize problem.stack = stack at hstack ⊢
  generalize problem'.stack = stack' at hstack ⊢
  cases hstack with
  | nil => exact hdefault
  | cons hlayer _ => exact hlayer

theorem unionEdits?_alike :
    Option.Rel (List.Forall₂ (AlikeEdits ws ws')) problem.unionEdits? problem'.unionEdits? := by
  unfold Problem.unionEdits?
  rw [← hproblem.comparison_eq]
  refine List.rel_mapM (fun key => (hproblem.members.get? key).bind fun _ _ hmember => ?_) _
  refine (hproblem.properties.get? key).bind fun _ _ hcarrier => ?_
  exact .some ⟨rfl, hmember.typeNode.toLike, .some hcarrier.toLike⟩

theorem optionalEdits?_alike :
    Option.Rel (List.Forall₂ (AlikeEdits ws ws')) problem.optionalEdits?
      problem'.optionalEdits? := by
  unfold Problem.optionalEdits?
  rw [← hproblem.comparison_eq]
  refine List.rel_mapM (fun key => (hproblem.members.get? key).bind fun _ _ hmember => ?_) _
  exact .some ⟨rfl, hmember.nameNode.toLike, .none⟩

variable {declaration declaration' : DeclarationEntry}
  (hdeclaration : Alike ws ws' declaration.node declaration'.node)
include hdeclaration

theorem insertEdits_alike :
    List.Forall₂ (AlikeEdits ws ws') (problem.insertEdits declaration)
      (problem'.insertEdits declaration') := by
  have hcarriers : List.Forall₂ (Alike ws ws') problem.missingCarriers
      problem'.missingCarriers := by
    unfold Problem.missingCarriers
    rw [← hproblem.comparison_eq]
    refine List.rel_filterMap (R := Eq) (fun key key' hkey => ?_) (List.forall₂_refl _)
    exact hkey ▸ hproblem.properties.get? key
  rw [Problem.insertEdits, Problem.insertEdits, List.forall₂_map_left_iff,
    List.forall₂_map_right_iff]
  exact hcarriers.imp fun _ _ hcarrier =>
    ⟨rfl, hcarrier.toLike, .some hdeclaration.toLike⟩

theorem forPlaceholder_alike (suffix suffix' : String) :
    List.Forall₂ (AlikeCandidates ws ws') (forPlaceholder ws suffix problem declaration)
      (forPlaceholder ws' suffix' problem' declaration') := by
  have hcarriers := hproblem.properties.values
  unfold forPlaceholder
  rw [← hproblem.kind_eq, ← hproblem.missingIndex_eq]
  generalize problem.sourceProperties.values = carriers at hcarriers ⊢
  generalize problem'.sourceProperties.values = carriers' at hcarriers ⊢
  split_ifs
  · exact forMismatch_alike hproblem.source hproblem.target _ _
  · cases hcarriers with
    | nil => exact .nil
    | cons hcarrier _ =>
      have hedit (kind : EditKind) {carrier carrier' : NodeId}
          (hcarrier : Alike ws ws' carrier carrier') : AlikeEdits ws ws'
            ⟨kind, carrier, some declaration.node⟩ ⟨kind, carrier', some declaration'.node⟩ :=
        ⟨rfl, hcarrier.toLike, .some hdeclaration.toLike⟩
      dsimp only
      unfold addition
      split_ifs
      · exact single_alike (.cons (hedit _ hcarrier) .nil) _ _
      · exact single_alike (.cons (hedit _ hcarrier) .nil) _ _

theorem forObject_alike (suffix suffix' widened widened' required required' added added' : String) :
    List.Forall₂ (AlikeCandidates ws ws')
      (forObject suffix problem declaration widened required added)
      (forObject suffix' problem' declaration' widened' required' added') := by
  have hinserts := insertEdits_alike hproblem hdeclaration
  have hunions := unionEdits?_alike hproblem
  have hoptionals := optionalEdits?_alike hproblem
  unfold forObject
  dsimp only
  rw [← hproblem.kind_eq]
  generalize problem.unionEdits? = unions at hunions ⊢
  generalize problem'.unionEdits? = unions' at hunions ⊢
  generalize problem.optionalEdits? = optionals at hoptionals ⊢
  generalize problem'.optionalEdits? = optionals' at hoptionals ⊢
  cases problem.kind with
  | propMismatch =>
    cases hunions with
    | none => exact .nil
    | some hunions => exact single_alike hunions _ _
  | targetPropMissing => exact single_alike hinserts _ _
  | bothMissing =>
    cases hoptionals with
    | none => exact .nil
    | some hoptionals => exact single_alike (List.rel_append hoptionals hinserts) _ _
  | both =>
    cases hunions with
    | none => exact .nil
    | some hunions => exact single_alike (List.rel_append hunions hinserts) _ _
  | mismatch => exact .nil
  | simpleToObject => exact .nil
  | objectToSimple => exact .nil

end Problems

/-- Problems that say the same have candidates that say the same. -/
theorem all_alike {engine : Engine} (hsnapshot : engine.snapshot.Unanimous)
    (h : engine.Coherent ws) (h' : engine.Coherent ws') {problem problem' : Problem}
    (hproblem : AlikeProblems engine.snapshot ws ws' problem problem') (options : Options) :
    List.Forall₂ (AlikeCandidates ws ws') (all ws options problem) (all ws' options problem') := by
  have hdeclared : Option.Rel
      (fun declaration declaration' => Alike ws ws' declaration.node declaration'.node)
      (problem.declaration? ws) (problem'.declaration? ws') := by
    exact hproblem.declared.map fun _ _ hsame =>
      hsame.alike hsnapshot h.depicted h'.depicted h.rooted h'.rooted
  unfold all
  dsimp only
  rw [Problem.isPlaceholder, Problem.isPlaceholder, hproblem.source.isPlaceholder_eq,
    ← hproblem.kind_eq]
  generalize problem.declaration? ws = declaration at hdeclared ⊢
  generalize problem'.declaration? ws' = declaration' at hdeclared ⊢
  split_ifs
  · cases hdeclared with
    | none => exact .nil
    | some hdeclaration => exact forPlaceholder_alike hproblem hdeclaration _ _
  · refine List.rel_append (forMismatch_alike hproblem.source hproblem.target _ _) ?_
    exact outermost_alike (outerLayer_alike hproblem) _ _
  · rw [List.append_nil, List.append_nil]
    exact forMismatch_alike hproblem.source hproblem.target _ _
  · cases hdeclared with
    | none => exact .nil
    | some hdeclaration => exact forObject_alike hproblem hdeclaration _ _ _ _ _ _ _ _

end Candidate

/-! ## Patches from two workspaces -/

namespace Patch

variable {ws ws' : Workspace}

/-- Where the written types of the nodes are does not matter to an edit. -/
theorem propose_bare (options : Options) (kind : EditKind) (prime : Node) (other : Option Node)
    (cs : List Char) :
    propose options kind prime.bare (other.map Node.bare) cs =
      propose options kind prime other cs := by
  cases kind <;> cases other <;> rfl

theorem resolve_of_alike {edit edit' : Edit} (h : AlikeEdits ws ws' edit edit')
    (options : Options) (cs : List Char) :
    resolve ws options edit cs = resolve ws' options edit' cs := by
  have hother : (edit.other.map ws.node).map Node.bare =
      (edit'.other.map ws'.node).map Node.bare := by
    have hrel := h.other
    generalize edit.other = other at hrel ⊢
    generalize edit'.other = other' at hrel ⊢
    cases hrel with
    | none => rfl
    | some hlike => exact congrArg some hlike.bare_eq
  rw [resolve, resolve, ← propose_bare, h.kind_eq, h.prime.bare_eq, hother, propose_bare]

theorem select_of_alike {edits edits' : List Edit}
    (h : List.Forall₂ (AlikeEdits ws ws') edits edits') (options : Options) (file : String)
    (cs : List Char) : select ws options file cs edits = select ws' options file cs edits' := by
  unfold select
  generalize (⟨[], []⟩ : Selection) = selection
  induction h generalizing selection with
  | nil => rfl
  | @cons edit edit' _ _ hedit _ ih =>
    have hadd : selection.add file edit (resolve ws options edit cs) =
        selection.add file edit' (resolve ws' options edit' cs) := by
      rw [resolve_of_alike hedit]
      cases resolve ws' options edit' cs <;> simp only [Selection.add, hedit.kind_eq]
    rw [List.foldl_cons, List.foldl_cons, hadd, ih]

theorem newText?_of_alike {edits edits' : List Edit}
    (h : List.Forall₂ (AlikeEdits ws ws') edits edits') (options : Options) {file : String}
    (htext : ws.fileText? file = ws'.fileText? file) :
    newText? ws options file edits = newText? ws' options file edits' := by
  simp only [newText?, selectIn, htext, select_of_alike h]

theorem of_ofPushes_alike {pushes pushes' : List (String × Edit)}
    (h : List.Forall₂ (AlikePushes ws ws') pushes pushes') (file : String) :
    List.Forall₂ (AlikeEdits ws ws') ((PendingEdits.ofPushes pushes).of file)
      ((PendingEdits.ofPushes pushes').of file) := by
  rw [PendingEdits.of_ofPushes, PendingEdits.of_ofPushes, List.forall₂_map_left_iff,
    List.forall₂_map_right_iff]
  refine (List.rel_filter (fun push push' hpush => ?_) h).imp fun _ _ hpush => hpush.2
  simp only [hpush.1]

theorem mem_keys_alike {pushes pushes' : List (String × Edit)}
    (h : List.Forall₂ (AlikePushes ws ws') pushes pushes') (file : String) :
    file ∈ (PendingEdits.ofPushes pushes).keys ↔ file ∈ (PendingEdits.ofPushes pushes').keys := by
  have hfiles : pushes.map Prod.fst = pushes'.map Prod.fst := by
    rw [← List.forall₂_eq_eq_eq, List.forall₂_map_left_iff, List.forall₂_map_right_iff]
    exact h.imp fun _ _ hpush => hpush.1
  have hmem (pushes : List (String × Edit)) :
      file ∈ (PendingEdits.ofPushes pushes).keys ↔ file ∈ pushes.map Prod.fst := by
    rw [PendingEdits.mem_keys_ofPushes, List.mem_map]
  rw [hmem, hmem, hfiles]

/-- What is known of a patch that was applied. -/
theorem apply_spec {options : Options} {pending : PendingEdits} {outcome : PatchOutcome}
    (h : apply ws options pending = .ok outcome) :
    (∀ file ∈ pending.keys, ws.Loaded file) ∧
      outcome.unapplied = pending.keys.flatMap (fun file =>
        (selectIn ws options file (pending.of file)).unapplied) ∧
      ∀ file, outcome.files.get? file =
        if file ∈ pending.keys then newText? ws options file (pending.of file) else none := by
  have hloaded : ∀ file ∈ pending.keys, ws.Loaded file := by
    intro file hfile
    obtain ⟨entry, hentry, rfl⟩ := List.mem_map.1 hfile
    exact loaded_of_apply_eq_ok h entry hentry
  obtain ⟨_, hvalue, hspec⟩ := apply_eq_ok ws options pending fun file hfile =>
    Option.isSome_iff_exists.2 (hloaded file hfile)
  rw [h] at hvalue
  cases hvalue
  exact ⟨hloaded, hspec⟩

/-- Two patches leave the same files if their edits say the same up to their order and the first
reports no overlap. -/
theorem files_eq_of_alike {options : Options} {pushes reordered pushes' : List (String × Edit)}
    (hperm : pushes.Perm reordered)
    (halike : List.Forall₂ (AlikePushes ws ws') reordered pushes')
    (htext : ∀ file, ws.Loaded file → ws'.Loaded file → ws.fileText? file = ws'.fileText? file)
    {outcome outcome' : PatchOutcome}
    (happly : apply ws options (.ofPushes pushes) = .ok outcome)
    (happly' : apply ws' options (.ofPushes pushes') = .ok outcome')
    (hno : ∀ entry ∈ outcome.unapplied, ¬entry.IsOverlap) (file : String) :
    outcome'.files.get? file = outcome.files.get? file := by
  obtain ⟨hloaded, hunapplied, hfiles⟩ := apply_spec happly
  obtain ⟨hloaded', -, hfiles'⟩ := apply_spec happly'
  have hkeys : file ∈ (PendingEdits.ofPushes pushes).keys ↔
      file ∈ (PendingEdits.ofPushes pushes').keys :=
    (PendingEdits.keys_ofPushes_perm hperm).mem_iff.trans (mem_keys_alike halike file)
  rw [hfiles, hfiles']
  by_cases hfile : file ∈ (PendingEdits.ofPushes pushes).keys
  · rw [if_pos hfile, if_pos (hkeys.1 hfile)]
    have hedits : ((PendingEdits.ofPushes pushes).of file).Perm
        ((PendingEdits.ofPushes reordered).of file) := by
      rw [PendingEdits.of_ofPushes, PendingEdits.of_ofPushes]
      exact (hperm.filter _).map _
    have hselect := select_perm ws options file _ hedits fun entry hentry => hno entry (by
      rw [hunapplied]
      exact List.mem_flatMap.2 ⟨file, hfile, hentry⟩)
    have hsame := htext file (hloaded file hfile) (hloaded' file (hkeys.1 hfile))
    calc newText? ws' options file ((PendingEdits.ofPushes pushes').of file)
        = newText? ws options file ((PendingEdits.ofPushes reordered).of file) :=
          (newText?_of_alike (of_ofPushes_alike halike file) options hsame).symm
      _ = newText? ws options file ((PendingEdits.ofPushes pushes).of file) :=
          newText?_eq_of_perm hselect.1
  · rw [if_neg hfile, if_neg fun hfile' => hfile (hkeys.2 hfile')]

end Patch

/-! ## Runs that take the first candidate -/

namespace Engine

variable {engine : Engine} {diagnostic : Diagnostic} {ws ws' last last' : Workspace}

/-- The edits of the first candidate for what a classification found. -/
def firstPushes (engine : Engine) (ws : Workspace) : Classification → List (String × Edit)
  | .problem problem _ =>
    (Candidate.all ws engine.options problem).head?.elim [] (Candidate.pushes ws)
  | _ => []

theorem firstPushes_alike (hsnapshot : engine.snapshot.Unanimous) (h : engine.Coherent ws)
    (h' : engine.Coherent ws') {found found' : Classification}
    (hfound : engine.MatchingClassifications found found' ws ws') :
    List.Forall₂ (AlikePushes ws ws') (engine.firstPushes ws found)
      (engine.firstPushes ws' found') := by
  rcases hfound with ⟨problem, problem', _, _, rfl, rfl, hproblem⟩ | ⟨hnone, hnone'⟩
  · have hall := Candidate.all_alike hsnapshot h h' hproblem engine.options
    dsimp only [firstPushes]
    generalize Candidate.all ws engine.options problem = candidates at hall ⊢
    generalize Candidate.all ws' engine.options problem' = candidates' at hall ⊢
    cases hall with
    | nil => exact .nil
    | cons hfirst _ => exact hfirst.pushes
  · have hempty {ws : Workspace} {found : Classification}
        (hnone : ∀ problem suggestions, found ≠ .problem problem suggestions) :
        engine.firstPushes ws found = [] := by
      cases found with
      | problem problem suggestions => exact absurd rfl (hnone problem suggestions)
      | duplicate => rfl
      | unsupported entry => rfl
    rw [hempty hnone, hempty hnone']
    exact .nil

/-- The place of a diagnostic is not noted. -/
def Unnoted (engine : Engine) (ws : Workspace) (diagnostic : Diagnostic) : Prop :=
  ∀ place ∈ engine.place? diagnostic, ¬Noted ws.files place

/-- The edits of the first candidate for a diagnostic that was classified on the way to a workspace,
when its place was not noted yet. -/
def Picks (engine : Engine) (last : Workspace) (diagnostic : Diagnostic)
    (pushes : List (String × Edit)) : Prop :=
  ∃ before found ws, engine.Coherent before ∧ engine.Unnoted before diagnostic ∧
    engine.classifyDiagnostic diagnostic before = .ok found ws ∧ Extends ws last ∧
    pushes = engine.firstPushes ws found

/-- On the way to any workspace the same edits are picked. -/
theorem Picks.alike (hsnapshot : engine.snapshot.Unanimous) {pushes pushes' : List (String × Edit)}
    (h : engine.Picks last diagnostic pushes) (h' : engine.Picks last' diagnostic pushes') :
    List.Forall₂ (AlikePushes last last') pushes pushes' := by
  obtain ⟨before, found, ws, hbefore, hfresh, hrun, hlast, rfl⟩ := h
  obtain ⟨before', found', ws', hbefore', hfresh', hrun', hlast', rfl⟩ := h'
  obtain ⟨habreast, hfound⟩ := classifyDiagnostic_matches hsnapshot hbefore hbefore' hfresh hfresh'
    found found' ws ws' hrun hrun'
  exact (firstPushes_alike hsnapshot habreast.left habreast.right hfound).imp
    fun _ _ hpush => hpush.grow hlast hlast'

end Engine

namespace Run

variable {engine : Engine} {run : Run}

theorem present_takeFirst {resolution : Resolution} (hgoing : resolution.stats.quit = false)
    (ws : Workspace) (problem : Problem) (candidates : List Candidate)
    (suggestions : List Suggestion) :
    Yields (resolution.present Session.takeFirst ws problem candidates suggestions) fun result =>
      result.2.stats.quit = false ∧ result.2.pending =
        resolution.pending.pushEach (candidates.head?.elim [] (Candidate.pushes ws)) := by
  unfold Resolution.present
  rw [if_neg (by simp [hgoing])]
  dsimp only
  cases candidates with
  | nil => exact .map_of_forall _ fun _ => ⟨hgoing, rfl⟩
  | cons candidate rest =>
    have hpushed := resolution.pending.pushAll_eq ws candidate
    exact .pure ⟨hgoing, hpushed⟩

/-- What one diagnostic does to a run. -/
theorem handle_takeFirst (hgoing : run.resolution.stats.quit = false) (diagnostic : Diagnostic) :
    Yields (run.handle engine Session.takeFirst diagnostic) fun result =>
      result.2 = none → result.1.resolution.stats.quit = false ∧
        ∃ found, engine.classifyDiagnostic diagnostic run.workspace = .ok found result.1.workspace ∧
          result.1.resolution.pending =
            run.resolution.pending.pushEach (engine.firstPushes result.1.workspace found) := by
  unfold handle
  cases hrun : engine.classifyDiagnostic diagnostic run.workspace with
  | error failure ws => exact .pure fun h => by cases h
  | ok classification ws =>
    cases classification with
    | duplicate => exact .pure fun _ => ⟨hgoing, _, rfl, rfl⟩
    | unsupported entry => exact .pure fun _ => ⟨hgoing, _, rfl, rfl⟩
    | problem problem suggestions =>
      refine (present_takeFirst hgoing ws problem _ suggestions).bind fun result hresult => ?_
      exact .pure fun _ => ⟨hresult.1, _, rfl, hresult.2⟩

/-- What diagnostics with places of their own do to a run: all are handled, and the edits of the
first candidate for each are chosen. -/
theorem handleAll_takeFirst (hsnapshot : engine.snapshot.Unanimous) {diagnostics : List Diagnostic}
    (hplaces : (diagnostics.filterMap engine.place?).Nodup) (h : engine.Coherent run.workspace)
    (hgoing : run.resolution.stats.quit = false)
    (hfresh : ∀ diagnostic ∈ diagnostics, engine.Unnoted run.workspace diagnostic) :
    Yields (handleAll engine Session.takeFirst diagnostics run) fun result =>
      result.2 = none → engine.Coherent result.1.workspace ∧
        Extends run.workspace result.1.workspace ∧
        ∃ picks, List.Forall₂ (engine.Picks result.1.workspace) diagnostics picks ∧
          result.1.resolution.pending = run.resolution.pending.pushEach picks.flatten := by
  induction diagnostics generalizing run with
  | nil => exact .pure fun _ => ⟨h, .refl _, [], .nil, rfl⟩
  | cons diagnostic rest ih =>
    unfold handleAll
    rw [if_neg (by simp [hgoing])]
    refine (handle_takeFirst hgoing diagnostic).bind fun result hresult => ?_
    obtain ⟨next, failure⟩ := result
    cases failure with
    | some failure => exact .pure fun h => by cases h
    | none =>
      obtain ⟨hgoing', found, hrun, hpending⟩ := hresult rfl
      have hunnoted := hfresh diagnostic List.mem_cons_self
      have hnext := (Engine.classifyDiagnostic_matches hsnapshot h h hunnoted hunnoted
        _ _ _ _ hrun hrun).1
      have hfresh' : ∀ other ∈ rest, engine.Unnoted next.workspace other := by
        intro other hother place hplace hnoted
        rcases Engine.classifyDiagnostic_noted h hunnoted hrun hnoted with hbefore | hown
        · exact hfresh other (List.mem_cons_of_mem _ hother) place hplace hbefore
        · rw [List.filterMap_cons_some hown] at hplaces
          exact (List.nodup_cons.1 hplaces).1 (List.mem_filterMap.2 ⟨other, hother, hplace⟩)
      have hrest := hplaces.sublist ((List.sublist_cons_self diagnostic rest).filterMap _)
      refine (ih hrest hnext.left hgoing' hfresh').imp fun result hlast hnone => ?_
      obtain ⟨hcoherent, hextends, picks, hpicks, hpending'⟩ := hlast hnone
      refine ⟨hcoherent, hnext.grown.trans hextends, _ :: picks,
        .cons ⟨_, found, _, h, hunnoted, hrun, hextends, rfl⟩ hpicks, ?_⟩
      rw [hpending', hpending, List.flatten_cons, PendingEdits.pushEach_append]

end Run

namespace Session

variable {snapshot : Snapshot} {store : Store} {options : Options}
  {diagnostics diagnostics' : List Diagnostic} {report report' : Report}

/-- The edits that a fresh run has chosen. -/
theorem exists_picks (engine : Engine) (hsnapshot : engine.snapshot.Unanimous)
    (hplaces : (diagnostics.filterMap engine.place?).Nodup)
    (h : (((Session.mk engine ∅).run takeFirst diagnostics).run ()).1.1 = .ok report) :
    ∃ last outcome picks, engine.Coherent last ∧
      List.Forall₂ (engine.Picks last) diagnostics picks ∧
      Patch.apply last engine.options (.ofPushes picks.flatten) = .ok outcome ∧
      report.files = outcome.files ∧ report.unapplied = outcome.unapplied := by
  obtain ⟨last, outcome, hhandled, happly, rfl⟩ := exists_handled h
  have hfresh : ∀ diagnostic ∈ diagnostics, engine.Unnoted ∅ diagnostic := by
    intro _ _ _ _ ⟨_, hbuffer, _⟩
    cases hbuffer
  have hyields : Yields (Run.handleAll engine takeFirst diagnostics (.start ∅)) _ :=
    Run.handleAll_takeFirst hsnapshot hplaces (Engine.coherent_empty engine) rfl hfresh
  have hvalue := hyields.value ()
  rw [show ((Run.handleAll engine takeFirst diagnostics (.start ∅)).run ()).1 = (last, none)
    from hhandled] at hvalue
  obtain ⟨hcoherent, -, picks, hpicks, hpending⟩ := hvalue rfl
  refine ⟨last.workspace, outcome, picks, hcoherent, hpicks, ?_, rfl, rfl⟩
  rw [← happly, hpending]
  rfl

/-- The order in which diagnostics come does not matter. If all descriptions of one key agree, and
the diagnostics have sources that begin at different places, then fresh runs in two orders that take
the first candidate of every problem leave the same files, as long as both have a report and the
first one reports no overlap. -/
theorem run_files_eq_of_perm (hsnapshot : snapshot.Unanimous)
    (hplaces : (diagnostics.filterMap (Engine.mk snapshot store options).place?).Nodup)
    (hperm : diagnostics.Perm diagnostics')
    (h : (((new snapshot store options).run takeFirst diagnostics).run ()).1.1 = .ok report)
    (h' : (((new snapshot store options).run takeFirst diagnostics').run ()).1.1 = .ok report')
    (hno : ∀ entry ∈ report.unapplied, ¬entry.IsOverlap) (file : String) :
    report'.files.get? file = report.files.get? file := by
  obtain ⟨last, outcome, picks, hlast, hpicks, happly, hfiles, hunapplied⟩ :=
    exists_picks ⟨snapshot, store, options⟩ hsnapshot hplaces h
  obtain ⟨last', outcome', picks', hlast', hpicks', happly', hfiles', -⟩ :=
    exists_picks ⟨snapshot, store, options⟩ hsnapshot
      ((hperm.filterMap _).nodup_iff.1 hplaces) h'
  obtain ⟨reordered, hreordered, hsame⟩ := List.perm_comp_forall₂ hperm.symm hpicks
  have halike : List.Forall₂ (AlikePushes last last') reordered.flatten picks'.flatten :=
    List.rel_flatten (hreordered.join hpicks' fun _ _ _ hpick hpick' =>
      hpick.alike hsnapshot hpick')
  have htext (file : String) (hloaded : last.Loaded file) (hloaded' : last'.Loaded file) :
      last.fileText? file = last'.fileText? file := by
    obtain ⟨text, htext⟩ := hloaded
    obtain ⟨text', htext'⟩ := hloaded'
    have hread := hlast.readFrom file text htext
    rw [hlast'.readFrom file text' htext'] at hread
    rw [htext, htext', Except.ok.inj hread]
  rw [hfiles, hfiles']
  rw [hunapplied] at hno
  exact Patch.files_eq_of_alike hsame.symm.flatten halike htext happly happly' hno file

/-- A number is assigned to a variable that is declared as a string, and a cat to one that holds a
pet, whose name has another type. -/
def numberAndCat : Snapshot where
  diagnostics := [⟨2322, "a.ts", 16, 1, ""⟩, ⟨2322, "a.ts", 25, 3, ""⟩]
  locations :=
    [{ source := ⟨"a.ts", 16, 17, "5", "number", "NumericLiteral", false, none, none⟩
       target := ⟨"a.ts", 4, 5, "n", "string", "Identifier", false, none,
         some ⟨"a.ts", 7, 13, "string"⟩⟩
       functionName := none },
      { source := ⟨"a.ts", 25, 28, "cat", "Cat", "Identifier", false, none, none⟩
        target := ⟨"a.ts", 19, 22, "pet", "Pet", "Identifier", false, none, none⟩
        functionName := none }]
  shapes := .ofList
    [("Cat", .ofList [("name", ⟨"number", false⟩)]), ("Pet", .ofList [("name", ⟨"string", false⟩)])]
  declarations := [⟨"Pet", "pets.ts", 0, 30, [⟨"name", 16, 20, 22, 28, "string", false⟩], []⟩]
  layers := []

/-- Where the assignments and the pet are written. -/
def numberAndCatFiles : Store :=
  .ofTable (.ofList [("a.ts", "let n: string = 5; pet = cat;"),
    ("pets.ts", "interface Pet \x7b name: string \x7d")])

theorem run_files_eq_of_perm_numberAndCat :
    numberAndCat.Unanimous ∧ (numberAndCat.diagnostics.filterMap
      (Engine.mk numberAndCat numberAndCatFiles .default).place?).Nodup ∧ ∃ report report',
      (((new numberAndCat numberAndCatFiles .default).run takeFirst
        numberAndCat.diagnostics).run ()).1.1 = .ok report ∧
      (((new numberAndCat numberAndCatFiles .default).run takeFirst
        numberAndCat.diagnostics.reverse).run ()).1.1 = .ok report' ∧
      report.unapplied = [] ∧ report.files.entries =
        [("a.ts", "let n: string | number = 5; pet = cat;"),
          ("pets.ts", "interface Pet \x7b name: string | number \x7d")] ∧
      ∀ file, report'.files.get? file = report.files.get? file := by
  have hsnapshot : numberAndCat.Unanimous := by decide +kernel
  have hplaces : (numberAndCat.diagnostics.filterMap
      (Engine.mk numberAndCat numberAndCatFiles .default).place?).Nodup := by
    decide +kernel
  have hcheck : checkReport
      (((new numberAndCat numberAndCatFiles .default).run takeFirst
        numberAndCat.diagnostics).run ()).1.1
      (fun report => decide (report.unapplied = [] ∧ report.files.entries =
        [("a.ts", "let n: string | number = 5; pet = cat;"),
          ("pets.ts", "interface Pet \x7b name: string | number \x7d")])) = true := by
    decide +kernel
  have hcheck' : checkReport
      (((new numberAndCat numberAndCatFiles .default).run takeFirst
        numberAndCat.diagnostics.reverse).run ()).1.1 (fun _ => true) = true := by
    decide +kernel
  obtain ⟨report, hrun, hfacts⟩ := exists_of_checkReport hcheck
  obtain ⟨report', hrun', -⟩ := exists_of_checkReport hcheck'
  obtain ⟨hnone, hfiles⟩ := of_decide_eq_true hfacts
  exact ⟨hsnapshot, hplaces, report, report', hrun, hrun', hnone, hfiles,
    run_files_eq_of_perm hsnapshot hplaces (List.reverse_perm _).symm hrun hrun' (by simp [hnone])⟩

end Session

end TypeMend
