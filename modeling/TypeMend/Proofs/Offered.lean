import TypeMend.Proofs.Classified

/-!
# What is offered and what is chosen

The edits of every candidate name nodes of the workspace, because the problem they are made from
does. Strict evaluation therefore offers the same candidates, shows the same views and collects
the same edits, each under the file of the node that it writes to.
-/
namespace TypeMend

open Workspace

section Optional

variable {α β : Type}

theorem exists_of_mem_mapM {f : α → Option β} {xs : List α} {ys : List β}
    (h : xs.mapM f = some ys) : ∀ y ∈ ys, ∃ x ∈ xs, f x = some y := by
  induction xs generalizing ys with
  | nil =>
    cases h
    simp
  | cons x xs ih =>
    rw [List.mapM_cons] at h
    obtain ⟨y, hy, h⟩ := Option.bind_eq_some_iff.1 h
    obtain ⟨rest, hrest, h⟩ := Option.bind_eq_some_iff.1 h
    cases h
    intro z hz
    rcases List.mem_cons.1 hz with rfl | hz
    · exact ⟨x, List.mem_cons_self, hy⟩
    · obtain ⟨x', hx', hfound⟩ := ih hrest z hz
      exact ⟨x', List.mem_cons_of_mem _ hx', hfound⟩

theorem mapM_eq_some_map {f : α → Option β} {g : α → β} {xs : List α}
    (h : ∀ x ∈ xs, f x = some (g x)) : xs.mapM f = some (xs.map g) := by
  induction xs with
  | nil => rfl
  | cons x xs ih =>
    have hrest := ih fun y hy => h y (List.mem_cons_of_mem _ hy)
    simp [List.mapM_cons, h x List.mem_cons_self, hrest]

theorem foldlM_eq_some_foldl {f : β → α → Option β} {g : β → α → β} {xs : List α}
    (h : ∀ b, ∀ x ∈ xs, f b x = some (g b x)) (b : β) :
    xs.foldlM f b = some (xs.foldl g b) := by
  induction xs generalizing b with
  | nil => rfl
  | cons x xs ih =>
    rw [List.foldlM_cons, h b x List.mem_cons_self]
    exact ih (fun b y hy => h b y (List.mem_cons_of_mem _ hy)) (g b x)

end Optional

theorem PendingEdits.mem_of {pending : PendingEdits} {file : String} {edit : Edit}
    (h : edit ∈ pending.of file) : ∃ edits, (file, edits) ∈ pending.entries ∧ edit ∈ edits := by
  rw [PendingEdits.of] at h
  cases hget : pending.get? file with
  | none => simp [hget] at h
  | some edits =>
    rw [hget] at h
    exact ⟨edits, Table.get?_eq_some_iff.1 hget, h⟩

namespace Workspace

variable {ws ws' : Workspace}

/-- A workspace has the nodes of an edit. -/
structure HoldsEdit (ws : Workspace) (edit : Edit) : Prop where
  prime_lt : edit.prime < ws.nodes.size
  other_lt : ∀ id, edit.other = some id → id < ws.nodes.size

/-- A workspace has the nodes of all edits of a candidate. -/
def HoldsCandidate (ws : Workspace) (candidate : Candidate) : Prop :=
  ∀ edit ∈ candidate.edits, ws.HoldsEdit edit

/-- A workspace has the nodes of all chosen edits, each edit is filed under the file of the node
it writes to, and there is no file without edits. -/
structure HoldsPending (ws : Workspace) (pending : PendingEdits) : Prop where
  edit_held : ∀ file edits, (file, edits) ∈ pending.entries →
    ∀ edit ∈ edits, ws.HoldsEdit edit ∧ (ws.node edit.writtenNode).file = file
  edits_ne : ∀ file edits, (file, edits) ∈ pending.entries → edits ≠ []

theorem HoldsEdit.writtenNode_lt {edit : Edit} (h : ws.HoldsEdit edit) :
    edit.writtenNode < ws.nodes.size := by
  have hother : edit.other.getD edit.prime < ws.nodes.size := by
    cases hsome : edit.other with
    | none => exact h.prime_lt
    | some id => exact h.other_lt id hsome
  unfold Edit.writtenNode
  split
  all_goals first | exact hother | exact h.prime_lt

theorem Extends.holdsEdit (h : Extends ws ws') {edit : Edit} (hedit : ws.HoldsEdit edit) :
    ws'.HoldsEdit edit :=
  ⟨hedit.prime_lt.trans_le h.size_le, fun id hid => (hedit.other_lt id hid).trans_le h.size_le⟩

theorem Extends.holdsPending (h : Extends ws ws') {pending : PendingEdits}
    (hpending : ws.HoldsPending pending) : ws'.HoldsPending pending where
  edit_held file edits hentry edit hedit := by
    obtain ⟨hheld, hfile⟩ := hpending.edit_held file edits hentry edit hedit
    exact ⟨h.holdsEdit hheld, by rw [h.node_eq _ hheld.writtenNode_lt, hfile]⟩
  edits_ne := hpending.edits_ne

theorem holdsPending_empty (ws : Workspace) : ws.HoldsPending ∅ :=
  ⟨fun _ _ h => by simp at h, fun _ _ h => by simp at h⟩

/-- The edits of a file after one more has been pushed. -/
theorem mem_entries_push {pending : PendingEdits} {written file : String} {edit : Edit}
    {edits : List Edit} (h : (file, edits) ∈ (pending.push written edit).entries) :
    (file = written ∧ edits = pending.of written ++ [edit]) ∨ (file, edits) ∈ pending.entries := by
  rw [← Table.get?_eq_some_iff, PendingEdits.push, Table.get?_alter] at h
  split_ifs at h with hfile
  · cases h
    exact .inl ⟨hfile, rfl⟩
  · exact .inr (Table.get?_eq_some_iff.1 h)

theorem holdsPending_push {pending : PendingEdits} (h : ws.HoldsPending pending) {edit : Edit}
    (hedit : ws.HoldsEdit edit) :
    ws.HoldsPending (pending.push (ws.node edit.writtenNode).file edit) where
  edit_held file edits hentry other hother := by
    rcases mem_entries_push hentry with ⟨rfl, rfl⟩ | hold
    · rcases List.mem_append.1 hother with hold | hnew
      · obtain ⟨edits, hentry, hmem⟩ := PendingEdits.mem_of hold
        exact h.edit_held _ edits hentry other hmem
      · rw [List.mem_singleton.1 hnew]
        exact ⟨hedit, rfl⟩
    · exact h.edit_held file edits hold other hother
  edits_ne file edits hentry := by
    rcases mem_entries_push hentry with ⟨_, rfl⟩ | hold
    · simp
    · exact h.edits_ne file edits hold

theorem holdsPending_pushAll {pending : PendingEdits} (h : ws.HoldsPending pending)
    {edits : List Edit} (hedits : ∀ edit ∈ edits, ws.HoldsEdit edit) :
    ws.HoldsPending (pending.pushAll ws edits) := by
  induction edits generalizing pending with
  | nil => exact h
  | cons edit rest ih =>
    exact ih (holdsPending_push h (hedits edit List.mem_cons_self))
      fun other hother => hedits other (List.mem_cons_of_mem _ hother)

/-! ## Candidates name nodes that are there -/

variable {outside : String → Prop}

theorem Sound.written_lt (hs : Sound outside ws) {id written : NodeId} (hid : id < ws.nodes.size)
    (h : (ws.node id).declaration = some written) : written < ws.nodes.size :=
  (hs.node_admitted id hid).written_lt written h

theorem holdsCandidate_single {prompt : String} {edits : List Edit}
    (h : ∀ edit ∈ edits, ws.HoldsEdit edit) :
    ∀ candidate ∈ Candidate.single prompt edits, ws.HoldsCandidate candidate := by
  intro candidate hcandidate
  unfold Candidate.single at hcandidate
  split_ifs at hcandidate
  · simp at hcandidate
  · rw [List.mem_singleton.1 hcandidate]
    exact h

theorem holdsCandidate_forMismatch (hs : Sound outside ws) {source target : NodeId}
    (hsource : source < ws.nodes.size) (htarget : target < ws.nodes.size) (suffix : String) :
    ∀ candidate ∈ Candidate.forMismatch ws suffix source target, ws.HoldsCandidate candidate := by
  intro candidate hcandidate edit hedit
  rcases List.mem_append.1 hcandidate with hconvert | hwiden
  · obtain ⟨written, hwritten, rfl⟩ := List.mem_map.1 hconvert
    rw [List.mem_singleton.1 hedit]
    refine ⟨htarget, fun id hid => ?_⟩
    cases hid
    exact hs.written_lt hsource (Option.mem_toList.1 hwritten)
  · obtain ⟨written, hwritten, rfl⟩ := List.mem_map.1 hwiden
    rw [List.mem_singleton.1 hedit]
    refine ⟨hs.written_lt htarget (Option.mem_toList.1 hwritten), fun id hid => ?_⟩
    cases hid
    exact hsource

theorem holdsCandidate_outermost (hs : Sound outside ws) {outer : Layer}
    (houter : ws.HoldsLayer outer) (suffix : String) :
    ∀ candidate ∈ Candidate.outermost ws suffix outer, ws.HoldsCandidate candidate := by
  intro candidate hcandidate edit hedit
  unfold Candidate.outermost at hcandidate
  split_ifs at hcandidate
  · obtain ⟨written, hwritten, rfl⟩ := List.mem_map.1 hcandidate
    rw [List.mem_singleton.1 hedit]
    refine ⟨houter.source_lt, fun id hid => ?_⟩
    cases hid
    exact hs.written_lt houter.target_lt (Option.mem_toList.1 hwritten)
  · simp at hcandidate

section Object

variable {problem : Problem} (hproblem : ws.HoldsProblem problem)
include hproblem

theorem head?_stack : problem.stack.head? = some problem.outerLayer := by
  unfold Problem.outerLayer
  cases hstack : problem.stack with
  | nil => exact absurd hstack hproblem.stack_ne
  | cons outer rest => rfl

theorem outerLayer_held : ws.HoldsLayer problem.outerLayer :=
  hproblem.layer_held _ (List.mem_of_mem_head? (head?_stack hproblem))

theorem declaration_node_lt (hs : Sound outside ws) {declaration : DeclarationEntry}
    (h : problem.declaration? ws = some declaration) : declaration.node < ws.nodes.size := by
  obtain ⟨id, hid, rfl⟩ := Option.map_eq_some_iff.1 h
  exact hs.entry_lt id (hproblem.target_declared id hid)

theorem carrier_lt {carrier : NodeId} (h : carrier ∈ problem.sourceProperties.values) :
    carrier < ws.nodes.size := by
  obtain ⟨⟨key, value⟩, hentry, rfl⟩ := List.mem_map.1 h
  exact hproblem.property_lt key value (Table.get?_eq_some_iff.2 hentry)

theorem missingCarriers_lt : ∀ id ∈ problem.missingCarriers, id < ws.nodes.size := by
  intro id hid
  obtain ⟨key, _, hkey⟩ := List.mem_filterMap.1 hid
  exact hproblem.property_lt key id hkey

theorem holdsEdit_insertEdits {declaration : DeclarationEntry}
    (hdeclaration : declaration.node < ws.nodes.size) :
    ∀ edit ∈ problem.insertEdits declaration, ws.HoldsEdit edit := by
  intro edit hedit
  obtain ⟨carrier, hcarrier, rfl⟩ := List.mem_map.1 hedit
  refine ⟨missingCarriers_lt hproblem carrier hcarrier, fun id hid => ?_⟩
  cases hid
  exact hdeclaration

theorem holdsEdit_unionEdits? {edits : List Edit} (h : problem.unionEdits? = some edits) :
    ∀ edit ∈ edits, ws.HoldsEdit edit := by
  intro edit hedit
  obtain ⟨key, _, hkey⟩ := exists_of_mem_mapM h edit hedit
  obtain ⟨member, hmember, hkey⟩ := Option.bind_eq_some_iff.1 hkey
  obtain ⟨carrier, hcarrier, hkey⟩ := Option.bind_eq_some_iff.1 hkey
  cases hkey
  refine ⟨(hproblem.member_held key member hmember).typeNode_lt, fun id hid => ?_⟩
  cases hid
  exact hproblem.property_lt key carrier hcarrier

theorem holdsEdit_optionalEdits? {edits : List Edit} (h : problem.optionalEdits? = some edits) :
    ∀ edit ∈ edits, ws.HoldsEdit edit := by
  intro edit hedit
  obtain ⟨key, _, hkey⟩ := exists_of_mem_mapM h edit hedit
  obtain ⟨member, hmember, hkey⟩ := Option.bind_eq_some_iff.1 hkey
  cases hkey
  exact ⟨(hproblem.member_held key member hmember).nameNode_lt, fun id hid => by cases hid⟩

theorem holdsCandidate_forObject {declaration : DeclarationEntry}
    (hdeclaration : declaration.node < ws.nodes.size) (suffix widened required added : String) :
    ∀ candidate ∈ Candidate.forObject suffix problem declaration widened required added,
      ws.HoldsCandidate candidate := by
  have hinserts := holdsEdit_insertEdits hproblem hdeclaration
  have happend {edits : List Edit} (hedits : ∀ edit ∈ edits, ws.HoldsEdit edit) :
      ∀ edit ∈ edits ++ problem.insertEdits declaration, ws.HoldsEdit edit :=
    fun edit h => (List.mem_append.1 h).elim (hedits edit) (hinserts edit)
  have hnone : ∀ candidate ∈ ([] : List Candidate), ws.HoldsCandidate candidate := by simp
  unfold Candidate.forObject
  cases problem.kind with
  | propMismatch =>
    cases hunions : problem.unionEdits? with
    | none => exact hnone
    | some unions => exact holdsCandidate_single (holdsEdit_unionEdits? hproblem hunions)
  | targetPropMissing => exact holdsCandidate_single hinserts
  | bothMissing =>
    cases hoptionals : problem.optionalEdits? with
    | none => exact hnone
    | some optionals =>
      exact holdsCandidate_single (happend (holdsEdit_optionalEdits? hproblem hoptionals))
  | both =>
    cases hunions : problem.unionEdits? with
    | none => exact hnone
    | some unions => exact holdsCandidate_single (happend (holdsEdit_unionEdits? hproblem hunions))
  | mismatch => exact hnone
  | simpleToObject => exact hnone
  | objectToSimple => exact hnone

theorem holdsCandidate_forPlaceholder (hs : Sound outside ws) {declaration : DeclarationEntry}
    (hdeclaration : declaration.node < ws.nodes.size) (suffix : String) :
    ∀ candidate ∈ Candidate.forPlaceholder ws suffix problem declaration,
      ws.HoldsCandidate candidate := by
  unfold Candidate.forPlaceholder
  split_ifs
  · exact holdsCandidate_forMismatch hs hproblem.source_lt hproblem.target_lt suffix
  · cases hvalues : problem.sourceProperties.values with
    | nil => simp
    | cons carrier rest =>
      have hcarrier := carrier_lt hproblem (by simp [hvalues] : carrier ∈ _)
      have hedit (kind : EditKind) : ws.HoldsEdit ⟨kind, carrier, some declaration.node⟩ := by
        refine ⟨hcarrier, fun id hid => ?_⟩
        cases hid
        exact hdeclaration
      unfold Candidate.addition
      dsimp only
      split_ifs
      all_goals
        refine holdsCandidate_single fun edit h => ?_
        rw [List.mem_singleton.1 h]
        exact hedit _

/-- Every edit that is offered for a problem names nodes that are there. -/
theorem holdsCandidate_all (hs : Sound outside ws) (options : Options) :
    ∀ candidate ∈ Candidate.all ws options problem, ws.HoldsCandidate candidate := by
  have hnone : ∀ candidate ∈ ([] : List Candidate), ws.HoldsCandidate candidate := by simp
  unfold Candidate.all
  dsimp only
  split_ifs
  · cases hdeclaration : problem.declaration? ws with
    | none => exact hnone
    | some declaration =>
      exact holdsCandidate_forPlaceholder hproblem hs
        (declaration_node_lt hproblem hs hdeclaration) _
  · intro candidate hcandidate
    rcases List.mem_append.1 hcandidate with h | h
    · exact holdsCandidate_forMismatch hs hproblem.source_lt hproblem.target_lt _ candidate h
    · exact holdsCandidate_outermost hs (outerLayer_held hproblem) _ candidate h
  · rw [List.append_nil]
    exact holdsCandidate_forMismatch hs hproblem.source_lt hproblem.target_lt _
  · cases hdeclaration : problem.declaration? ws with
    | none => exact hnone
    | some declaration =>
      exact holdsCandidate_forObject hproblem (declaration_node_lt hproblem hs hdeclaration) _ _ _ _

end Object

end Workspace

namespace Strict

variable {ws : Workspace} {outside : String → Prop}

/-! ## Strict evaluation offers the same -/

theorem mapM_written_eq (hs : Sound outside ws) {id : NodeId} (hid : id < ws.nodes.size)
    (offer : Node → NodeId → Candidate) :
    ((ws.node id).declaration.toList.mapM fun written =>
        (node? ws written).map fun declared => offer declared written) =
      some ((ws.node id).declaration.toList.map fun written => offer (ws.node written) written) :=
  mapM_eq_some_map fun written hwritten => by
    rw [node?_eq (hs.written_lt hid (Option.mem_toList.1 hwritten)), Option.map_some]

theorem forMismatch_eq (hs : Sound outside ws) {source target : NodeId}
    (hsource : source < ws.nodes.size) (htarget : target < ws.nodes.size) (suffix : String) :
    forMismatch ws suffix source target = some (Candidate.forMismatch ws suffix source target) := by
  unfold forMismatch
  rw [node?_eq hsource, node?_eq htarget]
  simp only [Option.bind_eq_bind, Option.bind_some]
  rw [mapM_written_eq hs htarget]
  rfl

theorem outermost_eq (hs : Sound outside ws) {stack : List Layer} {outer : Layer}
    (hhead : stack.head? = some outer) (houter : ws.HoldsLayer outer) (suffix : String) :
    outermost ws suffix stack = some (Candidate.outermost ws suffix outer) := by
  unfold outermost Candidate.outermost
  rw [hhead]
  simp only [Option.bind_eq_bind, Option.bind_some]
  split_ifs
  · rw [node?_eq houter.source_lt, node?_eq houter.target_lt]
    simp only [Option.bind_some]
    rw [mapM_written_eq hs houter.target_lt]
  · rfl

section Problem

variable {problem : Problem} (hproblem : ws.HoldsProblem problem)
include hproblem

theorem forPlaceholder_eq (hs : Sound outside ws) (suffix : String)
    (declaration : DeclarationEntry) :
    forPlaceholder ws suffix problem declaration =
      some (Candidate.forPlaceholder ws suffix problem declaration) := by
  unfold forPlaceholder Candidate.forPlaceholder
  split_ifs
  · exact forMismatch_eq hs hproblem.source_lt hproblem.target_lt suffix
  · cases hvalues : problem.sourceProperties.values with
    | nil => rfl
    | cons carrier rest =>
      have hcarrier := carrier_lt hproblem (by simp [hvalues] : carrier ∈ _)
      simp only [node?_eq hcarrier, Option.map_some]

theorem memberList_eq (declaration : DeclarationEntry) (keys : List String) :
    memberList ws problem declaration keys = some (problem.memberList declaration ws keys) := by
  have hlabels : (keys.mapM fun key =>
      ((problem.targetMembers.get? key).mapM fun member => declaration? ws member.owner).map
        (Problem.memberLabel declaration key)) =
      some (keys.map fun key => Problem.memberLabel declaration key <|
        (problem.targetMembers.get? key).map fun member => ws.declaration member.owner) := by
    refine mapM_eq_some_map fun key _ => ?_
    cases hmember : problem.targetMembers.get? key with
    | none => rfl
    | some member => simp [declaration?_eq (hproblem.member_held key member hmember).owner_lt]
  rw [memberList, hlabels]
  rfl

theorem propertyList_eq : propertyList ws problem = some (problem.propertyList ws) := by
  have hnodes : problem.missingCarriers.mapM (node? ws) =
      some (problem.missingCarriers.map ws.node) :=
    mapM_eq_some_map fun id hid => node?_eq (missingCarriers_lt hproblem id hid)
  rw [propertyList, hnodes]
  simp only [Option.bind_eq_bind, Option.bind_some, List.map_map]
  rfl

theorem candidates_eq (hs : Sound outside ws) (options : Options) :
    candidates ws options problem = some (Candidate.all ws options problem) := by
  unfold candidates Candidate.all
  rw [node?_eq hproblem.source_lt, mapM_declaration?_eq hproblem.target_declared]
  have hsame : (ws.node problem.source).isPlaceholder = problem.isPlaceholder ws := rfl
  simp only [Option.bind_eq_bind, Option.bind_some, hsame, Problem.declaration?]
  by_cases hplaceholder : problem.isPlaceholder ws = true
  · rw [if_pos hplaceholder, if_pos hplaceholder]
    cases problem.targetDeclaration.map ws.declaration with
    | none => rfl
    | some declaration => exact forPlaceholder_eq hproblem hs _ declaration
  rw [if_neg hplaceholder, if_neg hplaceholder]
  by_cases hkind : problem.kind = .mismatch
  · rw [if_pos hkind, if_pos hkind, forMismatch_eq hs hproblem.source_lt hproblem.target_lt]
    cases options.outerCandidates with
    | true =>
      rw [if_pos rfl, outermost_eq hs (head?_stack hproblem) (outerLayer_held hproblem)]
      rfl
    | false => rfl
  · rw [if_neg hkind, if_neg hkind]
    cases problem.targetDeclaration.map ws.declaration with
    | none => rfl
    | some declaration =>
      simp only [forObject, memberList_eq hproblem, propertyList_eq hproblem]
      rfl

end Problem

theorem pushAll_eq {edits : List Edit} (hedits : ∀ edit ∈ edits, ws.HoldsEdit edit)
    (pending : PendingEdits) : pushAll ws pending edits = some (pending.pushAll ws edits) :=
  foldlM_eq_some_foldl (fun _ edit hedit => by
    rw [node?_eq (hedits edit hedit).writtenNode_lt, Option.map_some]) pending

theorem settle_eq {candidates : List Candidate}
    (hcandidates : ∀ candidate ∈ candidates, ws.HoldsCandidate candidate)
    (resolution : Resolution) (decision : Decision) :
    settle ws candidates resolution decision = some (resolution.settle ws candidates decision) := by
  cases decision with
  | skip => rfl
  | quit => rfl
  | select index =>
    simp only [settle, Resolution.settle]
    cases hindex : candidates[index]? with
    | none => rfl
    | some candidate =>
      have hedits := hcandidates candidate (List.mem_of_getElem? hindex)
      simp only [pushAll_eq hedits, Option.map_some]

theorem view_eq {problem : Problem} (hproblem : ws.HoldsProblem problem) (index : Nat)
    (candidates : List Candidate) (suggestions : List Suggestion) :
    view ws index problem candidates suggestions =
      some (.of ws index problem (ws.node problem.source) (ws.node problem.target) candidates
        suggestions) := by
  rw [view, node?_eq hproblem.source_lt, node?_eq hproblem.target_lt]
  rfl

theorem present_eq {m : Type → Type} [Monad m] [LawfulMonad m] (presenter : Presenter m)
    {problem : Problem} (hproblem : ws.HoldsProblem problem) {candidates : List Candidate}
    (hcandidates : ∀ candidate ∈ candidates, ws.HoldsCandidate candidate)
    (suggestions : List Suggestion) (resolution : Resolution) :
    present presenter ws problem candidates suggestions resolution =
      some <$> resolution.present presenter ws problem candidates suggestions := by
  unfold present Resolution.present
  split_ifs
  · simp
  · simp [view_eq hproblem]
  · simp [view_eq hproblem, settle_eq hcandidates]

end Strict

end TypeMend
