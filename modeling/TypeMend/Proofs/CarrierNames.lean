import TypeMend.Proofs.Contributions
import TypeMend.Proofs.Coverage
import TypeMend.Proofs.Descriptions
import TypeMend.Proofs.InsertionPoint

/-!
# The names of carriers

A property that is to be inserted is carried by a node: the name of a member that the declaration of
the source writes, or a node that was made for it. A node that was made has the key of the property
as its text. The name of a member is shared with whatever else lies in its range, so that its text
is the key if the snapshot gives every range one text. Then no candidate inserts two members of one
name, since the keys of a comparison differ.
-/
namespace TypeMend

open Workspace

/-- All descriptions of one key agree on its text. -/
def Snapshot.SameTexts (snapshot : Snapshot) : Prop :=
  ∀ one ∈ snapshot.descriptions, ∀ other ∈ snapshot.descriptions,
    one.key = other.key → one.text = other.text

instance (snapshot : Snapshot) : Decidable snapshot.SameTexts :=
  inferInstanceAs (Decidable (∀ one ∈ snapshot.descriptions, ∀ other ∈ snapshot.descriptions,
    one.key = other.key → one.text = other.text))

namespace Workspace

variable {snapshot : Snapshot} {ws ws' : Workspace} {key : String} {id : NodeId}

/-- A node has a key as its text, or is shared with the name of a member that has the key. -/
def Carries (snapshot : Snapshot) (ws : Workspace) (key : String) (id : NodeId) : Prop :=
  (id < ws.nodes.size ∧ (ws.node id).text = key) ∨
    ∃ declaration ∈ snapshot.declarations, ∃ member ∈ declaration.members, member.name = key ∧
      ws.index.get? (Description.ofMember declaration.file member).key = some id

theorem Extends.carries (h : Extends ws ws') (hcarries : ws.Carries snapshot key id) :
    ws'.Carries snapshot key id := by
  rcases hcarries with ⟨hlt, htext⟩ | ⟨declaration, hdeclaration, member, hmember, hname, hid⟩
  · exact .inl ⟨hlt.trans_le h.size_le, by rw [h.node_eq id hlt, htext]⟩
  · exact .inr ⟨declaration, hdeclaration, member, hmember, hname, h.index_eq _ _ hid⟩

/-- In a workspace that shows what is described, a carrier has its key as text. -/
theorem Carries.text_eq (h : ws.Carries snapshot key id) (hsnapshot : snapshot.SameTexts)
    (hd : Depicted snapshot ws) : (ws.node id).text = key := by
  rcases h with ⟨-, htext⟩ | ⟨declaration, hdeclaration, member, hmember, rfl, hid⟩
  · exact htext
  · obtain ⟨description, written, hshows⟩ := hd _ _ hid
    have hmem : Description.ofMember declaration.file member ∈ snapshot.descriptions :=
      Snapshot.descriptions_of_declaration hdeclaration
        (List.mem_cons_of_mem _ (List.mem_flatMap.2 ⟨member, hmember, by simp⟩))
    rw [hshows.node_eq]
    exact hsnapshot _ hshows.mem _ hmem hshows.key_eq

/-- The members of a registered declaration carry their keys. -/
theorem Stands.carries {declaration : Declaration} {number : DeclId}
    (h : Stands snapshot ws declaration number) {member : Member}
    (hmember : (ws.declaration number).members.get? key = some member) :
    ws.Carries snapshot key member.nameNode := by
  obtain ⟨written, hlast, hwrites⟩ := h.lists.exists_writes hmember
  have hmem : written ∈ declaration.members :=
    List.mem_reverse.1 (List.mem_of_find?_eq_some hlast)
  have hname : written.name = key := by simpa using List.find?_some hlast
  exact .inr ⟨declaration, Snapshot.mem_of_declarationOf? h.named, written, hmem, hname,
    hwrites.nameNode_eq⟩

end Workspace

namespace Engine

variable {engine : Engine} {ws ws' : Workspace} {pair : NodePair} {problem : Problem}
  {diagnostic : Diagnostic}

/-- Every carrier of a problem carries its key. -/
def CarriesKeys (engine : Engine) (ws : Workspace) (problem : Problem) : Prop :=
  ∀ key id, problem.sourceProperties.get? key = some id → ws.Carries engine.snapshot key id

/-! ## Classification -/

theorem sourceCarriers_carries {declaration : Option DeclId}
    (hdeclaration : ∀ number ∈ declaration, ∃ found, Stands engine.snapshot ws found number)
    (shape : Shape) (keys : List String) {carriers : Table String NodeId}
    (hcarriers : ∀ key id, carriers.get? key = some id → ws.Carries engine.snapshot key id)
    {key : String} {id : NodeId}
    (hid : (sourceCarriers pair shape declaration keys carriers ws).1.get? key = some id) :
    (sourceCarriers pair shape declaration keys carriers ws).2.Carries engine.snapshot key id := by
  induction keys generalizing ws carriers with
  | nil => exact hcarriers key id hid
  | cons first rest ih =>
    have hinsert {v : Workspace} {number : NodeId}
        (hold : ∀ key id, carriers.get? key = some id → v.Carries engine.snapshot key id)
        (hnew : v.Carries engine.snapshot first number) (other : String) (node : NodeId)
        (hnode : (carriers.insert first number).get? other = some node) :
        v.Carries engine.snapshot other node := by
      rw [Table.get?_insert] at hnode
      split_ifs at hnode with heq
      · cases hnode
        exact heq ▸ hnew
      · exact hold other node hnode
    unfold sourceCarriers at hid ⊢
    cases hfound : declaration.bind fun number => (ws.declaration number).members.get? first with
    | some member =>
      rw [hfound] at hid
      obtain ⟨number, hnumber, hmember⟩ := Option.bind_eq_some_iff.1 hfound
      obtain ⟨found, hstands⟩ := hdeclaration number hnumber
      exact ih hdeclaration (hinsert hcarriers (hstands.carries hmember)) hid
    | none =>
      rw [hfound] at hid
      have hadded : Evolves engine.anywhere ws
          (ws.addDetached (sourceCarrier pair.source shape first)).2 :=
        (addDetached_spec (admits_of_unwritten rfl (.inr trivial))).1
      have hextends := hadded.extends
      have hnew : (ws.addDetached (sourceCarrier pair.source shape first)).2.Carries
          engine.snapshot first ws.nodes.size :=
        .inl ⟨by simp [addDetached],
          congrArg Node.text (getD_push_of_ge _ _ _ le_rfl (by simp))⟩
      refine ih (fun number hnumber => ?_) (hinsert (fun key id h => ?_) hnew) hid
      · obtain ⟨found, hstands⟩ := hdeclaration number hnumber
        exact ⟨found, hextends.stands hstands⟩
      · exact hextends.carries (hcarriers key id h)

theorem sourceCarriers_runs (h : engine.Consistent ws) {declaration : Option DeclId}
    (hdeclaration : ∀ number ∈ declaration, ∃ found, Stands engine.snapshot ws found number)
    (shape : Shape) (keys : List String) :
    Runs engine.anywhere (modifyGet (sourceCarriers pair shape declaration keys ∅)) ws
      fun carriers ws' => ∀ key id, carriers.get? key = some id →
        ws'.Carries engine.snapshot key id := by
  refine (sourceCarriers_finds h shape declaration keys ∅).imp
    fun carriers ws' hrun _ _ key id hid => ?_
  cases hrun
  exact sourceCarriers_carries hdeclaration shape keys (fun _ _ h => by cases h) hid

theorem classifyObjects_carries (h : engine.Consistent ws) (source target : Shape)
    (problem : Problem) :
    Runs engine.anywhere (engine.classifyObjects pair source target problem) ws fun result ws' =>
      ∀ found suggestions, result = some (.problem found suggestions) →
        found.kind.isStructural = true → engine.CarriesKeys ws' found := by
  unfold classifyObjects
  dsimp only
  cases ProblemKind.ofComparison? (source.compare TypeText.assignable target) with
  | none => exact .pure fun _ _ h => by cases h
  | some kind =>
    dsimp only
    refine (resolve_finds h.sound h.faithful _).bind fun sourceDeclaration ws₁ h₁ hdeclared => ?_
    have hc₁ := h.evolves h₁
    refine (resolve_finds hc₁.sound hc₁.faithful _).bind
      fun targetDeclaration ws₂ h₂ hdeclared' => ?_
    have hc₂ := hc₁.evolves h₂
    have hstands : ∀ number ∈ sourceDeclaration,
        ∃ found, Stands engine.snapshot ws₂ found number := by
      intro number hnumber
      cases hnumber
      obtain ⟨found, -, hfound⟩ := hdeclared.of_right
      exact ⟨found, h₂.extends.stands hfound⟩
    refine (sourceCarriers_runs hc₂ hstands source _).bind fun carriers ws₃ h₃ hcarriers => ?_
    have hdeclared₃ := hdeclared'.imp fun _ _ => h₃.extends.stands
    refine (declaredMembers_finds (hc₂.evolves h₃) hdeclared₃ _).bind fun members ws₄ h₄ _ => ?_
    refine (narrow_cases target _).bind fun result ws₅ h₅ hresult => .pure ?_
    intro found suggestions heq hstructural
    cases heq
    rcases hresult with ⟨-, _, _, rfl⟩ | ⟨rfl, -⟩
    · cases hstructural
    · exact fun key id hid => (h₄.trans h₅).extends.carries (hcarriers key id hid)

theorem classifyValues_carries (h : engine.Consistent ws) (hkind : problem.kind = .mismatch) :
    Runs engine.anywhere (engine.classifyValues pair problem) ws fun result ws' =>
      ∀ found suggestions, result = some (.problem found suggestions) →
        found.kind.isStructural = true → engine.CarriesKeys ws' found := by
  have hother {found : Problem} (hnot : found.kind.isStructural = false)
      (advice : List Suggestion) :
      Runs engine.anywhere (pure (some (Classification.problem found advice))) ws fun result ws' =>
        ∀ found suggestions, result = some (Classification.problem found suggestions) →
          found.kind.isStructural = true → engine.CarriesKeys ws' found := by
    refine .pure fun other suggestions heq hstructural => ?_
    cases heq
    rw [hnot] at hstructural
    cases hstructural
  unfold classifyValues
  cases engine.snapshot.shapeOf? pair.source.typeText with
  | none =>
    cases engine.snapshot.shapeOf? pair.target.typeText with
    | none => exact hother (by rw [hkind]; rfl) _
    | some target => exact hother rfl _
  | some source =>
    cases engine.snapshot.shapeOf? pair.target.typeText with
    | none => exact hother rfl _
    | some target => exact classifyObjects_carries h source target problem

theorem classify_carries (h : engine.Consistent ws) (code : UInt32)
    (hplain : pair.source.placeholder = none) :
    Runs engine.anywhere (engine.classify code pair) ws fun classification ws' =>
      ∀ problem suggestions, classification = .problem problem suggestions →
        problem.kind.isStructural = true → engine.CarriesKeys ws' problem := by
  unfold classify
  dsimp only
  cases Family.ofCode? code with
  | none => exact .pure fun _ _ h => by cases h
  | some family =>
    refine (ensureFile_runs _).bind fun _ ws₁ h₁ _ => ?_
    have hc₁ := h.evolves h₁
    refine (internOuter_shows hc₁ _).bind fun outer ws₂ h₂ _ => ?_
    have hc₂ := hc₁.evolves h₂
    refine (internLayer_shows hc₂ _ pair).bind fun inner ws₃ h₃ _ => ?_
    rw [hplain]
    dsimp only
    split_ifs
    · exact .pure fun _ _ h => by cases h
    · refine (classifyValues_carries (hc₂.evolves h₃) rfl).bind fun result ws₄ h₄ hresult => ?_
      exact .pure fun problem suggestions heq =>
        hresult problem suggestions (Classification.eq_some_of_getD heq)

/-- A problem of a diagnostic says what the snapshot says of its pair, and its carriers carry their
keys unless the pair is about a placeholder. -/
theorem exists_explains (h : engine.Consistent ws) {suggestions : List Suggestion}
    (hrun : engine.classifyDiagnostic diagnostic ws = .ok (.problem problem suggestions) ws') :
    ∃ pair, engine.Explains pair ws' problem ∧
      (pair.source.placeholder = none → problem.kind.isStructural = true →
        engine.CarriesKeys ws' problem) := by
  unfold classifyDiagnostic at hrun
  cases hpair : engine.snapshot.locate? diagnostic.file diagnostic.start with
  | none =>
    rw [hpair] at hrun
    cases hrun
  | some pair =>
    rw [hpair] at hrun
    obtain ⟨_, ws₁, hensure, hrest⟩ := ok_of_bind_eq_ok hrun
    obtain ⟨fresh, ws₂, hmark, hclassify⟩ := ok_of_bind_eq_ok hrest
    have hensured : Runs engine.anywhere (ensureFile engine.store pair.source.file) ws _ :=
      ensureFile_runs _
    have hc₁ := h.evolves (hensured.of_ok hensure).1
    cases hmark
    have hc₂ := hc₁.evolves (markProcessed_evolves pair.source.file pair.source.start.toNat)
    split_ifs at hclassify
    · refine ⟨pair, ((classify_finds hc₂ _ pair).of_ok hclassify).2 _ _ rfl, fun hplain => ?_⟩
      exact ((classify_carries hc₂ _ hplain).of_ok hclassify).2 _ _ rfl
    · cases hclassify

end Engine

/-! ## Candidates -/

/-- A member that is inserted, with the node of the declaration that it goes into. -/
structure InsertedMember where
  declaration : NodeId
  name : String
  signature : String
  deriving DecidableEq

def Edit.inserted? (ws : Workspace) (edit : Edit) : Option InsertedMember :=
  match edit.other, edit.kind.signature? (ws.node edit.prime) with
  | some declaration, some signature => some ⟨declaration, (ws.node edit.prime).text, signature⟩
  | _, _ => none

/-- The names of the members that edits insert. -/
def Edit.insertedNames (ws : Workspace) (edits : List Edit) : List String :=
  (edits.filterMap (Edit.inserted? ws)).map InsertedMember.name

namespace Candidate

/-- A candidate has one edit, unless it mends an object type in its declaration. -/
theorem length_edits_or {ws : Workspace} {options : Options} {problem : Problem}
    {candidate : Candidate} (h : candidate ∈ all ws options problem) :
    candidate.edits.length = 1 ∨
      problem.isPlaceholder ws = false ∧ problem.kind.isStructural = true := by
  have hmismatch {source target : NodeId} {suffix : String}
      (hmem : candidate ∈ forMismatch ws suffix source target) : candidate.edits.length = 1 := by
    rcases List.mem_append.1 hmem with hmem | hmem
    · obtain ⟨written, -, rfl⟩ := List.mem_map.1 hmem
      rfl
    · obtain ⟨written, -, rfl⟩ := List.mem_map.1 hmem
      rfl
  have houtermost {outer : Layer} {suffix : String}
      (hmem : candidate ∈ outermost ws suffix outer) : candidate.edits.length = 1 := by
    unfold outermost at hmem
    split_ifs at hmem
    · obtain ⟨written, -, rfl⟩ := List.mem_map.1 hmem
      rfl
    · cases hmem
  have hsingle {prompt : String} {edit : Edit} (hmem : candidate ∈ single prompt [edit]) :
      candidate.edits.length = 1 := by
    rw [single_eq prompt (List.cons_ne_nil _ _), List.mem_singleton] at hmem
    rw [hmem]
    rfl
  unfold all at h
  dsimp only at h
  split_ifs at h with hplaceholder hkind houter
  · left
    cases hdeclaration : problem.declaration? ws with
    | none =>
      rw [hdeclaration] at h
      cases h
    | some declaration =>
      rw [hdeclaration] at h
      dsimp only [forPlaceholder] at h
      split_ifs at h
      · exact hmismatch h
      · split at h
        · cases h
        · unfold addition at h
          split_ifs at h
          · exact hsingle h
          · exact hsingle h
  · exact .inl ((List.mem_append.1 h).elim hmismatch houtermost)
  · exact .inl (hmismatch (by simpa using h))
  · refine .inr ⟨Bool.eq_false_of_not_eq_true hplaceholder, ?_⟩
    cases hdeclaration : problem.declaration? ws with
    | none =>
      rw [hdeclaration] at h
      cases h
    | some declaration =>
      rw [hdeclaration] at h
      dsimp only [forObject] at h
      cases hcases : problem.kind with
      | propMismatch => rfl
      | targetPropMissing => rfl
      | bothMissing => rfl
      | both => rfl
      | mismatch => exact absurd hcases hkind
      | simpleToObject =>
        rw [hcases] at h
        cases h
      | objectToSimple =>
        rw [hcases] at h
        cases h

end Candidate

/-- Rewriting a member inserts none. -/
theorem Problem.Rewrites.inserted?_eq_none {problem : Problem} {key : String} {edit : Edit}
    (h : problem.Rewrites key edit) (ws : Workspace) : edit.inserted? ws = none := by
  unfold Rewrites at h
  split at h
  · obtain ⟨member, -, rfl⟩ := h
    rfl
  · obtain ⟨member, carrier, -, -, rfl⟩ := h
    rfl

namespace Engine

variable {engine : Engine} {ws ws' : Workspace} {pair : NodePair} {problem : Problem}
  {diagnostic : Diagnostic}

/-- What covers the keys of a problem inserts members that are named after them. -/
theorem CarriesKeys.insertedNames_eq (h : engine.CarriesKeys ws problem)
    (hsnapshot : engine.snapshot.SameTexts) (hextends : Extends ws ws')
    (hd : Depicted engine.snapshot ws') {declaration : DeclarationEntry} {edits : List Edit}
    (hcovers : problem.Covers declaration edits) :
    Edit.insertedNames ws' edits = problem.insertedKeys := by
  obtain ⟨rewrites, inserts, rfl, hrewrites, hinserts⟩ := hcovers
  have hnone : rewrites.filterMap (Edit.inserted? ws') = [] := by
    generalize problem.rewrittenKeys = keys at hrewrites
    induction hrewrites with
    | nil => rfl
    | cons hfirst _ ih => rw [List.filterMap_cons_none (hfirst.inserted?_eq_none ws'), ih]
  rw [Edit.insertedNames, List.filterMap_append, hnone, List.nil_append]
  generalize problem.insertedKeys = keys at hinserts
  induction hinserts with
  | nil => rfl
  | @cons key edit keys inserts hinsert _ ih =>
    obtain ⟨carrier, hcarrier, rfl⟩ := hinsert
    have htext := (hextends.carries (h key carrier hcarrier)).text_eq hsnapshot hd
    simpa [Edit.inserted?, EditKind.signature?, htext] using ih

/-- No candidate for the problem of a diagnostic inserts two members of one name. -/
theorem nodup_insertedNames (h : engine.Consistent ws) {suggestions : List Suggestion}
    (hrun : engine.classifyDiagnostic diagnostic ws = .ok (.problem problem suggestions) ws')
    (hsnapshot : engine.snapshot.SameTexts) {last : Workspace} (hextends : Extends ws' last)
    (hd : Depicted engine.snapshot last) {options : Options} {candidate : Candidate}
    (hcandidate : candidate ∈ Candidate.all ws' options problem) :
    (Edit.insertedNames last candidate.edits).Nodup := by
  rcases Candidate.length_edits_or hcandidate with hone | ⟨hplain, hstructural⟩
  · obtain ⟨edit, hedit⟩ := List.length_eq_one_iff.1 hone
    rw [hedit, Edit.insertedNames]
    cases hinserted : edit.inserted? last <;> simp [hinserted]
  · obtain ⟨pair, hexplains, hcarries⟩ := exists_explains h hrun
    have hc : engine.Consistent ws' :=
      h.evolves ((classifyDiagnostic_runs h diagnostic).of_ok hrun).1
    have hexplained := hexplains hstructural
    cases hslot : pair.source.placeholder with
    | some slot =>
      rw [hslot] at hexplained
      rw [hc.isPlaceholder_eq hexplained.source_eq, hslot] at hplain
      cases hplain
    | none =>
      rw [hslot] at hexplained
      obtain ⟨source, target, -, -, hcomparison⟩ := hexplained.compared
      rcases hexplained.candidates_cases hstructural hplain options with
        ⟨-, hnone⟩ | ⟨id, other, -, hone, hcovers⟩
      · rw [hnone] at hcandidate
        cases hcandidate
      · rw [hone, List.mem_singleton] at hcandidate
        rw [hcandidate, (hcarries hslot hstructural).insertedNames_eq hsnapshot hextends hd hcovers]
        exact (List.nodup_append.1 (Problem.nodup_keys hcomparison)).2.1

end Engine

end TypeMend
