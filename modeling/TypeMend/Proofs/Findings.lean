import TypeMend.Proofs.Compositional
import TypeMend.Proofs.Registry

/-!
# What a problem says

Classification compares two shapes or looks a slot up, and leaves what it found in the problem. The
statements here say what the parts of such a problem have to do with the snapshot, from any
workspace that the operations of an engine lead to: the comparison is that of the two shapes, every
key that is missing or mismatched has a carrier, and the members are those that a breadth-first walk
from the declaration of the target meets first.
-/
namespace TypeMend

open Workspace

namespace Workspace

/-- The workspace that an action leaves, also when it fails. -/
def after {α : Type} (x : Action α) (ws : Workspace) : Workspace :=
  match x ws with
  | .ok _ ws' => ws'
  | .error _ ws' => ws'

theorem Runs.evolves_after {α : Type} {s : Setting} {x : Action α} {ws : Workspace}
    {Q : α → Workspace → Prop} (h : Runs s x ws Q) : Evolves s ws (after x ws) := by
  unfold Runs at h
  unfold after
  cases hrun : x ws with
  | ok a ws' =>
    rw [hrun] at h
    exact h.1
  | error failure ws' =>
    rw [hrun] at h
    exact h.1

theorem Runs.of_ok {α : Type} {s : Setting} {x : Action α} {ws ws' : Workspace} {a : α}
    {Q : α → Workspace → Prop} (h : Runs s x ws Q) (hrun : x ws = .ok a ws') :
    Evolves s ws ws' ∧ Q a ws' := by
  unfold Runs at h
  rwa [hrun] at h

/-- What holds of a workspace holds after an action, whether it succeeds or fails. -/
def Preserves {α : Type} (P : Workspace → Prop) (x : Action α) : Prop :=
  ∀ ws, P ws → P (after x ws)

theorem Preserves.pure {α : Type} {P : Workspace → Prop} (a : α) :
    Preserves P (Pure.pure a : Action α) :=
  fun _ h => h

theorem Preserves.bind {α β : Type} {P : Workspace → Prop} {x : Action α} {f : α → Action β}
    (hx : Preserves P x) (hf : ∀ a, Preserves P (f a)) : Preserves P (x >>= f) := by
  intro ws hws
  have hfirst := hx ws hws
  unfold after at hfirst ⊢
  simp only [Bind.bind, EStateM.bind]
  cases hrun : x ws with
  | error failure ws₁ =>
    rw [hrun] at hfirst
    exact hfirst
  | ok a ws₁ =>
    rw [hrun] at hfirst
    exact hf a ws₁ hfirst

/-- An action that begins by reading the workspace. -/
theorem Preserves.get_bind {α : Type} {P : Workspace → Prop} {f : Workspace → Action α}
    (h : ∀ ws, P ws → P (after (f ws) ws)) : Preserves P (get >>= f) :=
  h

theorem Preserves.compositional (P : Workspace → Prop) : Compositional (Preserves P) where
  pure := .pure
  bind := .bind
  get_bind _ hf := .get_bind fun ws => hf ws ws

/-- A layer has the numbers of the two nodes of a pair. -/
structure ShowsPair (ws : Workspace) (pair : NodePair) (layer : Layer) : Prop where
  source_eq : ws.index.get? (sourceKey pair.source) = some layer.source
  target_eq : ws.index.get? (sourceKey pair.target) = some layer.target

theorem Extends.showsPair {ws ws' : Workspace} (h : Extends ws ws') {pair : NodePair}
    {layer : Layer} (hshows : ws.ShowsPair pair layer) : ws'.ShowsPair pair layer where
  source_eq := h.index_eq _ _ hshows.source_eq
  target_eq := h.index_eq _ _ hshows.target_eq

end Workspace

/-- Of two objects one property disagrees and nothing else. -/
def Problem.HasOneMismatch (problem : Problem) : Prop :=
  problem.kind = .propMismatch ∧ ∃ key, problem.comparison.mismatch = [key]

/-- Whether a kind of problem is mended in the declaration of its target. -/
def ProblemKind.isStructural : ProblemKind → Bool
  | propMismatch | targetPropMissing | bothMissing | both => true
  | mismatch | simpleToObject | objectToSimple => false

/-- A classification that falls back to a report is a problem only if it was one before. -/
theorem Classification.eq_some_of_getD {result : Option Classification} {entry : Unsupported}
    {problem : Problem} {suggestions : List Suggestion}
    (h : result.getD (.unsupported entry) = .problem problem suggestions) :
    result = some (.problem problem suggestions) := by
  cases result with
  | none => cases h
  | some classification => exact congrArg some h

/-- The key of the name of the member that a slot of a declaration means. A slot with an index type
means none. -/
def Snapshot.memberKey? (snapshot : Snapshot) (declaration : Declaration) (slot : MemberSlot) :
    Option NodeKey :=
  match slot.indexType with
  | some _ => none
  | none => (snapshot.writerByBreadth? declaration slot.key).bind fun writer =>
      (writer.written? slot.key).map fun written => (memberNameNode writer.file written 0).key

namespace Engine

variable {engine : Engine} {ws ws' : Workspace} {pair : NodePair} {problem : Problem}

/-- What an engine works against, when nothing is asked of where its nodes lie. -/
def anywhere (engine : Engine) : Setting :=
  ⟨engine.snapshot, engine.store, fun _ => True⟩

@[simp] theorem anywhere_snapshot (engine : Engine) :
    engine.anywhere.snapshot = engine.snapshot := rfl

/-- A workspace whose numbers are good and whose memories are true. -/
structure Consistent (engine : Engine) (ws : Workspace) : Prop where
  sound : Sound engine.anywhere.outside ws
  faithful : Faithful engine.snapshot ws

theorem Consistent.evolves (h : engine.Consistent ws) (hevolves : Evolves engine.anywhere ws ws') :
    engine.Consistent ws' :=
  ⟨hevolves.sound h.sound, hevolves.faithful h.faithful⟩

theorem consistent_empty (engine : Engine) : engine.Consistent ∅ :=
  ⟨sound_empty _, faithful_empty _⟩

/-! ## The parts of a problem -/

/-- What is found by comparing the shapes of a pair. -/
structure Compared (engine : Engine) (pair : NodePair) (ws : Workspace) (problem : Problem) :
    Prop where
  compared : ∃ source target, engine.snapshot.shapeOf? pair.source.typeText = some source ∧
    engine.snapshot.shapeOf? pair.target.typeText = some target ∧
    problem.comparison = source.compare TypeText.assignable target
  kind_eq : ProblemKind.ofComparison? problem.comparison = some problem.kind
  source_eq : ws.index.get? (sourceKey pair.source) = some problem.source
  carried : ∀ key ∈ problem.comparison.missing ++ problem.comparison.mismatch,
    ∃ carrier, problem.sourceProperties.get? key = some carrier
  declared : Option.Rel (Stands engine.snapshot ws)
    (engine.snapshot.declarationOf? pair.target.typeText) problem.targetDeclaration
  provided : ∀ declaration, engine.snapshot.declarationOf? pair.target.typeText = some declaration →
    ∀ key ∈ problem.comparison.mismatch ++ problem.comparison.reversedMissing,
      Option.Rel (Provides engine.snapshot ws key)
        (engine.snapshot.writerByBreadth? declaration key) (problem.targetMembers.get? key)

/-- What is found when a slot means a member that is not declared. -/
structure Lacking (engine : Engine) (pair : NodePair) (slot : MemberSlot) (ws : Workspace)
    (problem : Problem) : Prop where
  kind_eq : problem.kind = .targetPropMissing
  source_eq : ws.index.get? (sourceKey pair.source) = some problem.source
  declared : Option.Rel (Stands engine.snapshot ws)
    (engine.snapshot.declarationOf? slot.ownerType) problem.targetDeclaration
  carried : ∃ carrier, problem.sourceProperties.entries = [(slot.key, carrier)]

/-- What a problem of a pair that is mended in a declaration says. -/
def Explains (engine : Engine) (pair : NodePair) (ws : Workspace) (problem : Problem) : Prop :=
  problem.kind.isStructural = true →
    match pair.source.placeholder with
    | some slot => engine.Lacking pair slot ws problem
    | none => engine.Compared pair ws problem

/-! ## Objects -/

/-- Carriers are made for exactly the keys that are asked for. -/
theorem sourceCarriers_finds (h : engine.Consistent ws) (shape : Shape)
    (declaration : Option DeclId) (keys : List String) (carriers : Table String NodeId) :
    Runs engine.anywhere (modifyGet (sourceCarriers pair shape declaration keys carriers)) ws
      fun found _ => ∀ key, key ∈ keys ∨ (∃ carrier, carriers.get? key = some carrier) →
        ∃ carrier, found.get? key = some carrier := by
  have hinsert {key other : String} {rest : List String} {carriers : Table String NodeId}
      {id : NodeId} (hother : other ∈ key :: rest ∨ ∃ carrier, carriers.get? other = some carrier) :
      other ∈ rest ∨ ∃ carrier, (carriers.insert key id).get? other = some carrier := by
    rw [Table.get?_insert]
    by_cases heq : other = key
    · exact .inr ⟨id, by rw [if_pos heq]⟩
    · rw [if_neg heq]
      exact hother.imp_left fun hmem => (List.mem_cons.1 hmem).resolve_left heq
  suffices hspec : Evolves engine.anywhere ws
      (sourceCarriers pair shape declaration keys carriers ws).2 ∧ ∀ key,
        key ∈ keys ∨ (∃ carrier, carriers.get? key = some carrier) → ∃ carrier,
          (sourceCarriers pair shape declaration keys carriers ws).1.get? key = some carrier from
    .modifyGet hspec.1 hspec.2
  induction keys generalizing ws carriers with
  | nil => exact ⟨.refl, fun key hkey => hkey.resolve_left List.not_mem_nil⟩
  | cons key rest ih =>
    unfold sourceCarriers
    cases declaration.bind fun id => (ws.declaration id).members.get? key with
    | some member =>
      obtain ⟨hevolves, hfound⟩ := ih h (carriers.insert key member.nameNode)
      exact ⟨hevolves, fun other hother => hfound other (hinsert hother)⟩
    | none =>
      have hadded : Evolves engine.anywhere ws
          (ws.addDetached (sourceCarrier pair.source shape key)).2 :=
        (addDetached_spec (admits_of_unwritten rfl (.inr trivial))).1
      obtain ⟨hevolves, hfound⟩ := ih (h.evolves hadded) (carriers.insert key ws.nodes.size)
      exact ⟨hadded.trans hevolves, fun other hother => hfound other (hinsert hother)⟩

/-- A table has the members that breadth-first walks meet first, for exactly some keys. -/
def MembersOf (engine : Engine) (declaration : Declaration) (keys : List String) (ws : Workspace)
    (members : Table String Member) : Prop :=
  ∀ key, Option.Rel (Provides engine.snapshot ws key)
    (if key ∈ keys then engine.snapshot.writerByBreadth? declaration key else none)
    (members.get? key)

theorem targetMembers_finds (h : engine.Consistent ws) {declaration : Declaration} {id : DeclId}
    (hstands : Stands engine.snapshot ws declaration id) (keys : List String)
    {before : List String} {members : Table String Member}
    (hmembers : engine.MembersOf declaration before ws members) :
    Runs engine.anywhere (engine.targetMembers id keys members) ws
      fun found ws' => engine.MembersOf declaration (before ++ keys) ws' found := by
  induction keys generalizing ws before members with
  | nil =>
    rw [List.append_nil]
    exact .pure hmembers
  | cons key rest ih =>
    unfold targetMembers
    refine (resolveMember_finds h.sound h.faithful hstands key).bind fun found ws₁ h₁ hfound => ?_
    have hnext (members' : Table String Member) (hkey : members'.get? key = found)
        (hothers : ∀ other, other ≠ key → members'.get? other = members.get? other) :
        engine.MembersOf declaration (before ++ [key]) ws₁ members' := by
      intro other
      by_cases heq : other = key
      · subst heq
        rw [if_pos (by simp), hkey]
        exact hfound
      · rw [hothers other heq]
        have hold := hmembers other
        simp only [List.mem_append, List.mem_singleton, heq, or_false]
        exact hold.imp fun writer member hprovides => h₁.extends.provides hprovides
    rw [← List.singleton_append, ← List.append_assoc]
    have hstands₁ := h₁.extends.stands hstands
    cases found with
    | some member =>
      refine ih (h.evolves h₁) hstands₁ (hnext _ ?_ fun other hother => ?_)
      · rw [Table.get?_insert, if_pos rfl]
      · rw [Table.get?_insert, if_neg hother]
    | none =>
      refine ih (h.evolves h₁) hstands₁ (hnext _ ?_ fun _ _ => rfl)
      have hnone : engine.snapshot.writerByBreadth? declaration key = none := by
        simpa using hfound.isSome_eq
      have hold := hmembers key
      rw [hnone, ite_self] at hold
      simpa using hold.isSome_eq.symm

theorem declaredMembers_finds (h : engine.Consistent ws) {found : Option Declaration}
    {declaration : Option DeclId} (hdeclaration : Option.Rel (Stands engine.snapshot ws) found
      declaration) (keys : List String) :
    Runs engine.anywhere (engine.declaredMembers declaration keys) ws fun members ws' =>
      ∀ declaration, found = some declaration → engine.MembersOf declaration keys ws' members := by
  cases hdeclaration with
  | none => exact .pure fun _ h => by cases h
  | @some declaration id hstands =>
    have hnone : engine.MembersOf declaration [] ws ∅ := fun _ => .none
    refine (targetMembers_finds h hstands keys hnone).imp
      fun members ws' _ _ hmembers other heq => ?_
    cases heq
    exact hmembers

/-- Narrowing takes place exactly if there is one property to narrow to and it has a carrier. Any
other problem is left as it is. -/
theorem narrow_cases (target : Shape) (problem : Problem) :
    Runs engine.anywhere (narrow pair target problem) ws fun result _ =>
      (problem.HasOneMismatch ∧ ∃ source target, result = narrowed problem source target) ∨
        result = problem ∧ (problem.HasOneMismatch →
          ∃ key ∈ problem.comparison.mismatch, problem.sourceProperties.get? key = none) := by
  unfold narrow
  split
  · next key hkind hmismatch =>
    have hone : problem.HasOneMismatch := ⟨hkind, key, hmismatch⟩
    split
    · next _ hcarrier => exact .pure (.inr ⟨rfl, fun _ => ⟨key, by simp [hmismatch], hcarrier⟩⟩)
    · exact .pure (.inl ⟨hone, _, _, rfl⟩)
    · refine Runs.bind (.modifyGet (Q := fun _ _ => True) ?_ trivial)
        fun _ _ _ _ => .pure (.inl ⟨hone, _, _, rfl⟩)
      exact (addDetached_spec (admits_of_unwritten rfl (.inr trivial))).1
  · next hother =>
    refine .pure (.inr ⟨rfl, ?_⟩)
    rintro ⟨hkind, key, hmismatch⟩
    exact absurd hmismatch (hother key hkind)

theorem classifyObjects_finds (h : engine.Consistent ws) {source target : Shape}
    (hsource : engine.snapshot.shapeOf? pair.source.typeText = some source)
    (htarget : engine.snapshot.shapeOf? pair.target.typeText = some target)
    (hindex : ws.index.get? (sourceKey pair.source) = some problem.source) :
    Runs engine.anywhere (engine.classifyObjects pair source target problem) ws fun result ws' =>
      ∀ found suggestions, result = some (.problem found suggestions) →
        found.kind.isStructural = true → engine.Compared pair ws' found := by
  unfold classifyObjects
  dsimp only
  cases hkind : ProblemKind.ofComparison? (source.compare TypeText.assignable target) with
  | none => exact .pure fun _ _ h => by cases h
  | some kind =>
    dsimp only
    refine (resolve_runs h.sound _).bind fun sourceDeclaration ws₁ h₁ _ => ?_
    have hc₁ := h.evolves h₁
    refine (resolve_finds hc₁.sound hc₁.faithful _).bind
      fun targetDeclaration ws₂ h₂ hdeclared => ?_
    have hc₂ := hc₁.evolves h₂
    refine (sourceCarriers_finds hc₂ source sourceDeclaration _ ∅).bind
      fun carriers ws₃ h₃ hcarried => ?_
    have hdeclared₃ := hdeclared.imp fun _ _ => h₃.extends.stands
    refine (declaredMembers_finds (hc₂.evolves h₃) hdeclared₃ _).bind
      fun members ws₄ h₄ hmembers => ?_
    refine (narrow_cases target _).bind fun result ws₅ h₅ hresult => .pure ?_
    intro found suggestions heq hstructural
    cases heq
    rcases hresult with ⟨-, _, _, rfl⟩ | ⟨rfl, -⟩
    · cases hstructural
    · refine ⟨⟨source, target, hsource, htarget, rfl⟩, hkind, ?_, fun key hkey => ?_, ?_,
        fun declaration hfound key hkey => ?_⟩
      · exact (h₁.trans (h₂.trans (h₃.trans (h₄.trans h₅)))).extends.index_eq _ _ hindex
      · exact hcarried key (.inl hkey)
      · exact hdeclared₃.imp fun _ _ => (h₄.trans h₅).extends.stands
      · have hmember := hmembers declaration hfound key
        rw [if_pos hkey] at hmember
        exact hmember.imp fun _ _ => h₅.extends.provides

/-! ## Placeholders -/

/-- The member that a slot means is the one whose name has the key. -/
theorem slotMember_provides (h : engine.Consistent ws) (slot : MemberSlot)
    {owner : Option Declaration} {declaration : Option DeclId}
    (hdeclared : Option.Rel (Stands engine.snapshot ws) owner declaration) :
    Runs engine.anywhere (engine.slotMember slot declaration) ws fun member ws' =>
      Option.Rel (fun key member => ws'.index.get? key = some member.nameNode)
        (owner.bind fun owner => engine.snapshot.memberKey? owner slot) member := by
  unfold slotMember Snapshot.memberKey?
  cases hdeclared with
  | none => exact .pure .none
  | @some owner id hstands =>
    cases slot.indexType with
    | some _ => exact .pure .none
    | none =>
      refine (resolveMember_finds h.sound h.faithful hstands slot.key).imp
        fun member ws' _ _ hprovides => ?_
      rw [anywhere_snapshot] at hprovides
      rw [Option.bind_some]
      generalize engine.snapshot.writerByBreadth? owner slot.key = writer at hprovides ⊢
      cases hprovides with
      | none => exact .none
      | some hprovides =>
        obtain ⟨written, -, hwritten, hwrites⟩ := hprovides
        simp only [Option.bind_some, hwritten, Option.map_some]
        exact .some hwrites.nameNode_eq

theorem classifyPlaceholder_finds (h : engine.Consistent ws) (slot : MemberSlot)
    (hkind : problem.kind = .targetPropMissing) (hempty : problem.sourceProperties = ∅)
    (hindex : ws.index.get? (sourceKey pair.source) = some problem.source) :
    Runs engine.anywhere (engine.classifyPlaceholder pair slot problem) ws fun result ws' =>
      ∀ found suggestions, result = some (.problem found suggestions) →
        found.kind.isStructural = true → engine.Lacking pair slot ws' found := by
  unfold classifyPlaceholder
  refine (resolve_finds h.sound h.faithful _).bind fun declaration ws₁ h₁ hdeclared => ?_
  refine (slotMember_provides (h.evolves h₁) slot hdeclared).bind fun member ws₂ h₂ _ => ?_
  cases member with
  | some member =>
    refine .get_bind ?_
    dsimp only
    split_ifs
    · exact .pure fun _ _ h => by cases h
    · refine .pure fun found suggestions heq hstructural => ?_
      cases heq
      cases hstructural
  | none =>
    have hadded : Evolves engine.anywhere ws₂ (ws₂.addDetached (slotCarrier pair.source slot)).2 :=
      (addDetached_spec (admits_of_unwritten rfl (.inr trivial))).1
    refine Runs.bind (.modifyGet (Q := fun _ _ => True) hadded trivial) fun carrier ws₃ h₃ _ => ?_
    refine .get_bind (.pure fun found suggestions heq _ => ?_)
    cases heq
    refine ⟨hkind, (h₁.trans (h₂.trans h₃)).extends.index_eq _ _ hindex, ?_, carrier, ?_⟩
    · exact hdeclared.imp fun _ _ => (h₂.trans h₃).extends.stands
    · simp [absentMember, hempty, Table.insert, Table.alter, Table.alterEntries]

/-! ## Pairs -/

theorem classifyValues_finds (h : engine.Consistent ws) (hkind : problem.kind = .mismatch)
    (hindex : ws.index.get? (sourceKey pair.source) = some problem.source) :
    Runs engine.anywhere (engine.classifyValues pair problem) ws fun result ws' =>
      ∀ found suggestions, result = some (.problem found suggestions) →
        found.kind.isStructural = true → engine.Compared pair ws' found := by
  unfold classifyValues
  cases hsource : engine.snapshot.shapeOf? pair.source.typeText with
  | none =>
    cases engine.snapshot.shapeOf? pair.target.typeText with
    | none =>
      refine .pure fun found suggestions heq hstructural => ?_
      cases heq
      rw [hkind] at hstructural
      cases hstructural
    | some target =>
      refine .pure fun found suggestions heq hstructural => ?_
      cases heq
      cases hstructural
  | some source =>
    cases htarget : engine.snapshot.shapeOf? pair.target.typeText with
    | none =>
      refine .pure fun found suggestions heq hstructural => ?_
      cases heq
      cases hstructural
    | some target => exact classifyObjects_finds h hsource htarget hindex

theorem internSource_finds (h : engine.Consistent ws) (node : SourceNode) :
    Runs engine.anywhere (modifyGet fun ws => ws.internSource node) ws
      fun id ws' => ws'.index.get? (sourceKey node) = some id :=
  internSource_runs h.sound (.inr trivial) fun _ _ => .inr trivial

theorem internLayer_shows (h : engine.Consistent ws) (kind : LayerKind) (pair : NodePair) :
    Runs engine.anywhere (internLayer kind pair) ws
      fun layer ws' => layer.kind = kind ∧ ws'.ShowsPair pair layer := by
  refine (internSource_finds h pair.source).bind fun source ws₁ h₁ hsource => ?_
  refine (internSource_finds (h.evolves h₁) pair.target).bind fun target ws₂ h₂ htarget => .pure ?_
  exact ⟨rfl, h₂.extends.index_eq _ _ hsource, htarget⟩

theorem internOuter_shows (h : engine.Consistent ws) (pairs : List NodePair) :
    Runs engine.anywhere (engine.internOuter pairs) ws fun layers ws' =>
      layers.map Layer.kind = List.replicate pairs.length .typeArgument ∧
        List.Forall₂ ws'.ShowsPair pairs layers := by
  induction pairs generalizing ws with
  | nil => exact .pure ⟨rfl, .nil⟩
  | cons pair rest ih =>
    refine (ensureFile_runs _).bind fun _ ws₁ h₁ _ => ?_
    refine (ensureFile_runs _).bind fun _ ws₂ h₂ _ => ?_
    have hc₂ := (h.evolves h₁).evolves h₂
    refine (internLayer_shows hc₂ _ pair).bind fun layer ws₃ h₃ hlayer => ?_
    refine (ih (hc₂.evolves h₃)).bind fun layers ws₄ h₄ hlayers => .pure ⟨?_, ?_⟩
    · simp [hlayer.1, hlayers.1, List.replicate_succ]
    · exact .cons (h₄.extends.showsPair hlayer.2) hlayers.2

/-- A problem of a pair says what the snapshot says. -/
theorem classify_finds (h : engine.Consistent ws) (code : UInt32) (pair : NodePair) :
    Runs engine.anywhere (engine.classify code pair) ws fun classification ws' =>
      ∀ problem suggestions, classification = .problem problem suggestions →
        engine.Explains pair ws' problem := by
  unfold classify
  dsimp only
  cases Family.ofCode? code with
  | none => exact .pure fun _ _ h => by cases h
  | some family =>
    refine (ensureFile_runs _).bind fun _ ws₁ h₁ _ => ?_
    have hc₁ := h.evolves h₁
    refine (internOuter_shows hc₁ _).bind fun outer ws₂ h₂ _ => ?_
    have hc₂ := hc₁.evolves h₂
    refine (internLayer_shows hc₂ _ pair).bind fun inner ws₃ h₃ hinner => ?_
    have hc₃ := hc₂.evolves h₃
    unfold Explains
    cases pair.source.placeholder with
    | some slot =>
      refine (classifyPlaceholder_finds hc₃ slot rfl rfl hinner.2.source_eq).bind
        fun result ws₄ h₄ hresult => ?_
      exact .pure fun problem suggestions heq =>
        hresult problem suggestions (Classification.eq_some_of_getD heq)
    | none =>
      dsimp only
      split_ifs
      · exact .pure fun _ _ h => by cases h
      · refine (classifyValues_finds hc₃ rfl hinner.2.source_eq).bind
          fun result ws₄ h₄ hresult => ?_
        exact .pure fun problem suggestions heq =>
          hresult problem suggestions (Classification.eq_some_of_getD heq)

theorem classifyDiagnostic_runs (h : engine.Consistent ws) (diagnostic : Diagnostic) :
    Runs engine.anywhere (engine.classifyDiagnostic diagnostic) ws fun _ _ => True := by
  unfold classifyDiagnostic
  cases engine.snapshot.locate? diagnostic.file diagnostic.start with
  | none => exact .pure trivial
  | some pair =>
    refine (ensureFile_runs _).bind fun _ ws₁ h₁ _ => ?_
    refine Runs.bind (.modifyGet (Q := fun _ _ => True) (markProcessed_evolves _ _) trivial)
      fun fresh ws₂ h₂ _ => ?_
    split_ifs
    · exact (classify_finds ((h.evolves h₁).evolves h₂) _ pair).imp fun _ _ _ _ _ => trivial
    · exact .pure trivial

/-! ## Workspaces that can come about -/

/-- The workspaces that the operations of an engine lead to, one after the other and with any
arguments, whether they succeed or fail. -/
inductive Reaches (engine : Engine) : Workspace → Prop
  | empty : Reaches engine ∅
  | ensureFile {ws : Workspace} (before : Reaches engine ws) (file : String) :
      Reaches engine (after (Workspace.ensureFile engine.store file) ws)
  | markProcessed {ws : Workspace} (before : Reaches engine ws) (file : String) (offset : Nat) :
      Reaches engine (ws.markProcessed file offset).2
  | resolve {ws : Workspace} (before : Reaches engine ws) (typeText : String) :
      Reaches engine (after (Workspace.resolve engine.snapshot engine.store typeText) ws)
  | resolveMember {ws : Workspace} (before : Reaches engine ws) {typeText : String} {id : DeclId}
      (known : ws.declarationIndex.get? typeText = some id) (key : String) :
      Reaches engine (after (Workspace.resolveMember engine.snapshot engine.store id key) ws)
  | classify {ws : Workspace} (before : Reaches engine ws) (code : UInt32) (pair : NodePair) :
      Reaches engine (after (engine.classify code pair) ws)
  | classifyDiagnostic {ws : Workspace} (before : Reaches engine ws) (diagnostic : Diagnostic) :
      Reaches engine (after (engine.classifyDiagnostic diagnostic) ws)

theorem Reaches.evolves (h : engine.Reaches ws) : Evolves engine.anywhere ∅ ws := by
  have hconsistent {ws : Workspace} (h : Evolves engine.anywhere ∅ ws) : engine.Consistent ws :=
    (consistent_empty engine).evolves h
  induction h with
  | empty => exact .refl
  | ensureFile _ file ih => exact ih.trans (ensureFile_runs file).evolves_after
  | markProcessed _ file offset ih => exact ih.trans (markProcessed_evolves file offset)
  | resolve _ typeText ih =>
    exact ih.trans (resolve_runs (hconsistent ih).sound typeText).evolves_after
  | resolveMember _ known key ih =>
    have hc := hconsistent ih
    obtain ⟨_, _, hstands⟩ := hc.faithful.filed _ _ known
    exact ih.trans (resolveMember_finds hc.sound hc.faithful hstands key).evolves_after
  | classify _ code pair ih =>
    exact ih.trans (classify_finds (hconsistent ih) code pair).evolves_after
  | classifyDiagnostic _ diagnostic ih =>
    exact ih.trans (classifyDiagnostic_runs (hconsistent ih) diagnostic).evolves_after

theorem Reaches.consistent (h : engine.Reaches ws) : engine.Consistent ws :=
  (consistent_empty engine).evolves h.evolves

/-- Classifying a pair can come out at a problem, with this workspace. -/
def Poses (engine : Engine) (pair : NodePair) (ws : Workspace) (problem : Problem) : Prop :=
  ∃ before code suggestions, engine.Reaches before ∧
    engine.classify code pair before = .ok (.problem problem suggestions) ws

theorem Poses.consistent (h : engine.Poses pair ws problem) : engine.Consistent ws := by
  obtain ⟨before, code, suggestions, hreaches, hrun⟩ := h
  exact hreaches.consistent.evolves ((classify_finds hreaches.consistent code pair).of_ok hrun).1

theorem Poses.explains (h : engine.Poses pair ws problem) : engine.Explains pair ws problem := by
  obtain ⟨before, code, suggestions, hreaches, hrun⟩ := h
  exact ((classify_finds hreaches.consistent code pair).of_ok hrun).2 _ _ rfl

end Engine

end TypeMend
