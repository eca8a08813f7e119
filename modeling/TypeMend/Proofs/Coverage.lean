import TypeMend.Candidate
import TypeMend.Proofs.Findings

/-!
# Candidates cover their keys

A problem that is mended in the declaration of its target asks for the rewriting of some members and
for the insertion of others. Which keys these are follows from its kind. A candidate has one edit
for each of them, in the order of the comparison; none is offered when the declaration is not known
or a member to be rewritten is not declared. The members of a declared target are all declared, so
that something is always offered for it, unless the problem is about a slot of another type.
-/
namespace TypeMend

open Workspace

section Lists

variable {α β : Type}

/-- A traversal stops at an element without a value, or gives the values of all. -/
theorem mapM_cases (f : α → Option β) (xs : List α) :
    (xs.mapM f = none ∧ ∃ x ∈ xs, f x = none) ∨
      ∃ ys, xs.mapM f = some ys ∧ List.Forall₂ (fun x y => f x = some y) xs ys := by
  induction xs with
  | nil => exact .inr ⟨[], rfl, .nil⟩
  | cons x xs ih =>
    cases hx : f x with
    | none => exact .inl ⟨by simp [List.mapM_cons, hx], x, List.mem_cons_self, hx⟩
    | some y =>
      rcases ih with ⟨hnone, other, hmem, hother⟩ | ⟨ys, hys, hall⟩
      · exact .inl ⟨by simp [List.mapM_cons, hx, hnone], other, List.mem_cons_of_mem _ hmem, hother⟩
      · exact .inr ⟨y :: ys, by simp [List.mapM_cons, hx, hys], .cons hx hall⟩

theorem forall₂_filterMap {f : α → Option β} {xs : List α} (h : ∀ x ∈ xs, ∃ y, f x = some y) :
    List.Forall₂ (fun x y => f x = some y) xs (xs.filterMap f) := by
  induction xs with
  | nil => exact .nil
  | cons x xs ih =>
    obtain ⟨y, hy⟩ := h x List.mem_cons_self
    rw [List.filterMap_cons_some hy]
    exact .cons hy (ih fun other hother => h other (List.mem_cons_of_mem _ hother))

end Lists

/-! ## The keys of a comparison -/

namespace Shape

theorem mem_requiredBeyond {source target : Shape} {key : String}
    (h : key ∈ source.requiredBeyond target) :
    (∃ property, source.get? key = some property) ∧ target.get? key = none := by
  obtain ⟨⟨_, property⟩, hentry, rfl⟩ := List.mem_map.1 h
  obtain ⟨hmem, hbeyond⟩ := List.mem_filter.1 hentry
  refine ⟨⟨property, Table.get?_eq_some_iff.2 hmem⟩, ?_⟩
  simp only [Table.contains, Bool.and_eq_true, Bool.not_eq_true'] at hbeyond
  simpa using hbeyond.2

theorem nodup_requiredBeyond (source target : Shape) : (source.requiredBeyond target).Nodup :=
  source.nodup.sublist (List.filter_sublist.map Prod.fst)

variable {assignable : String → String → Bool}

theorem mem_compare_mismatch {source target : Shape} {key : String}
    (h : key ∈ (source.compare assignable target).mismatch) :
    ∃ property, target.get? key = some property := by
  obtain ⟨entry, hentry, rfl⟩ := List.mem_map.1 h
  have hconflicts := (List.mem_filter.1 hentry).2
  unfold conflicts at hconflicts
  cases hproperty : target.get? entry.1 with
  | none => simp [hproperty] at hconflicts
  | some property => exact ⟨property, rfl⟩

theorem nodup_compare_mismatch (source target : Shape) :
    (source.compare assignable target).mismatch.Nodup :=
  source.nodup.sublist (List.filter_sublist.map Prod.fst)

end Shape

/-! ## What a problem asks for -/

namespace Problem

variable {problem : Problem} {declaration : DeclarationEntry}

def rewrittenKeys (problem : Problem) : List String :=
  match problem.kind with
  | .propMismatch | .both => problem.comparison.mismatch
  | .bothMissing => problem.comparison.reversedMissing
  | _ => []

def insertedKeys (problem : Problem) : List String :=
  match problem.kind with
  | .targetPropMissing | .bothMissing | .both => problem.comparison.missing
  | _ => []

/-- An edit widens the type of the member with a key by the type of its carrier. -/
def Widens (problem : Problem) (key : String) (edit : Edit) : Prop :=
  ∃ member carrier, problem.targetMembers.get? key = some member ∧
    problem.sourceProperties.get? key = some carrier ∧
    edit = ⟨.unionType, member.typeNode, some carrier⟩

/-- An edit makes the member with a key optional. -/
def Relaxes (problem : Problem) (key : String) (edit : Edit) : Prop :=
  ∃ member, problem.targetMembers.get? key = some member ∧
    edit = ⟨.makeOptional, member.nameNode, none⟩

/-- An edit rewrites the member with a key as the kind of the problem asks. -/
def Rewrites (problem : Problem) (key : String) (edit : Edit) : Prop :=
  match problem.kind with
  | .bothMissing => problem.Relaxes key edit
  | _ => problem.Widens key edit

/-- An edit inserts the carrier of a key into a declaration. -/
def Inserts (problem : Problem) (declaration : DeclarationEntry) (key : String) (edit : Edit) :
    Prop :=
  ∃ carrier, problem.sourceProperties.get? key = some carrier ∧
    edit = ⟨.insertOptionalProperty, carrier, some declaration.node⟩

/-- Edits rewrite and then insert what the problem asks for, key by key. -/
def Covers (problem : Problem) (declaration : DeclarationEntry) (edits : List Edit) : Prop :=
  ∃ rewrites inserts, edits = rewrites ++ inserts ∧
    List.Forall₂ problem.Rewrites problem.rewrittenKeys rewrites ∧
    List.Forall₂ (problem.Inserts declaration) problem.insertedKeys inserts

/-- Some member that is to be rewritten is not declared. -/
def LacksMember (problem : Problem) : Prop :=
  ∃ key ∈ problem.rewrittenKeys, problem.targetMembers.get? key = none

/-- Every key that is missing or mismatched has a carrier. -/
def Carries (problem : Problem) : Prop :=
  ∀ key ∈ problem.comparison.missing ++ problem.comparison.mismatch,
    ∃ carrier, problem.sourceProperties.get? key = some carrier

theorem Rewrites.exists_member {key : String} {edit : Edit} (h : problem.Rewrites key edit) :
    ∃ member, problem.targetMembers.get? key = some member := by
  unfold Rewrites at h
  split at h
  · obtain ⟨member, hmember, _⟩ := h
    exact ⟨member, hmember⟩
  · obtain ⟨member, _, hmember, _⟩ := h
    exact ⟨member, hmember⟩

theorem Covers.not_lacksMember {edits : List Edit} (h : problem.Covers declaration edits) :
    ¬problem.LacksMember := by
  rintro ⟨key, hkey, hnone⟩
  obtain ⟨rewrites, _, -, hrewrites, -⟩ := h
  obtain ⟨edit, hedit⟩ : ∃ edit, problem.Rewrites key edit := by
    generalize problem.rewrittenKeys = keys at hkey hrewrites
    induction hrewrites with
    | nil => simp at hkey
    | cons hhead _ ih =>
      rcases List.mem_cons.1 hkey with rfl | hrest
      · exact ⟨_, hhead⟩
      · exact ih hrest
  obtain ⟨member, hmember⟩ := hedit.exists_member
  rw [hnone] at hmember
  cases hmember

/-! ## The edits -/

theorem unionEdits?_cases (hcarries : problem.Carries) :
    (problem.unionEdits? = none ∧
        ∃ key ∈ problem.comparison.mismatch, problem.targetMembers.get? key = none) ∨
      ∃ edits, problem.unionEdits? = some edits ∧
        List.Forall₂ problem.Widens problem.comparison.mismatch edits := by
  rcases mapM_cases (fun key => do
      let member ← problem.targetMembers.get? key
      let carrier ← problem.sourceProperties.get? key
      return (⟨.unionType, member.typeNode, some carrier⟩ : Edit))
    problem.comparison.mismatch with ⟨hnone, key, hkey, hstop⟩ | ⟨edits, hedits, hall⟩
  · refine .inl ⟨hnone, key, hkey, ?_⟩
    obtain ⟨carrier, hcarrier⟩ := hcarries key (List.mem_append_right _ hkey)
    cases hmember : problem.targetMembers.get? key with
    | none => rfl
    | some member => simp [hmember, hcarrier] at hstop
  · refine .inr ⟨edits, hedits, hall.imp fun key edit hedit => ?_⟩
    obtain ⟨member, hmember, hedit⟩ := Option.bind_eq_some_iff.1 hedit
    obtain ⟨carrier, hcarrier, hedit⟩ := Option.bind_eq_some_iff.1 hedit
    exact ⟨member, carrier, hmember, hcarrier, (Option.some.inj hedit).symm⟩

theorem optionalEdits?_cases (problem : Problem) :
    (problem.optionalEdits? = none ∧
        ∃ key ∈ problem.comparison.reversedMissing, problem.targetMembers.get? key = none) ∨
      ∃ edits, problem.optionalEdits? = some edits ∧
        List.Forall₂ problem.Relaxes problem.comparison.reversedMissing edits := by
  rcases mapM_cases (fun key => do
      let member ← problem.targetMembers.get? key
      return (⟨.makeOptional, member.nameNode, none⟩ : Edit))
    problem.comparison.reversedMissing with ⟨hnone, key, hkey, hstop⟩ | ⟨edits, hedits, hall⟩
  · refine .inl ⟨hnone, key, hkey, ?_⟩
    cases hmember : problem.targetMembers.get? key with
    | none => rfl
    | some member => simp [hmember] at hstop
  · refine .inr ⟨edits, hedits, hall.imp fun key edit hedit => ?_⟩
    obtain ⟨member, hmember, hedit⟩ := Option.bind_eq_some_iff.1 hedit
    exact ⟨member, hmember, (Option.some.inj hedit).symm⟩

theorem insertEdits_forall₂ (hcarries : problem.Carries) (declaration : DeclarationEntry) :
    List.Forall₂ (problem.Inserts declaration) problem.comparison.missing
      (problem.insertEdits declaration) := by
  have hcarriers :
      List.Forall₂ (fun key carrier => problem.sourceProperties.get? key = some carrier)
        problem.comparison.missing problem.missingCarriers :=
    forall₂_filterMap fun key hkey => hcarries key (List.mem_append_left _ hkey)
  rw [insertEdits, List.forall₂_map_right_iff]
  exact hcarriers.imp fun key carrier hcarrier => ⟨carrier, hcarrier, rfl⟩

end Problem

/-! ## The candidates of an object problem -/

theorem Candidate.single_eq (prompt : String) {edits : List Edit} (h : edits ≠ []) :
    Candidate.single prompt edits = [⟨prompt, edits⟩] := by
  simp [Candidate.single, h]

/-- What covers the keys of a problem is not empty. -/
theorem Problem.Covers.ne_nil {problem : Problem} {declaration : DeclarationEntry}
    {edits : List Edit} (h : problem.Covers declaration edits)
    (hkeys : problem.rewrittenKeys ≠ [] ∨ problem.insertedKeys ≠ []) : edits ≠ [] := by
  rintro rfl
  obtain ⟨rewrites, inserts, hedits, hrewrites, hinserts⟩ := h
  obtain ⟨rfl, rfl⟩ := List.append_eq_nil_iff.1 hedits.symm
  rw [List.forall₂_nil_right_iff] at hrewrites hinserts
  exact hkeys.elim (fun h => h hrewrites) fun h => h hinserts

/-- The kind that a comparison leads to asks for something. -/
theorem Problem.keys_ne_nil {problem : Problem}
    (hkind : ProblemKind.ofComparison? problem.comparison = some problem.kind) :
    problem.rewrittenKeys ≠ [] ∨ problem.insertedKeys ≠ [] := by
  unfold ProblemKind.ofComparison? at hkind
  unfold rewrittenKeys insertedKeys
  split_ifs at hkind with hreversed
  · rw [← Option.some.inj hkind]
    exact .inl (by simpa using hreversed)
  · split at hkind
    · next hmismatch _ => rw [← Option.some.inj hkind]; exact .inl (by simpa using hmismatch)
    · next hmismatch _ => rw [← Option.some.inj hkind]; exact .inl (by simpa using hmismatch)
    · next _ hmissing => rw [← Option.some.inj hkind]; exact .inr (by simpa using hmissing)
    · cases hkind

/-- What is offered for an object problem whose declaration is known. -/
theorem Candidate.forObject_cases {problem : Problem}
    (hkind : ProblemKind.ofComparison? problem.comparison = some problem.kind)
    (hstructural : problem.kind.isStructural = true) (hcarries : problem.Carries)
    (declaration : DeclarationEntry) (suffix widened required added : String) :
    (problem.LacksMember ∧
        Candidate.forObject suffix problem declaration widened required added = []) ∨
      ∃ candidate,
        Candidate.forObject suffix problem declaration widened required added = [candidate] ∧
          problem.Covers declaration candidate.edits := by
  have hkeys := Problem.keys_ne_nil hkind
  have hinserts := Problem.insertEdits_forall₂ hcarries declaration
  have hoffer (prompt : String) {edits : List Edit} (h : problem.Covers declaration edits) :
      ∃ candidate, Candidate.single prompt edits = [candidate] ∧
        problem.Covers declaration candidate.edits :=
    ⟨_, Candidate.single_eq prompt (h.ne_nil hkeys), h⟩
  unfold Candidate.forObject Problem.LacksMember
  unfold Problem.Covers Problem.rewrittenKeys Problem.insertedKeys Problem.Rewrites at hoffer ⊢
  cases hk : problem.kind with
  | propMismatch =>
    simp only [hk] at hoffer ⊢
    rcases Problem.unionEdits?_cases hcarries with ⟨hnone, hlacks⟩ | ⟨edits, hedits, hall⟩
    · exact .inl ⟨hlacks, by simp [hnone]⟩
    · simp only [hedits]
      exact .inr (hoffer _ ⟨edits, [], by simp, hall, .nil⟩)
  | targetPropMissing =>
    simp only [hk] at hoffer ⊢
    exact .inr (hoffer _ ⟨[], _, rfl, .nil, hinserts⟩)
  | bothMissing =>
    simp only [hk] at hoffer ⊢
    rcases problem.optionalEdits?_cases with ⟨hnone, hlacks⟩ | ⟨edits, hedits, hall⟩
    · exact .inl ⟨hlacks, by simp [hnone]⟩
    · simp only [hedits]
      exact .inr (hoffer _ ⟨edits, _, rfl, hall, hinserts⟩)
  | both =>
    simp only [hk] at hoffer ⊢
    rcases Problem.unionEdits?_cases hcarries with ⟨hnone, hlacks⟩ | ⟨edits, hedits, hall⟩
    · exact .inl ⟨hlacks, by simp [hnone]⟩
    · simp only [hedits]
      exact .inr (hoffer _ ⟨edits, _, rfl, hall, hinserts⟩)
  | mismatch => rw [hk] at hstructural; cases hstructural
  | simpleToObject => rw [hk] at hstructural; cases hstructural
  | objectToSimple => rw [hk] at hstructural; cases hstructural

/-- No key is asked for twice. -/
theorem Problem.nodup_keys {problem : Problem} {source target : Shape}
    (h : problem.comparison = source.compare TypeText.assignable target) :
    (problem.rewrittenKeys ++ problem.insertedKeys).Nodup := by
  have hmissing : problem.comparison.missing.Nodup := by
    rw [h]
    exact Shape.nodup_requiredBeyond source target
  have hmismatch : problem.comparison.mismatch.Nodup := by
    rw [h]
    exact Shape.nodup_compare_mismatch source target
  have hreversed : problem.comparison.reversedMissing.Nodup := by
    rw [h]
    exact Shape.nodup_requiredBeyond target source
  have habsent : ∀ key ∈ problem.comparison.missing, target.get? key = none := by
    rw [h]
    exact fun key hkey => (Shape.mem_requiredBeyond hkey).2
  have happend {keys : List String} (hkeys : keys.Nodup)
      (hpresent : ∀ key ∈ keys, ∃ property, target.get? key = some property) :
      (keys ++ problem.comparison.missing).Nodup := by
    refine List.nodup_append.2 ⟨hkeys, hmissing, fun key hkey other hother heq => ?_⟩
    obtain ⟨property, hproperty⟩ := hpresent key hkey
    rw [heq, habsent other hother] at hproperty
    cases hproperty
  unfold rewrittenKeys insertedKeys
  cases problem.kind with
  | propMismatch => simpa using hmismatch
  | targetPropMissing => simpa using hmissing
  | bothMissing =>
    refine happend hreversed ?_
    rw [h]
    exact fun key hkey => (Shape.mem_requiredBeyond hkey).1
  | both =>
    refine happend hmismatch ?_
    rw [h]
    exact fun key hkey => Shape.mem_compare_mismatch hkey
  | mismatch => exact List.nodup_nil
  | simpleToObject => exact List.nodup_nil
  | objectToSimple => exact List.nodup_nil

namespace Engine

variable {engine : Engine} {pair : NodePair} {ws : Workspace} {problem : Problem}

/-- A problem is about a placeholder exactly if its pair is: the key of a node tells. -/
theorem Consistent.isPlaceholder_eq (h : engine.Consistent ws)
    (hsource : ws.index.get? (sourceKey pair.source) = some problem.source) :
    problem.isPlaceholder ws = pair.source.placeholder.isSome :=
  congrArg NodeKey.isPlaceholder (h.faithful.keyed _ _ hsource).2

/-- What is offered for a problem that comes of comparing two shapes. -/
theorem Compared.candidates_cases (h : engine.Compared pair ws problem)
    (hstructural : problem.kind.isStructural = true) (hplain : problem.isPlaceholder ws = false)
    (options : Options) :
    (problem.targetDeclaration = none ∨ problem.LacksMember) ∧
        Candidate.all ws options problem = [] ∨
      ∃ id candidate, problem.targetDeclaration = some id ∧
        Candidate.all ws options problem = [candidate] ∧
          problem.Covers (ws.declaration id) candidate.edits := by
  have hkind : problem.kind ≠ .mismatch := by
    intro hmismatch
    rw [hmismatch] at hstructural
    cases hstructural
  unfold Candidate.all Problem.declaration?
  simp only [hplain, Bool.false_eq_true, if_false, if_neg hkind]
  cases problem.targetDeclaration with
  | none => exact .inl ⟨.inl rfl, rfl⟩
  | some id =>
    rcases Candidate.forObject_cases h.kind_eq hstructural h.carried (ws.declaration id)
      problem.callSuffix (problem.memberList (ws.declaration id) ws problem.comparison.mismatch)
      (problem.memberList (ws.declaration id) ws problem.comparison.reversedMissing)
      (problem.propertyList ws) with ⟨hlacks, hnone⟩ | ⟨candidate, hone, hcovers⟩
    · exact .inl ⟨.inr hlacks, hnone⟩
    · exact .inr ⟨id, candidate, rfl, hone, hcovers⟩

/-- A problem about no placeholder comes of comparing two shapes. -/
theorem Poses.compared (h : engine.Poses pair ws problem)
    (hstructural : problem.kind.isStructural = true) (hplain : problem.isPlaceholder ws = false) :
    engine.Compared pair ws problem := by
  have hexplains := h.explains hstructural
  cases hslot : pair.source.placeholder with
  | none =>
    rw [hslot] at hexplains
    exact hexplains
  | some slot =>
    rw [hslot] at hexplains
    rw [h.consistent.isPlaceholder_eq hexplains.source_eq, hslot] at hplain
    cases hplain

/-- Candidates cover their keys. For a problem about no placeholder that is mended in a declaration,
either nothing is offered or exactly one candidate, with one edit for each key that its kind asks
for, in the order of the comparison. Nothing is offered exactly if the declaration is not known or a
member to be rewritten is not declared. -/
theorem candidates_cover_keys (h : engine.Poses pair ws problem)
    (hstructural : problem.kind.isStructural = true) (hplain : problem.isPlaceholder ws = false)
    (options : Options) :
    (Candidate.all ws options problem = [] ∨
        ∃ id candidate, problem.targetDeclaration = some id ∧
          Candidate.all ws options problem = [candidate] ∧
          problem.Covers (ws.declaration id) candidate.edits) ∧
      (Candidate.all ws options problem = [] ↔
        problem.targetDeclaration = none ∨
          ∃ key ∈ problem.rewrittenKeys, problem.targetMembers.get? key = none) ∧
      (problem.rewrittenKeys ++ problem.insertedKeys).Nodup := by
  have hcompared := h.compared hstructural hplain
  obtain ⟨source, target, -, -, hcomparison⟩ := hcompared.compared
  refine and_assoc.1 ⟨?_, Problem.nodup_keys hcomparison⟩
  rcases hcompared.candidates_cases hstructural hplain options with
    ⟨hwhy, hnone⟩ | ⟨id, candidate, hid, hone, hcovers⟩
  · exact ⟨.inl hnone, fun _ => hwhy, fun _ => hnone⟩
  · refine ⟨.inr ⟨id, candidate, hid, hone, hcovers⟩, fun hnone => ?_, fun hwhy => ?_⟩
    · rw [hone] at hnone
      cases hnone
    · rcases hwhy with hunknown | hlacks
      · rw [hid] at hunknown
        cases hunknown
      · exact absurd hlacks hcovers.not_lacksMember

/-- Checks the problem that a pair comes out at in a new workspace. -/
def checkPosed (engine : Engine) (code : UInt32) (pair : NodePair)
    (check : Problem → Workspace → Bool) : Bool :=
  match engine.classify code pair ∅ with
  | .ok (.problem problem _) ws => check problem ws
  | _ => false

theorem exists_poses_of_checkPosed (engine : Engine) (code : UInt32) (pair : NodePair)
    (check : Problem → Workspace → Bool) (h : engine.checkPosed code pair check = true) :
    ∃ problem ws, engine.Poses pair ws problem ∧ check problem ws = true := by
  unfold checkPosed at h
  split at h
  · next problem suggestions ws hrun =>
    exact ⟨problem, ws, ⟨∅, code, suggestions, .empty, hrun⟩, h⟩
  · cases h

/-- A dog is an animal, and both declare a member. -/
def kennel : Engine where
  snapshot :=
    { diagnostics := []
      locations := []
      shapes := .ofList [("Puppy", .ofList
        [("name", ⟨"number", false⟩), ("age", ⟨"string", false⟩), ("toys", ⟨"string", false⟩)])]
      declarations :=
        [⟨"Dog", "dog.ts", 0, 45, [⟨"age", 31, 34, 36, 42, "number", false⟩], ["Animal"]⟩,
          ⟨"Animal", "animal.ts", 0, 34, [⟨"name", 19, 23, 25, 31, "string", false⟩], []⟩]
      layers := [] }
  store := .ofTable (.ofList [("a.ts", "dog = puppy;"),
    ("dog.ts", "interface Dog extends Animal \x7b age: number; \x7d"),
    ("animal.ts", "interface Animal \x7b name: string; \x7d")])
  options := .default

/-- A puppy stands where a dog is expected. -/
def puppy : NodePair where
  source := ⟨"a.ts", 6, 11, "puppy", "Puppy", "Identifier", false, none, none⟩
  target := ⟨"a.ts", 0, 3, "dog", "Dog", "Identifier", false, none, none⟩
  functionName := none

/-- The name and the age of a puppy are widened, one of them in the base, and its toys are added. -/
theorem candidates_cover_keys_puppy :
    ∃ problem ws id candidate, kennel.Poses puppy ws problem ∧
      problem.kind.isStructural = true ∧ problem.isPlaceholder ws = false ∧
      problem.rewrittenKeys = ["name", "age"] ∧ problem.insertedKeys = ["toys"] ∧
      Candidate.all ws .default problem = [candidate] ∧
      problem.Covers (ws.declaration id) candidate.edits := by
  obtain ⟨problem, ws, hposes, hcheck⟩ := exists_poses_of_checkPosed kennel 2322 puppy
    (fun problem ws => decide (problem.kind.isStructural = true ∧
      problem.isPlaceholder ws = false ∧ problem.rewrittenKeys = ["name", "age"] ∧
      problem.insertedKeys = ["toys"] ∧ Candidate.all ws .default problem ≠ []))
    (by decide +kernel)
  obtain ⟨hstructural, hplain, hrewritten, hinserted, hsome⟩ := of_decide_eq_true hcheck
  obtain ⟨id, candidate, -, hone, hcovers⟩ :=
    (candidates_cover_keys hposes hstructural hplain .default).1.resolve_left hsome
  exact ⟨problem, ws, id, candidate, hposes, hstructural, hplain, hrewritten, hinserted, hone,
    hcovers⟩

/-! ## Declared targets -/

/-- The type whose slot a pair is about has a declaration, if it is about one. -/
def OwnerDeclared (engine : Engine) (pair : NodePair) : Prop :=
  ∀ slot, pair.source.placeholder = some slot →
    ∃ declaration, engine.snapshot.declarationOf? slot.ownerType = some declaration

theorem mem_of_mem_rewrittenKeys {key : String} (h : key ∈ problem.rewrittenKeys) :
    key ∈ problem.comparison.mismatch ++ problem.comparison.reversedMissing := by
  unfold Problem.rewrittenKeys at h
  split at h
  · exact List.mem_append_left _ h
  · exact List.mem_append_left _ h
  · exact List.mem_append_right _ h
  · simp at h

/-- A target whose shape is that of its declaration has a member for each key to be rewritten. -/
theorem Compared.not_lacksMember (h : engine.Compared pair ws problem)
    {declaration : Declaration}
    (hshapes : engine.snapshot.shapes.get? (TypeText.normalize pair.target.typeText) = none)
    (hdeclared : engine.snapshot.declarationOf? pair.target.typeText = some declaration) :
    ¬problem.LacksMember := by
  rintro ⟨key, hkey, hnone⟩
  have hnamed := Snapshot.named_of_declarationOf? hdeclared
  have hmem := mem_of_mem_rewrittenKeys hkey
  obtain ⟨source, target, -, htarget, hcomparison⟩ := h.compared
  have hshape : target = engine.snapshot.declaredShape declaration := by
    rw [Snapshot.shapeOf?, hshapes, hdeclared] at htarget
    exact (Option.some.inj htarget).symm
  have hproperty : ∃ property, target.get? key = some property := by
    rw [hcomparison] at hmem
    rcases List.mem_append.1 hmem with hmismatch | hreversed
    · exact Shape.mem_compare_mismatch hmismatch
    · exact (Shape.mem_requiredBeyond hreversed).1
  have hwriter : (engine.snapshot.writerByBreadth? declaration key).isSome = true := by
    rw [← Snapshot.isSome_get?_declaredShape hnamed, ← hshape]
    exact Option.isSome_iff_exists.2 hproperty
  rw [(h.provided declaration hdeclared key hmem).isSome_eq, hnone] at hwriter
  cases hwriter

/-- What is offered for a slot that has no member. -/
theorem Lacking.candidates_eq {slot : MemberSlot} (h : engine.Lacking pair slot ws problem)
    (hplaceholder : problem.isPlaceholder ws = true) (options : Options) :
    (problem.targetDeclaration = none ∧ Candidate.all ws options problem = []) ∨
      ∃ id candidate, problem.targetDeclaration = some id ∧
        Candidate.all ws options problem = [candidate] := by
  obtain ⟨carrier, hcarrier⟩ := h.carried
  have hkind : problem.kind ≠ .mismatch := by simp [h.kind_eq]
  unfold Candidate.all Problem.declaration?
  simp only [hplaceholder, if_true]
  cases problem.targetDeclaration with
  | none => exact .inl ⟨rfl, rfl⟩
  | some id =>
    simp only [Option.map_some, Candidate.forPlaceholder, if_neg hkind, Table.values, hcarrier,
      List.map_cons, List.map_nil, Candidate.addition]
    refine .inr ?_
    split_ifs
    · exact ⟨id, _, rfl, Candidate.single_eq _ (List.cons_ne_nil _ _)⟩
    · exact ⟨id, _, rfl, Candidate.single_eq _ (List.cons_ne_nil _ _)⟩

/-- Something is offered for a declared target. When the shape of a target is that of its
declaration, a problem that is mended in a declaration has exactly one candidate, whatever extends
what. The one exception is a slot whose owner has no declaration: there is nothing to edit then, and
nothing is offered. -/
theorem one_candidate_for_declared_target (h : engine.Poses pair ws problem)
    (hshapes : engine.snapshot.shapes.get? (TypeText.normalize pair.target.typeText) = none)
    {declaration : Declaration}
    (hdeclared : engine.snapshot.declarationOf? pair.target.typeText = some declaration)
    (hstructural : problem.kind.isStructural = true) (options : Options) :
    (engine.OwnerDeclared pair → ∃ candidate, Candidate.all ws options problem = [candidate]) ∧
      (¬engine.OwnerDeclared pair → Candidate.all ws options problem = []) := by
  have hexplains := h.explains hstructural
  unfold OwnerDeclared
  cases hslot : pair.source.placeholder with
  | none =>
    rw [hslot] at hexplains
    have hplain : problem.isPlaceholder ws = false := by
      rw [h.consistent.isPlaceholder_eq hexplains.source_eq, hslot]
      rfl
    refine ⟨fun _ => ?_, fun hno => absurd (fun _ hsome => by cases hsome) hno⟩
    rcases hexplains.candidates_cases hstructural hplain options with
      ⟨hunknown | hlacks, -⟩ | ⟨id, candidate, -, hone, -⟩
    · have hrel := hexplains.declared
      rw [hunknown, hdeclared] at hrel
      cases hrel
    · exact absurd hlacks (hexplains.not_lacksMember hshapes hdeclared)
    · exact ⟨candidate, hone⟩
  | some slot =>
    rw [hslot] at hexplains
    have hplaceholder : problem.isPlaceholder ws = true := by
      rw [h.consistent.isPlaceholder_eq hexplains.source_eq, hslot]
      rfl
    have hsame := hexplains.declared.isSome_eq
    rcases hexplains.candidates_eq hplaceholder options with
      ⟨hunknown, hnone⟩ | ⟨id, candidate, hid, hone⟩
    · refine ⟨fun howner => ?_, fun _ => hnone⟩
      obtain ⟨owner, hfound⟩ := howner slot rfl
      rw [hunknown, hfound] at hsame
      cases hsame
    · refine ⟨fun _ => ⟨candidate, hone⟩, fun hno => absurd (fun other hother => ?_) hno⟩
      cases hother
      rw [hid] at hsame
      exact Option.isSome_iff_exists.1 hsame

theorem one_candidate_for_declared_target_puppy :
    ∃ problem ws declaration candidate, kennel.Poses puppy ws problem ∧
      kennel.snapshot.shapes.get? (TypeText.normalize puppy.target.typeText) = none ∧
      kennel.snapshot.declarationOf? puppy.target.typeText = some declaration ∧
      problem.kind.isStructural = true ∧ kennel.OwnerDeclared puppy ∧
      Candidate.all ws .default problem = [candidate] := by
  obtain ⟨problem, ws, hposes, hcheck⟩ := exists_poses_of_checkPosed kennel 2322 puppy
    (fun problem _ => problem.kind.isStructural) (by decide +kernel)
  have hshapes : kennel.snapshot.shapes.get? (TypeText.normalize puppy.target.typeText) = none := by
    decide +kernel
  have hfound : (kennel.snapshot.declarationOf? puppy.target.typeText).isSome = true := by
    decide +kernel
  obtain ⟨declaration, hdeclared⟩ := Option.isSome_iff_exists.1 hfound
  have howner : kennel.OwnerDeclared puppy := fun _ hslot => by cases hslot
  obtain ⟨candidate, hone⟩ :=
    (one_candidate_for_declared_target hposes hshapes hdeclared hcheck .default).1 howner
  exact ⟨problem, ws, declaration, candidate, hposes, hshapes, hdeclared, hcheck, howner, hone⟩

/-- A dog stands where the sound of a cat is asked for, and cats have no declaration. -/
def meow : NodePair where
  source := ⟨"a.ts", 4, 8, "meow", "string", "Identifier", false, some ⟨"meow", "Cat", none⟩, none⟩
  target := ⟨"a.ts", 0, 3, "dog", "Dog", "Identifier", false, none, none⟩
  functionName := none

/-- The animals of the kennel, where the sound is asked for. -/
def mewing : Engine :=
  { kennel with
    snapshot := { kennel.snapshot with
      diagnostics := [⟨2339, "a.ts", 4, 4, ""⟩]
      locations := [meow] }
    store := .ofTable (.ofList [("a.ts", "dog.meow;"),
      ("dog.ts", "interface Dog extends Animal \x7b age: number; \x7d"),
      ("animal.ts", "interface Animal \x7b name: string; \x7d")]) }

/-- A declared target alone is not enough: nothing is offered for a slot of an undeclared type. -/
theorem no_candidate_for_undeclared_owner :
    mewing.snapshot.locate? "a.ts" 4 = some meow ∧
      ∃ problem ws, mewing.Poses meow ws problem ∧
        mewing.snapshot.shapes.get? (TypeText.normalize meow.target.typeText) = none ∧
        (mewing.snapshot.declarationOf? meow.target.typeText).isSome = true ∧
        problem.kind = .targetPropMissing ∧ Candidate.all ws .default problem = [] := by
  obtain ⟨problem, ws, hposes, hcheck⟩ := exists_poses_of_checkPosed mewing 2339 meow
    (fun problem ws => decide (problem.kind = .targetPropMissing ∧
      Candidate.all ws .default problem = [])) (by decide +kernel)
  obtain ⟨hkind, hnone⟩ := of_decide_eq_true hcheck
  exact ⟨by decide +kernel, problem, ws, hposes, by decide +kernel, by decide +kernel, hkind, hnone⟩

end Engine

end TypeMend
