import TypeMend.Proofs.Findings

/-!
# The shape that is compared and the member that is edited

The shape of a declared type and the search for a member know the same keys, whatever extends what:
both go through everything that the type descends from. Which declaration a key is taken from is
another matter. The shape takes the first writer of a depth-first walk and the search that of a
breadth-first walk, so the property that is compared and the member that is edited may come from two
different declarations. They come from one where the walks have no choice.
-/
namespace TypeMend

open Workspace

namespace Workspace

variable {α β : Type} {snapshot : Snapshot} {store : Store}

/-! ## Actions that do not fail -/

/-- An action does not fail, whatever the workspace. -/
def Succeeds (x : Action α) : Prop :=
  ∀ ws, ∃ a ws', x ws = .ok a ws'

theorem Succeeds.pure (a : α) : Succeeds (pure a : Action α) :=
  fun ws => ⟨a, ws, rfl⟩

theorem Succeeds.bind {x : Action α} {f : α → Action β} (hx : Succeeds x)
    (hf : ∀ a, Succeeds (f a)) : Succeeds (x >>= f) := by
  intro ws
  obtain ⟨a, ws₁, hrun⟩ := hx ws
  obtain ⟨b, ws₂, hnext⟩ := hf a ws₁
  refine ⟨b, ws₂, ?_⟩
  simp only [Bind.bind, EStateM.bind, hrun, hnext]

theorem Succeeds.get_bind {f : Workspace → Action β} (hf : ∀ ws, Succeeds (f ws)) :
    Succeeds (get >>= f) :=
  fun ws => hf ws ws

theorem Succeeds.compositional : Compositional Succeeds where
  pure := .pure
  bind := .bind
  get_bind _ hf := .get_bind hf

theorem ensureFile_succeeds {file text : String} (h : store file = .ok text) :
    Succeeds (ensureFile store file) := by
  intro ws
  unfold ensureFile
  split_ifs
  · exact ⟨_, _, rfl⟩
  · rw [h]
    exact ⟨_, _, rfl⟩

/-- A store has the file of every declaration of a snapshot. -/
def ReadsDeclarations (snapshot : Snapshot) (store : Store) : Prop :=
  ∀ declaration ∈ snapshot.declarations, ∃ text, store declaration.file = .ok text

variable (hreads : ReadsDeclarations snapshot store)
include hreads

theorem resolve_succeeds (typeText : String) : Succeeds (resolve snapshot store typeText) := by
  intro ws
  rw [resolve_eq]
  split
  · exact ⟨_, _, rfl⟩
  · split_ifs
    · exact ⟨_, _, rfl⟩
    · split
      · exact ⟨_, _, rfl⟩
      · next declaration hfound =>
        obtain ⟨text, htext⟩ := hreads declaration (Snapshot.mem_of_declarationOf? hfound)
        obtain ⟨_, _, hensured⟩ := ensureFile_succeeds htext ws
        rw [hensured]
        exact ⟨_, _, rfl⟩

theorem resolveMember_succeeds (id : DeclId) (key : String) :
    Succeeds (resolveMember snapshot store id key) :=
  Succeeds.compositional.resolveMember (resolve_succeeds hreads) id key

end Workspace

/-! ## Both sides of a key -/

namespace Engine

variable {engine : Engine} {ws : Workspace}

/-- A property is the one that the declaration named by the owner of a member writes. -/
def SameSource (engine : Engine) (ws : Workspace) (key : String) (property : Property)
    (member : Member) : Prop :=
  ((engine.snapshot.declarationOf? (ws.declaration member.owner).name).bind fun writer =>
    (writer.written? key).map MemberDeclaration.property) = some property

instance (engine : Engine) (ws : Workspace) (key : String) (property : Property)
    (member : Member) : Decidable (engine.SameSource ws key property member) :=
  inferInstanceAs (Decidable (_ = _))

/-- The shape of a declared type has a key exactly if the search from its declaration finds a
member. The property is that of the first writer of a depth-first walk, and the member that of the
first writer of a breadth-first walk. Where the walks have no choice, both come from the same
declaration. -/
theorem shape_and_member_share_keys (hreaches : engine.Reaches ws)
    (hreads : ReadsDeclarations engine.snapshot engine.store) {typeText : String}
    {declaration : Declaration}
    (hshapes : engine.snapshot.shapes.get? (TypeText.normalize typeText) = none)
    (hdeclared : engine.snapshot.declarationOf? typeText = some declaration) (key : String) :
    ∃ shape id ws₁ found ws₂,
      engine.snapshot.shapeOf? typeText = some shape ∧
      resolve engine.snapshot engine.store typeText ws = .ok (some id) ws₁ ∧
      resolveMember engine.snapshot engine.store id key ws₁ = .ok found ws₂ ∧
      (shape.get? key).isSome = found.isSome ∧
      shape.get? key = (engine.snapshot.writerByDepth? declaration key).bind (fun writer =>
        (writer.written? key).map MemberDeclaration.property) ∧
      Option.Rel (Provides engine.snapshot ws₂ key)
        (engine.snapshot.writerByBreadth? declaration key) found ∧
      (engine.snapshot.Settled declaration key → ∀ property member,
        shape.get? key = some property → found = some member →
          engine.SameSource ws₂ key property member) := by
  have hc := hreaches.consistent
  have hnamed := Snapshot.named_of_declarationOf? hdeclared
  have hshape : engine.snapshot.shapeOf? typeText =
      some (engine.snapshot.declaredShape declaration) := by
    rw [Snapshot.shapeOf?, hshapes, hdeclared]
    rfl
  obtain ⟨number, ws₁, hresolve⟩ := resolve_succeeds hreads typeText ws
  obtain ⟨h₁, hfound⟩ := (resolve_finds hc.sound hc.faithful typeText).of_ok hresolve
  rw [anywhere_snapshot, hdeclared] at hfound
  obtain ⟨id, rfl, hstands⟩ := hfound.of_left
  have hc₁ := hc.evolves h₁
  obtain ⟨found, ws₂, hmember⟩ := resolveMember_succeeds hreads id key ws₁
  obtain ⟨h₂, hprovides⟩ := (resolveMember_finds hc₁.sound hc₁.faithful hstands key).of_ok hmember
  have hget := Snapshot.get?_declaredShape hnamed key
  refine ⟨_, id, ws₁, found, ws₂, hshape, hresolve, hmember, ?_, hget, hprovides,
    fun hsettled property member hproperty hfound => ?_⟩
  · rw [Snapshot.isSome_get?_declaredShape hnamed]
    exact hprovides.isSome_eq
  · subst hfound
    obtain ⟨writer, hwriter, written, hstands', hwritten, -⟩ := hprovides.of_right
    rw [hget, hsettled.writer_eq hnamed, ← anywhere_snapshot, hwriter, Option.bind_some,
      hwritten] at hproperty
    rw [SameSource, hstands'.name_eq, ← anywhere_snapshot, hstands'.named, Option.bind_some,
      hwritten]
    exact hproperty

/-- Two bases, of which the first inherits a key that the second writes itself. -/
def forked : Engine where
  snapshot :=
    { diagnostics := []
      locations := []
      shapes := ∅
      declarations :=
        [⟨"A", "a.ts", 0, 27, [], ["B", "C"]⟩, ⟨"B", "a.ts", 28, 52, [], ["D"]⟩,
          ⟨"C", "a.ts", 53, 79, [⟨"k", 67, 68, 70, 76, "number", false⟩], []⟩,
          ⟨"D", "a.ts", 80, 118, [⟨"k", 94, 95, 97, 103, "string", false⟩,
            ⟨"id", 105, 107, 109, 115, "string", false⟩], []⟩]
      layers := [] }
  store := .ofTable (.ofList [("a.ts",
    "interface A extends B, C \x7b\x7d\ninterface B extends D \x7b\x7d\n" ++
      "interface C \x7b k: number; \x7d\ninterface D \x7b k: string; id: string; \x7d\n")])
  options := .default

theorem forked_readsDeclarations : ReadsDeclarations forked.snapshot forked.store := by
  intro declaration hmem
  have hfile : declaration.file = "a.ts" := by
    revert declaration
    decide +kernel
  rw [hfile]
  exact ⟨_, rfl⟩

/-- What only the base of a base writes is found on both sides. -/
theorem shape_and_member_share_keys_forked :
    ∃ shape id ws₁ member ws₂ property,
      forked.Reaches ∅ ∧ ReadsDeclarations forked.snapshot forked.store ∧
      forked.snapshot.shapes.get? (TypeText.normalize "A") = none ∧
      forked.snapshot.shapeOf? "A" = some shape ∧
      resolve forked.snapshot forked.store "A" ∅ = .ok (some id) ws₁ ∧
      resolveMember forked.snapshot forked.store id "id" ws₁ = .ok (some member) ws₂ ∧
      shape.get? "id" = some property ∧ forked.SameSource ws₂ "id" property member := by
  obtain ⟨declaration, hdeclared⟩ := Option.isSome_iff_exists.1
    (by decide +kernel : (forked.snapshot.declarationOf? "A").isSome = true)
  have hnamed := Snapshot.named_of_declarationOf? hdeclared
  have hwriters : ∀ one ∈ forked.snapshot.declarations, one.writes "id" = true →
      ∀ other ∈ forked.snapshot.declarations, other.writes "id" = true → one = other := by
    decide +kernel
  have hsettled : forked.snapshot.Settled declaration "id" :=
    .inr fun one other hone hother hwrites hwrites' =>
      hwriters one (Snapshot.mem_of_descends hone hnamed) hwrites other
        (Snapshot.mem_of_descends hother hnamed) hwrites'
  have hshapes : forked.snapshot.shapes.get? (TypeText.normalize "A") = none := rfl
  obtain ⟨shape, id, ws₁, found, ws₂, hshape, hresolve, hmember, hsame, -, -, hboth⟩ :=
    shape_and_member_share_keys .empty forked_readsDeclarations hshapes hdeclared "id"
  have hsome :
      ((forked.snapshot.shapeOf? "A").bind fun shape => shape.get? "id").isSome = true := by
    decide +kernel
  rw [hshape, Option.bind_some] at hsome
  obtain ⟨property, hproperty⟩ := Option.isSome_iff_exists.1 hsome
  obtain ⟨member, rfl⟩ := Option.isSome_iff_exists.1 (hsame.symm.trans hsome)
  exact ⟨shape, id, ws₁, member, ws₂, property, .empty, forked_readsDeclarations, hshapes, hshape,
    hresolve, hmember, hproperty, hboth hsettled property member hproperty rfl⟩

/-- Whether the shape of a type has the property of one declaration under a key, and the search from
the declaration of the type finds the member of another. -/
def disagreesOn (engine : Engine) (typeText key : String) : Bool :=
  match engine.snapshot.shapeOf? typeText, resolve engine.snapshot engine.store typeText ∅ with
  | some shape, .ok (some id) ws₁ =>
    match resolveMember engine.snapshot engine.store id key ws₁, shape.get? key with
    | .ok (some member) ws₂, some property => !decide (engine.SameSource ws₂ key property member)
    | _, _ => false
  | _, _ => false

/-- The shape says that the key is a string, the member that is found is a number. -/
theorem shape_and_member_disagree :
    ∃ shape id ws₁ member ws₂ property,
      forked.snapshot.shapes.get? (TypeText.normalize "A") = none ∧
      forked.snapshot.shapeOf? "A" = some shape ∧
      resolve forked.snapshot forked.store "A" ∅ = .ok (some id) ws₁ ∧
      resolveMember forked.snapshot forked.store id "k" ws₁ = .ok (some member) ws₂ ∧
      shape.get? "k" = some property ∧ ¬forked.SameSource ws₂ "k" property member := by
  have hcheck : forked.disagreesOn "A" "k" = true := by
    decide +kernel
  unfold disagreesOn at hcheck
  split at hcheck
  · next shape id ws₁ hshape hresolve =>
    split at hcheck
    · next member ws₂ property hmember hproperty =>
      exact ⟨shape, id, ws₁, member, ws₂, property, rfl, hshape, hresolve, hmember, hproperty,
        by simpa using hcheck⟩
    · cases hcheck
  · cases hcheck

end Engine

end TypeMend
