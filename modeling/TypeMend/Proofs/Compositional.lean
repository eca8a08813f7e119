import TypeMend.Classify
import TypeMend.Proofs.Alongside

/-!
# Properties that composition keeps

A property of actions that holds of pure ones, and of two actions one after the other if it holds of
both, holds of whatever is composed of actions that have it. The search for a member is composed of
look-ups of types, and a classification of a few more operations on the workspace. What such a
property needs is stated here as a structure, so that search and classification are taken apart once
and not again for each property.
-/
namespace TypeMend

open Workspace (Action)

/-- A property of actions that composition keeps. The second action may be chosen by the workspace
as it is, but not by the files that are loaded. -/
structure Compositional (P : {α : Type} → Action α → Prop) : Prop where
  pure {α : Type} (a : α) : P (pure a)
  bind {α β : Type} {x : Action α} {f : α → Action β} (hx : P x) (hf : ∀ a, P (f a)) : P (x >>= f)
  get_bind {β : Type} {f : Workspace → Action β}
    (hsame : ∀ ws files, f (ws.withFiles files) = f ws) (hf : ∀ ws, P (f ws)) : P (get >>= f)

/-- A property that the operations have of which an engine composes classifications, apart from
those that number the nodes of a pair. -/
structure Operational (engine : Engine) (P : {α : Type} → Action α → Prop) : Prop
    extends Compositional P where
  ensureFile (file : String) : P (Workspace.ensureFile engine.store file)
  resolve (typeText : String) : P (Workspace.resolve engine.snapshot engine.store typeText)
  addDetached (node : Node) : P (modifyGet fun ws => ws.addDetached node)

variable {P : {α : Type} → Action α → Prop}

/-! ## Searching -/

namespace Compositional

variable {snapshot : Snapshot} {store : Store} (hP : Compositional P)
  (hresolve : ∀ typeText, P (Workspace.resolve snapshot store typeText))

include hP hresolve

theorem resolveAll (typeTexts : List String) :
    P (Workspace.resolveAll snapshot store typeTexts) := by
  induction typeTexts with
  | nil => exact hP.pure _
  | cons typeText rest ih =>
    exact hP.bind (hresolve typeText) fun _ => hP.bind ih fun _ => hP.pure _

theorem searchMember (key : String) (visits : Nat) (seen queue : List DeclId) :
    P (Workspace.searchMember snapshot store key visits seen queue) := by
  induction visits generalizing seen queue with
  | zero => exact hP.pure _
  | succ visits ih =>
    unfold Workspace.searchMember Workspace.searchStep
    cases queue.dropWhile seen.contains with
    | nil => exact hP.pure _
    | cons id rest =>
      refine hP.get_bind (fun _ _ => rfl) fun ws => ?_
      dsimp only
      cases (ws.declaration id).members.get? key with
      | some member => exact hP.pure _
      | none => exact hP.bind (hP.resolveAll hresolve _) fun _ => ih _ _

theorem resolveMember (id : DeclId) (key : String) :
    P (Workspace.resolveMember snapshot store id key) :=
  hP.get_bind (fun _ _ => rfl) fun _ => hP.searchMember hresolve key _ _ _

end Compositional

/-! ## Classification -/

/-- One more key, as an action that reads the workspace and goes on with the other keys. -/
theorem Engine.modifyGet_sourceCarriers_cons (pair : NodePair) (shape : Shape)
    (declaration : Option DeclId) (key : String) (keys : List String)
    (carriers : Table String NodeId) :
    (modifyGet (sourceCarriers pair shape declaration (key :: keys) carriers) :
        Action (Table String NodeId)) = (do
      let ws ← get
      match declaration.bind fun id => (ws.declaration id).members.get? key with
      | some member =>
        modifyGet (sourceCarriers pair shape declaration keys (carriers.insert key member.nameNode))
      | none =>
        let id ← modifyGet fun ws => ws.addDetached (sourceCarrier pair.source shape key)
        modifyGet (sourceCarriers pair shape declaration keys (carriers.insert key id))) := by
  funext ws
  rw [Workspace.get_bind_apply, Workspace.modifyGet_apply, sourceCarriers]
  cases declaration.bind fun id => (ws.declaration id).members.get? key with
  | some member => rfl
  | none => rfl

namespace Operational

variable {engine : Engine} (hP : Operational engine P)

include hP

theorem resolveMember (id : DeclId) (key : String) :
    P (Workspace.resolveMember engine.snapshot engine.store id key) :=
  hP.toCompositional.resolveMember hP.resolve id key

theorem internOuter {pairs : List NodePair}
    (h : ∀ pair ∈ pairs, ∀ kind, P (Engine.internLayer kind pair)) :
    P (engine.internOuter pairs) := by
  induction pairs with
  | nil => exact hP.pure _
  | cons pair rest ih =>
    obtain ⟨hpair, hrest⟩ := List.forall_mem_cons.1 h
    refine hP.bind (hP.ensureFile _) fun _ => hP.bind (hP.ensureFile _) fun _ => ?_
    exact hP.bind (hpair _) fun _ => hP.bind (ih hrest) fun _ => hP.pure _

theorem slotMember (slot : MemberSlot) (declaration : Option DeclId) :
    P (engine.slotMember slot declaration) := by
  unfold Engine.slotMember
  split
  · exact hP.resolveMember _ _
  · exact hP.pure _

theorem classifyPlaceholder (pair : NodePair) (slot : MemberSlot) (problem : Problem) :
    P (engine.classifyPlaceholder pair slot problem) := by
  unfold Engine.classifyPlaceholder
  refine hP.bind (hP.resolve slot.ownerType) fun declaration => ?_
  refine hP.bind (hP.slotMember slot declaration) fun member => ?_
  cases member with
  | some member =>
    refine hP.get_bind (fun _ _ => rfl) fun ws => ?_
    dsimp only
    split_ifs
    · exact hP.pure _
    · exact hP.pure _
  | none =>
    refine hP.bind (hP.addDetached _) fun carrier => ?_
    exact hP.get_bind (fun _ _ => rfl) fun _ => hP.pure _

theorem sourceCarriers (pair : NodePair) (shape : Shape) (declaration : Option DeclId)
    (keys : List String) (carriers : Table String NodeId) :
    P (modifyGet (Engine.sourceCarriers pair shape declaration keys carriers)) := by
  induction keys generalizing carriers with
  | nil => exact hP.pure carriers
  | cons key keys ih =>
    rw [Engine.modifyGet_sourceCarriers_cons]
    refine hP.get_bind (fun _ _ => rfl) fun ws => ?_
    cases declaration.bind fun id => (ws.declaration id).members.get? key with
    | some member => exact ih _
    | none => exact hP.bind (hP.addDetached _) fun id => ih _

theorem targetMembers (declaration : DeclId) (keys : List String)
    (members : Table String Member) : P (engine.targetMembers declaration keys members) := by
  induction keys generalizing members with
  | nil => exact hP.pure _
  | cons key keys ih =>
    unfold Engine.targetMembers
    refine hP.bind (hP.resolveMember declaration key) fun found => ?_
    cases found with
    | some member => exact ih _
    | none => exact ih _

theorem declaredMembers (declaration : Option DeclId) (keys : List String) :
    P (engine.declaredMembers declaration keys) := by
  cases declaration with
  | some id => exact hP.targetMembers id keys ∅
  | none => exact hP.pure _

theorem narrow (pair : NodePair) (target : Shape) (problem : Problem) :
    P (Engine.narrow pair target problem) := by
  unfold Engine.narrow
  split
  · split
    · exact hP.pure _
    · exact hP.pure _
    · exact hP.bind (hP.addDetached _) fun _ => hP.pure _
  · exact hP.pure _

theorem classifyObjects (pair : NodePair) (source target : Shape) (problem : Problem) :
    P (engine.classifyObjects pair source target problem) := by
  unfold Engine.classifyObjects
  dsimp only
  cases ProblemKind.ofComparison? (source.compare TypeText.assignable target) with
  | none => exact hP.pure _
  | some kind =>
    refine hP.bind (hP.resolve pair.source.typeText) fun sourceDeclaration => ?_
    refine hP.bind (hP.resolve pair.target.typeText) fun targetDeclaration => ?_
    refine hP.bind (hP.sourceCarriers pair source sourceDeclaration _ ∅) fun carriers => ?_
    refine hP.bind (hP.declaredMembers targetDeclaration _) fun members => ?_
    exact hP.bind (hP.narrow pair target _) fun _ => hP.pure _

theorem classifyValues (pair : NodePair) (problem : Problem) :
    P (engine.classifyValues pair problem) := by
  unfold Engine.classifyValues
  split
  · exact hP.pure _
  · exact hP.pure _
  · exact hP.pure _
  · exact hP.classifyObjects pair _ _ problem

/-- A classification has the property if numbering the nodes of its pairs has it. -/
theorem classify (code : UInt32) {pair : NodePair}
    (hpair : ∀ kind, P (Engine.internLayer kind pair))
    (houter : ∀ outer ∈ engine.snapshot.enclosingChain engine.options.maxLayerDepth pair,
      ∀ kind, P (Engine.internLayer kind outer)) :
    P (engine.classify code pair) := by
  unfold Engine.classify
  dsimp only
  cases Family.ofCode? code with
  | none => exact hP.pure _
  | some family =>
    have hlayers := hP.internOuter fun outer hmem => houter outer (List.mem_reverse.1 hmem)
    refine hP.bind (hP.ensureFile _) fun _ => hP.bind hlayers fun outer => ?_
    refine hP.bind (hpair .diagnostic) fun inner => ?_
    cases pair.source.placeholder with
    | some slot => exact hP.bind (hP.classifyPlaceholder pair slot _) fun _ => hP.pure _
    | none =>
      dsimp only
      split_ifs
      · exact hP.pure _
      · exact hP.bind (hP.classifyValues pair _) fun _ => hP.pure _

end Operational

end TypeMend
