import TypeMend.Proofs.Operations
import TypeMend.Proofs.Strict

/-!
# Strict evaluation beside the usual one

`Agrees` joins two statements about an action of a workspace: that it takes steps of a session with
a result of some kind, and that strict evaluation does not break off but does the same. Both are
proved together, so that each function is taken apart once.
-/
namespace TypeMend.Strict

open Workspace

variable {α β : Type} {s : Setting} {ws : Workspace}

theorem node?_eq {id : NodeId} (h : id < ws.nodes.size) : node? ws id = some (ws.node id) := by
  simp [node?, Workspace.node, h]

theorem declaration?_eq {id : DeclId} (h : id < ws.declarations.size) :
    declaration? ws id = some (ws.declaration id) := by
  simp [declaration?, Workspace.declaration, h]

theorem mapM_node?_eq {ids : Option NodeId} (h : ∀ id, ids = some id → id < ws.nodes.size) :
    ids.mapM (node? ws) = some (ids.map ws.node) := by
  cases ids with
  | none => rfl
  | some id => simp [node?_eq (h id rfl)]

theorem mapM_declaration?_eq {declaration : Option DeclId}
    (h : ws.HoldsDeclaration declaration) :
    declaration.mapM (declaration? ws) = some (declaration.map ws.declaration) := by
  cases declaration with
  | none => rfl
  | some id => simp [declaration?_eq (h id rfl)]

/-- Strict evaluation `y` of an action `x` does not break off but does what `x` does, which is to
take steps of a session with a result that satisfies `Q`. -/
structure Agrees (s : Setting) (y : Action α) (x : Workspace.Action α) (ws : Workspace)
    (Q : α → Workspace → Prop) : Prop where
  strict_eq : y ws = lift x ws
  runs : Runs s x ws Q

namespace Agrees

variable {y : Action α} {x : Workspace.Action α} {g : α → Action β} {f : α → Workspace.Action β}
  {Q : α → Workspace → Prop} {R : β → Workspace → Prop}

theorem lift (h : Runs s x ws Q) : Agrees s (lift x) x ws Q :=
  ⟨rfl, h⟩

theorem pure {a : α} (h : Q a ws) : Agrees s (pure a) (pure a) ws Q :=
  ⟨rfl, .pure h⟩

theorem bind (h : Agrees s y x ws Q)
    (hf : ∀ a ws', Evolves s ws ws' → Q a ws' → Agrees s (g a) (f a) ws' R) :
    Agrees s (y >>= g) (x >>= f) ws R := by
  refine ⟨?_, h.runs.bind fun a ws' hevolves ha => (hf a ws' hevolves ha).runs⟩
  have hruns := h.runs
  unfold Runs at hruns
  simp only [Bind.bind, EStateM.bind, h.strict_eq, Strict.lift]
  cases hrun : x ws with
  | ok a ws' =>
    rw [hrun] at hruns
    exact (hf a ws' hruns.1 hruns.2).strict_eq
  | error failure ws' => rfl

theorem congr {x' : Workspace.Action α} (hx : x ws = x' ws) (h : Agrees s y x' ws Q) :
    Agrees s y x ws Q :=
  ⟨by simp only [h.strict_eq, Strict.lift, hx], by simpa only [Runs, hx] using h.runs⟩

/-- The usual side begins by reading the workspace. -/
theorem get_right {z : Action β} {f : Workspace → Workspace.Action β}
    (h : Agrees s z (f ws) ws R) : Agrees s z (get >>= f) ws R :=
  ⟨h.strict_eq, h.runs⟩

/-- The strict side begins by reading the workspace. -/
theorem get_left {z : Workspace.Action β} {g : Workspace → Action β}
    (h : Agrees s (g ws) z ws R) : Agrees s (get >>= g) z ws R :=
  ⟨h.strict_eq, h.runs⟩

/-- The strict side asks for something that is there. -/
theorem demand {z : Workspace.Action β} {found : Option α} {a : α} (hfound : found = some a)
    (h : Agrees s (g a) z ws R) : Agrees s (Strict.demand found >>= g) z ws R := by
  refine ⟨?_, h.runs⟩
  rw [← h.strict_eq, hfound]
  rfl

theorem modifyGet {u : Workspace → α × Workspace} (hu : Evolves s ws (u ws).2)
    (h : Q (u ws).1 (u ws).2) : Agrees s (modifyGet u) (modifyGet u) ws Q :=
  ⟨rfl, .modifyGet hu h⟩

theorem addDetached {node : Node} (hnode : ws.Admits s.outside node) :
    Agrees s (MonadState.modifyGet fun ws => ws.addDetached node)
      (MonadState.modifyGet fun ws => ws.addDetached node) ws
      fun id ws' => id < ws'.nodes.size :=
  .modifyGet (addDetached_spec hnode).1 (addDetached_spec hnode).2

end Agrees

end TypeMend.Strict
