import TypeMend.Proofs.BreadthFirst
import TypeMend.Proofs.Calls
import TypeMend.Proofs.Members

/-!
# The nearest declaration that writes a member

The search for a member registers declarations as it comes to them, so the graph that it walks
through grows under its feet. Seen from where it starts, the graph stands still: what a name stands
for is an entry of the workspace or a declaration of the snapshot, an `Origin`, and registering one
changes neither its bases nor what it writes. The search is a breadth-first walk through origins. It
ends, since there are finitely many, and finds a member of the nearest origin that writes the key,
the first in written order among those.

This holds of any workspace that was asked for the types of one snapshot, whatever else was done
with it: declarations that the snapshot does not know may have been registered as well.
-/
namespace TypeMend.Workspace

open BreadthFirst (walk generation)

/-! ## Origins -/

/-- A declaration as a search comes to it: an entry of the workspace, or a declaration of the
snapshot that has none yet. -/
inductive Origin
  | entry (id : DeclId)
  | declared (declaration : Declaration)
  deriving DecidableEq

/-- What a type text stands for. -/
def origin? (snapshot : Snapshot) (ws : Workspace) (typeText : String) : Option Origin :=
  match ws.declarationIndex.get? typeText with
  | some id => some (.entry id)
  | none =>
    (snapshot.declarationOf? typeText).map fun declaration =>
      match ws.declarationIndex.get? declaration.name with
      | some id => .entry id
      | none => .declared declaration

namespace Origin

/-- What the names that a declaration extends stand for, in written order. -/
def bases (snapshot : Snapshot) (ws : Workspace) : Origin → List Origin
  | entry id => (ws.declaration id).bases.filterMap (ws.origin? snapshot)
  | declared declaration => declaration.bases.filterMap (ws.origin? snapshot)

def writes (ws : Workspace) (key : String) : Origin → Bool
  | entry id => ((ws.declaration id).members.get? key).isSome
  | declared declaration => declaration.writes key

end Origin

variable {snapshot : Snapshot} {s : Setting} {start ws ws' : Workspace}

/-- A number is that of an origin, seen from the workspace in which a search starts. -/
inductive Realizes (snapshot : Snapshot) (start ws : Workspace) : Origin → DeclId → Prop
  | entry {id : DeclId} (lt : id < start.declarations.size) :
      Realizes snapshot start ws (.entry id) id
  | declared {declaration : Declaration} {id : DeclId} (new : start.declarations.size ≤ id)
      (stands : Stands snapshot ws declaration id) :
      Realizes snapshot start ws (.declared declaration) id

theorem Realizes.extends {origin : Origin} {id : DeclId}
    (h : Realizes snapshot start ws origin id) (hext : Extends ws ws') :
    Realizes snapshot start ws' origin id := by
  cases h with
  | entry lt => exact .entry lt
  | declared new stands => exact .declared new (hext.stands stands)

theorem Realizes.lt {origin : Origin} {id : DeclId} (h : Realizes snapshot start ws origin id)
    (hkept : Extends start ws) : id < ws.declarations.size := by
  cases h with
  | entry lt => exact lt.trans_le hkept.declarations_le
  | declared new stands => exact stands.lt

/-- Origins and their numbers belong to each other one to one. -/
theorem Realizes.eq_iff {one other : Origin} {id id' : DeclId}
    (h : Realizes snapshot start ws one id) (h' : Realizes snapshot start ws other id') :
    one = other ↔ id = id' := by
  cases h with
  | entry lt =>
    cases h' with
    | entry lt' => simp
    | declared new' _ =>
      refine iff_of_false (by simp) ?_
      rintro rfl
      exact absurd lt new'.not_gt
  | declared new stands =>
    cases h' with
    | entry lt' =>
      refine iff_of_false (by simp) ?_
      rintro rfl
      exact absurd lt' new.not_gt
    | declared new' stands' =>
      rw [Origin.declared.injEq]
      constructor
      · rintro rfl
        exact stands.id_eq stands'
      · rintro rfl
        exact stands.declaration_eq stands'

/-- A workspace came out of another by look-ups: what it files is what the texts stand for. -/
structure Follows (snapshot : Snapshot) (start ws : Workspace) : Prop where
  kept : Extends start ws
  filed : ∀ typeText id, ws.declarationIndex.get? typeText = some id →
    ∃ origin, start.origin? snapshot typeText = some origin ∧ Realizes snapshot start ws origin id
  missed : ∀ typeText ∈ ws.unresolved, snapshot.declarationOf? typeText = none

theorem Realizes.bases_eq {origin : Origin} {id : DeclId}
    (h : Realizes snapshot start ws origin id) (hkept : Extends start ws) :
    (ws.declaration id).bases.filterMap (start.origin? snapshot) = origin.bases snapshot start := by
  cases h with
  | entry lt => rw [hkept.declaration_eq id lt, Origin.bases]
  | declared new stands => rw [stands.bases_eq, Origin.bases]

theorem Realizes.writes_eq {origin : Origin} {id : DeclId}
    (h : Realizes snapshot start ws origin id) (hkept : Extends start ws) (key : String) :
    ((ws.declaration id).members.get? key).isSome = origin.writes start key := by
  cases h with
  | entry lt => rw [hkept.declaration_eq id lt, Origin.writes]
  | declared new stands => exact (stands.provides key).isSome_eq.symm

/-- A text stands for what the name of its declaration stands for. -/
theorem origin?_eq_of_declarationOf? {typeText : String} {declaration : Declaration}
    (hnone : start.declarationIndex.get? typeText = none)
    (hfound : snapshot.declarationOf? typeText = some declaration) :
    start.origin? snapshot typeText = start.origin? snapshot declaration.name := by
  have hnamed : snapshot.declarationOf? declaration.name = some declaration :=
    Snapshot.named_of_declarationOf? hfound
  simp only [origin?, hnone, hfound, hnamed, Option.map_some]
  cases start.declarationIndex.get? declaration.name <;> rfl

/-- What a workspace filed stays right when it grows, so that only what is new has to be looked
at. -/
theorem Follows.of_extends (hf : Follows snapshot start ws) (hext : Extends ws ws')
    (hfiled : ∀ typeText id, ws'.declarationIndex.get? typeText = some id →
      ws.declarationIndex.get? typeText = some id ∨
        ∃ origin, start.origin? snapshot typeText = some origin ∧
          Realizes snapshot start ws' origin id)
    (hmissed : ∀ typeText ∈ ws'.unresolved,
      typeText ∈ ws.unresolved ∨ snapshot.declarationOf? typeText = none) :
    Follows snapshot start ws' where
  kept := hf.kept.trans hext
  filed typeText id hid := by
    rcases hfiled typeText id hid with hold | hnew
    · obtain ⟨origin, horigin, hrealizes⟩ := hf.filed typeText id hold
      exact ⟨origin, horigin, hrealizes.extends hext⟩
    · exact hnew
  missed typeText hmem := (hmissed typeText hmem).elim (hf.missed typeText) id

/-- What is not filed was not filed at the start. -/
theorem Follows.declarationIndex_eq_none (hf : Follows snapshot start ws) {typeText : String}
    (hnone : ws.declarationIndex.get? typeText = none) :
    start.declarationIndex.get? typeText = none := by
  cases hold : start.declarationIndex.get? typeText with
  | none => rfl
  | some id =>
    rw [hf.kept.declarationIndex_eq _ _ hold] at hnone
    cases hnone

theorem Step.follows (h : Step s ws ws') (hf : Follows s.snapshot start ws) :
    Follows s.snapshot start ws' := by
  have hext := h.extends
  cases h with
  | load _ _ => exact hf.of_extends hext (fun _ _ h => .inl h) (fun _ h => .inl h)
  | mark file offset =>
    obtain ⟨files, unbuffered, heq, -⟩ := markProcessed_eq ws file offset
    rw [heq] at hext ⊢
    exact hf.of_extends hext (fun _ _ h => .inl h) (fun _ h => .inl h)
  | intern _ _ => exact hf.of_extends hext (fun _ _ h => .inl h) (fun _ h => .inl h)
  | detach _ => exact hf.of_extends hext (fun _ _ h => .inl h) (fun _ h => .inl h)
  | @miss typeText unknown =>
    refine hf.of_extends hext (fun _ _ h => .inl h) fun other hother => ?_
    rcases List.mem_cons.1 hother with rfl | hother
    · exact .inr unknown
    · exact .inl hother
  | @declare declaration entry named fresh described =>
    refine hf.of_extends hext (fun typeText id hid => ?_) (fun _ h => .inl h)
    rw [Table.get?_insert] at hid
    split_ifs at hid with htext
    · cases hid
      refine .inr ⟨.declared declaration, ?_,
        .declared hf.kept.declarations_le (stands_declare named fresh described)⟩
      have hfound : s.snapshot.declarationOf? declaration.name = some declaration := named
      have hnone := hf.declarationIndex_eq_none fresh
      rw [htext, origin?, hnone]
      simp [hfound, hnone]
    · exact .inl hid
  | @link typeText declaration id found known agrees =>
    refine hf.of_extends hext (fun other id' hid => ?_) (fun _ h => .inl h)
    rw [Table.get?_insert] at hid
    split_ifs at hid with htext
    · cases hid
      subst htext
      cases hold : ws.declarationIndex.get? other with
      | some old => exact .inl (congrArg some (agrees old hold))
      | none =>
        obtain ⟨origin, horigin, hrealizes⟩ := hf.filed _ _ known
        refine .inr ⟨origin, ?_, hrealizes.extends hext⟩
        rw [origin?_eq_of_declarationOf? (hf.declarationIndex_eq_none hold) found, horigin]
    · exact .inl hid

theorem Evolves.follows (h : Evolves s ws ws') (hf : Follows s.snapshot start ws) :
    Follows s.snapshot start ws' := by
  induction h with
  | refl => exact hf
  | tail _ hstep ih => exact hstep.follows ih

/-! ## The search -/

/-- Looking a type up finds the number of what it stands for. -/
theorem resolve_follows (hs : Sound s.outside ws) (hf : Follows s.snapshot start ws)
    (typeText : String) :
    Runs s (resolve s.snapshot s.store typeText) ws fun id ws' =>
      Option.Rel (Realizes s.snapshot start ws') (start.origin? s.snapshot typeText) id := by
  refine (resolve_runs hs typeText).imp fun id ws' hrun hevolves hid => ?_
  cases id with
  | some id =>
    obtain ⟨origin, horigin, hrealizes⟩ := (hevolves.follows hf).filed _ _ hid
    rw [horigin]
    exact .some hrealizes
  | none =>
    have hfound := declarationOf?_eq_none_of_resolve hf.missed hrun
    have hindex := (hevolves.follows hf).declarationIndex_eq_none hid
    rw [origin?, hindex, hfound]
    exact .none

theorem resolveAll_follows (hs : Sound s.outside ws) (hf : Follows s.snapshot start ws)
    (typeTexts : List String) :
    Runs s (resolveAll s.snapshot s.store typeTexts) ws fun ids ws' =>
      List.Forall₂ (Realizes s.snapshot start ws')
        (typeTexts.filterMap (start.origin? s.snapshot)) ids := by
  induction typeTexts generalizing ws with
  | nil => exact .pure .nil
  | cons typeText rest ih =>
    refine (resolve_follows hs hf typeText).bind fun id ws₁ h₁ hid => ?_
    refine (ih (h₁.sound hs) (h₁.follows hf)).bind fun ids ws₂ h₂ hids => .pure ?_
    cases horigin : start.origin? s.snapshot typeText with
    | none =>
      rw [horigin] at hid
      cases hid
      simpa [horigin] using hids
    | some origin =>
      rw [horigin] at hid
      obtain ⟨number, rfl, hrealizes⟩ := hid.of_left
      simpa [horigin] using ⟨hrealizes.extends h₂.extends, hids⟩

/-- Having been seen means the same for an origin and for its number. -/
theorem mem_iff_of_realizes {seen : List Origin} {ids : List DeclId}
    (hseen : List.Forall₂ (Realizes snapshot start ws) seen ids) {origin : Origin} {id : DeclId}
    (h : Realizes snapshot start ws origin id) : origin ∈ seen ↔ id ∈ ids := by
  induction hseen with
  | nil => simp
  | cons hhead _ ih => rw [List.mem_cons, List.mem_cons, ih, h.eq_iff hhead]

/-- What is left of a queue without its seen front, for origins and for their numbers. -/
theorem dropWhile_realizes {seen queue : List Origin} {seenIds queueIds : List DeclId}
    (hseen : List.Forall₂ (Realizes snapshot start ws) seen seenIds)
    (hqueue : List.Forall₂ (Realizes snapshot start ws) queue queueIds) :
    List.Forall₂ (Realizes snapshot start ws) (queue.dropWhile fun origin => decide (origin ∈ seen))
      (queueIds.dropWhile seenIds.contains) :=
  dropWhile_forall₂ (fun origin id h => by simp [mem_iff_of_realizes hseen h]) hqueue

theorem forall₂_realizes_extends {origins : List Origin} {ids : List DeclId}
    (h : List.Forall₂ (Realizes snapshot start ws) origins ids) (hext : Extends ws ws') :
    List.Forall₂ (Realizes snapshot start ws') origins ids :=
  h.imp fun _ _ hrealizes => hrealizes.extends hext

/-- A search walks breadth first through origins and stops at the first that writes the key. -/
theorem searchMember_follows (hs : Sound s.outside ws) (hf : Follows s.snapshot start ws)
    (key : String) (visits : Nat) {seen queue : List Origin} {seenIds queueIds : List DeclId}
    (hseen : List.Forall₂ (Realizes s.snapshot start ws) seen seenIds)
    (hqueue : List.Forall₂ (Realizes s.snapshot start ws) queue queueIds) :
    Runs s (searchMember s.snapshot s.store key visits seenIds queueIds) ws fun found ws' =>
      Option.Rel (fun origin member => ∃ id, Realizes s.snapshot start ws' origin id ∧
          (ws'.declaration id).members.get? key = some member)
        ((walk (Origin.bases s.snapshot start) visits seen queue).find? (Origin.writes start key))
        found := by
  induction visits generalizing ws seen queue seenIds queueIds with
  | zero => exact .pure .none
  | succ visits ih =>
    have hnext := dropWhile_realizes hseen hqueue
    unfold searchMember searchStep walk
    cases hids : queueIds.dropWhile seenIds.contains with
    | nil =>
      rw [hids] at hnext
      rw [List.forall₂_nil_right_iff.1 hnext]
      exact .pure .none
    | cons id restIds =>
      rw [hids] at hnext
      obtain ⟨origin, rest, hrealizes, hrest, hdrop⟩ := List.forall₂_cons_right_iff.1 hnext
      rw [hdrop]
      refine .get_bind ?_
      have hwrites := hrealizes.writes_eq hf.kept key
      dsimp only
      cases hmember : (ws.declaration id).members.get? key with
      | some member =>
        rw [hmember] at hwrites
        rw [List.find?_cons_of_pos hwrites.symm]
        exact .pure (.some ⟨id, hrealizes, hmember⟩)
      | none =>
        rw [hmember] at hwrites
        rw [List.find?_cons_of_neg (by simp [← hwrites])]
        refine (resolveAll_follows hs hf _).bind fun bases ws₁ h₁ hbases => ?_
        rw [hrealizes.bases_eq hf.kept] at hbases
        have hseen₁ := forall₂_realizes_extends hseen h₁.extends
        have hrest₁ := forall₂_realizes_extends hrest h₁.extends
        exact ih (h₁.sound hs) (h₁.follows hf) (.cons (hrealizes.extends h₁.extends) hseen₁)
          (List.rel_append hrest₁ hbases)

theorem searchMember_eq_iterate (snapshot : Snapshot) (store : Store) (key : String)
    (visits : Nat) : searchMember snapshot store key visits =
      (searchStep snapshot store key)^[visits] fun _ _ => return none := by
  induction visits with
  | zero => rfl
  | succ visits ih =>
    rw [Function.iterate_succ_apply', ← ih]
    rfl

/-- A search whose walk ends before its rounds are used up would go no further with more of them,
and it does not matter what it would do after the last. -/
theorem iterate_searchStep_eq (hs : Sound s.outside ws) (hf : Follows s.snapshot start ws)
    (key : String) {visits more : Nat} (hmore : visits ≤ more)
    (last last' : List DeclId → List DeclId → Action (Option Member)) {seen queue : List Origin}
    {seenIds queueIds : List DeclId}
    (hseen : List.Forall₂ (Realizes s.snapshot start ws) seen seenIds)
    (hqueue : List.Forall₂ (Realizes s.snapshot start ws) queue queueIds)
    (hends : (walk (Origin.bases s.snapshot start) visits seen queue).length < visits) :
    ((searchStep s.snapshot s.store key)^[more] last) seenIds queueIds ws =
      ((searchStep s.snapshot s.store key)^[visits] last') seenIds queueIds ws := by
  induction visits generalizing ws seen queue seenIds queueIds more with
  | zero => exact absurd hends (Nat.not_lt_zero _)
  | succ visits ih =>
    obtain ⟨more, rfl⟩ : ∃ n, more = n + 1 := ⟨more - 1, by omega⟩
    have hnext := dropWhile_realizes hseen hqueue
    rw [walk] at hends
    rw [Function.iterate_succ_apply', Function.iterate_succ_apply', searchStep, searchStep]
    cases hids : queueIds.dropWhile seenIds.contains with
    | nil => rfl
    | cons id restIds =>
      rw [hids] at hnext
      obtain ⟨origin, rest, hrealizes, hrest, hdrop⟩ := List.forall₂_cons_right_iff.1 hnext
      rw [hdrop, List.length_cons] at hends
      dsimp only
      rw [get_bind_apply, get_bind_apply]
      cases (ws.declaration id).members.get? key with
      | some member => rfl
      | none =>
        dsimp only
        refine (resolveAll_follows hs hf _).bind_congr fun bases ws₁ h₁ hbases => ?_
        rw [hrealizes.bases_eq hf.kept] at hbases
        have hseen₁ := forall₂_realizes_extends hseen h₁.extends
        have hrest₁ := forall₂_realizes_extends hrest h₁.extends
        exact ih (h₁.sound hs) (h₁.follows hf) (Nat.le_of_succ_le_succ hmore)
          (.cons (hrealizes.extends h₁.extends) hseen₁) (List.rel_append hrest₁ hbases)
          (Nat.lt_of_succ_lt_succ hends)

/-! ## Workspaces that asked one snapshot -/

/-- The workspaces that were asked for the types of one snapshot: those that an engine with the
snapshot leads to, and what any calls lead to from there, whether they succeed or fail. -/
inductive Asked (snapshot : Snapshot) : Workspace → Prop
  | engine {engine : Engine} {ws : Workspace} (same : engine.snapshot = snapshot)
      (reaches : engine.Reaches ws) : Asked snapshot ws
  | call {ws : Workspace} (before : Asked snapshot ws) (call : Call)
      (admitted : call.Admitted ws) (asks : call.Asks snapshot) :
      Asked snapshot (call.perform ws).2

/-- What is remembered as undeclared is not declared. -/
def Missed (snapshot : Snapshot) (ws : Workspace) : Prop :=
  ∀ typeText ∈ ws.unresolved, snapshot.declarationOf? typeText = none

theorem Step.missed (h : Step s ws ws') (hm : Missed s.snapshot ws) : Missed s.snapshot ws' := by
  cases h with
  | @miss typeText unknown =>
    intro other hother
    rcases List.mem_cons.1 hother with rfl | hother
    · exact unknown
    · exact hm other hother
  | mark file offset =>
    obtain ⟨files, unbuffered, heq, -⟩ := markProcessed_eq ws file offset
    rw [heq]
    exact hm
  | load _ _ => exact hm
  | intern _ _ => exact hm
  | detach _ => exact hm
  | declare _ _ _ => exact hm
  | link _ _ _ => exact hm

theorem Evolves.missed (h : Evolves s ws ws') (hm : Missed s.snapshot ws) :
    Missed s.snapshot ws' := by
  induction h with
  | refl => exact hm
  | tail _ hstep ih => exact hstep.missed ih

theorem Call.perform_missed (h : ws.Ordered) (hm : Missed snapshot ws) {call : Call}
    (hadmitted : call.Admitted ws) (hasks : call.Asks snapshot) :
    Missed snapshot (call.perform ws).2 := by
  rcases call.perform_evolves h hadmitted hasks with ⟨store, hevolves⟩ | ⟨declaration, rfl⟩
  · exact hevolves.missed hm
  · cases hknown : ws.declarationIndex.get? declaration.name with
    | some id =>
      have hregister : ws.register declaration = (id, ws) := by
        simp [Workspace.register, hknown]
      rw [perform, hregister]
      exact hm
    | none =>
      obtain ⟨ws₁, entry, hevolves, -, -, hregister⟩ := register_of_unknown
        (s := .anywhere snapshot fun _ => .error .notInStore) h.toSound (.inr trivial) hknown
      rw [perform, hregister]
      exact hevolves.missed hm

theorem Asked.spec (h : Asked snapshot ws) : ws.Ordered ∧ Missed snapshot ws := by
  induction h with
  | @engine engine ws same reaches =>
    subst same
    have hevolves : Evolves (.anywhere engine.snapshot engine.store) ∅ ws := reaches.evolves
    exact ⟨hevolves.grows.ordered ordered_empty, reaches.consistent.faithful.unresolved⟩
  | call _ call admitted asks ih =>
    exact ⟨(call.perform_grows ih.1 admitted).ordered ih.1,
      call.perform_missed ih.1 ih.2 admitted asks⟩

theorem Asked.follows (h : Asked snapshot ws) : Follows snapshot ws ws := by
  obtain ⟨hordered, hmissed⟩ := h.spec
  refine ⟨.refl ws, fun typeText id hid => ⟨.entry id, ?_, .entry ?_⟩, hmissed⟩
  · rw [origin?, hid]
  · exact hordered.declarationIndex_lt typeText id hid

/-! ## What is found -/

def origins (snapshot : Snapshot) (ws : Workspace) : List Origin :=
  (List.range ws.declarations.size).map .entry ++ snapshot.declarations.map .declared

theorem entry_mem_origins {id : DeclId} (h : id < ws.declarations.size) :
    Origin.entry id ∈ ws.origins snapshot := by
  simpa [origins] using h

theorem bases_subset_origins (hs : Sound (fun _ => True) ws) (origin : Origin) :
    origin.bases snapshot ws ⊆ ws.origins snapshot := by
  have hmem {typeText : String} {base : Origin}
      (h : ws.origin? snapshot typeText = some base) : base ∈ ws.origins snapshot := by
    have hentry {text : String} {id : DeclId} (hid : ws.declarationIndex.get? text = some id) :
        Origin.entry id ∈ ws.origins snapshot :=
      entry_mem_origins (hs.declarationIndex_lt text id hid)
    unfold origin? at h
    split at h
    · next id hid =>
      cases h
      exact hentry hid
    · obtain ⟨declaration, hfound, hbase⟩ := Option.map_eq_some_iff.1 h
      split at hbase
      · next id hid =>
        subst hbase
        exact hentry hid
      · subst hbase
        simpa [origins] using Snapshot.mem_of_declarationOf? hfound
  intro base hbase
  cases origin with
  | entry id =>
    obtain ⟨typeText, -, hfound⟩ := List.mem_filterMap.1 hbase
    exact hmem hfound
  | declared declaration =>
    obtain ⟨typeText, -, hfound⟩ := List.mem_filterMap.1 hbase
    exact hmem hfound

/-- The search for a member is a walk from the entry of a declaration. -/
theorem resolveMember_walks {store : Store} (hasked : Asked snapshot ws) {id : DeclId}
    (hid : id < ws.declarations.size) (key : String) :
    Runs (.anywhere snapshot store) (resolveMember snapshot store id key) ws fun found ws' =>
      Option.Rel (fun origin member => ∃ number, Realizes snapshot ws ws' origin number ∧
          (ws'.declaration number).members.get? key = some member)
        ((walk (Origin.bases snapshot ws)
          (ws.declarations.size + snapshot.declarations.length + 1) [] [.entry id]).find?
            (Origin.writes ws key))
        found := by
  have hsound : Sound (Setting.anywhere snapshot store).outside ws := hasked.spec.1.toSound
  exact .get_bind (searchMember_follows hsound hasked.follows key _ .nil (.cons (.entry hid) .nil))

/-- With more rounds than there are origins the search is the search for a member, whatever would
come after the last round: it is not reached. -/
theorem iterate_searchStep_eq_resolveMember {store : Store} (hasked : Asked snapshot ws)
    {id : DeclId} (hid : id < ws.declarations.size) (key : String) {visits : Nat}
    (hvisits : ws.declarations.size + snapshot.declarations.length < visits)
    (last : List DeclId → List DeclId → Action (Option Member)) :
    ((searchStep snapshot store key)^[visits] last) [] [id] ws =
      resolveMember snapshot store id key ws := by
  have hsound : Sound (Setting.anywhere snapshot store).outside ws := hasked.spec.1.toSound
  have hends : (walk (Origin.bases snapshot ws)
      (ws.declarations.size + snapshot.declarations.length + 1) [] [.entry id]).length <
        ws.declarations.size + snapshot.declarations.length + 1 :=
    BreadthFirst.length_walk_lt (fun origin _ => bases_subset_origins hasked.spec.1.toSound origin)
      (entry_mem_origins hid) (by simp [origins])
  have hqueue : List.Forall₂ (Realizes snapshot ws ws) [.entry id] [id] := .cons (.entry hid) .nil
  have hbound : resolveMember snapshot store id key ws = searchMember snapshot store key
      (ws.declarations.size + snapshot.declarations.length + 1) [] [id] ws := rfl
  rw [hbound, searchMember_eq_iterate]
  exact iterate_searchStep_eq (s := .anywhere snapshot store) hsound hasked.follows key hvisits
    last _ .nil hqueue hends

/-- In every workspace that was asked for the types of one snapshot, and whatever extends what, the
search for a member ends: from some number of rounds on it always comes to the same, whatever would
be done after them. It finds nothing exactly if no declaration that can be reached writes the key.
Otherwise it finds the member on a declaration at the least distance that does, the first in the
order in which bases are written. -/
theorem resolveMember_nearest {store : Store} (hasked : Asked snapshot ws)
    (hreads : ReadsDeclarations snapshot store) {id : DeclId} (hid : id < ws.declarations.size)
    (key : String) :
    ∃ found ws', resolveMember snapshot store id key ws = .ok found ws' ∧
      (∀ visits, ws.declarations.size + snapshot.declarations.length < visits →
        searchMember snapshot store key visits [] [id] ws = .ok found ws' ∧
        ∀ last, ((searchStep snapshot store key)^[visits] last) [] [id] ws = .ok found ws') ∧
      (found = none ↔ ∀ origin,
        BreadthFirst.Reaches (Origin.bases snapshot ws) (.entry id) origin →
          origin.writes ws key = false) ∧
      ∀ member, found = some member → ∃ origin distance,
        (generation (Origin.bases snapshot ws) distance [.entry id]).find? (Origin.writes ws key) =
          some origin ∧
        (∀ nearer < distance, (generation (Origin.bases snapshot ws) nearer [.entry id]).find?
          (Origin.writes ws key) = none) ∧
        Realizes snapshot ws ws' origin member.owner ∧
        (ws'.declaration member.owner).members.get? key = some member := by
  obtain ⟨hordered, -⟩ := hasked.spec
  obtain ⟨found, ws', hrun⟩ := resolveMember_succeeds hreads id key ws
  obtain ⟨hevolves, hfound⟩ := (resolveMember_walks hasked hid key).of_ok hrun
  have hstart : Origin.entry id ∈ ws.origins snapshot := entry_mem_origins hid
  have hvisits : (ws.origins snapshot).length <
      ws.declarations.size + snapshot.declarations.length + 1 := by
    simp [origins]
  have hclosed : ∀ origin ∈ ws.origins snapshot,
      origin.bases snapshot ws ⊆ ws.origins snapshot := fun origin _ =>
    bases_subset_origins hordered.toSound origin
  have hrounds : ∀ visits, ws.declarations.size + snapshot.declarations.length < visits →
      ∀ last, ((searchStep snapshot store key)^[visits] last) [] [id] ws = .ok found ws' :=
    fun visits hvisits last =>
      (iterate_searchStep_eq_resolveMember hasked hid key hvisits last).trans hrun
  refine ⟨found, ws', hrun, fun visits hvisits => ⟨?_, hrounds visits hvisits⟩, ?_,
    fun member hmember => ?_⟩
  · rw [searchMember_eq_iterate]
    exact hrounds visits hvisits _
  · rw [← BreadthFirst.find?_walk_eq_none_iff hclosed hstart hvisits,
      ← Option.not_isSome_iff_eq_none, ← Option.not_isSome_iff_eq_none, hfound.isSome_eq]
  · subst hmember
    obtain ⟨origin, hwalk, number, hrealizes, hget⟩ := hfound.of_right
    obtain ⟨distance, hfirst, hnearer⟩ :=
      BreadthFirst.exists_generation_of_find?_walk hclosed hstart hvisits hwalk
    have howner : member.owner = number :=
      (hevolves.grows.ordered hordered).owner_eq number (hrealizes.lt hevolves.extends) key member
        hget
    exact ⟨origin, distance, hfirst, hnearer, howner ▸ hrealizes, howner ▸ hget⟩

/-- A cycle with two ways to a declaration, of which one passes another that writes the same key,
and a name that nothing declares. -/
def looped : Snapshot where
  diagnostics := []
  locations := []
  shapes := ∅
  declarations :=
    [⟨"A", "a.ts", 0, 36, [], ["B", "C", "Missing"]⟩, ⟨"B", "a.ts", 37, 64, [], ["A", "D"]⟩,
      ⟨"C", "a.ts", 65, 101, [⟨"k", 89, 90, 92, 98, "number", false⟩], ["D"]⟩,
      ⟨"D", "a.ts", 102, 128, [⟨"k", 116, 117, 119, 125, "string", false⟩], []⟩]
  layers := []

def loopedStore : Store :=
  .ofTable (.ofList [("a.ts", "interface A extends B, C, Missing \x7b\x7d\n" ++
    "interface B extends A, D \x7b\x7d\ninterface C extends D \x7b k: number; \x7d\n" ++
    "interface D \x7b k: string; \x7d\n")])

/-- A declaration that the snapshot does not have, registered by hand. -/
def outsider : Workspace :=
  (register ∅ ⟨"E", "e.ts", 0, 26, [], [" A "]⟩).2

/-- From outside the snapshot, the search goes through the cycle and finds the nearer writer. For a
key that nothing writes it ends as well, however many rounds there may be. -/
theorem resolveMember_nearest_looped :
    Asked looped outsider ∧ ReadsDeclarations looped loopedStore ∧
      (∃ member ws', resolveMember looped loopedStore 0 "k" outsider = .ok (some member) ws' ∧
        (ws'.declaration member.owner).name = "C" ∧
        (ws'.declaration member.owner).members.get? "k" = some member) ∧
      ∃ ws', ∀ visits, 5 < visits →
        searchMember looped loopedStore "z" visits [] [0] outsider = .ok none ws' ∧
        ∀ last, ((searchStep looped loopedStore "z")^[visits] last) [] [0] outsider =
          .ok none ws' := by
  let engine : Engine := ⟨looped, loopedStore, .default⟩
  have hempty : Asked looped ∅ := @Asked.engine looped engine ∅ rfl .empty
  have hasked : Asked looped outsider :=
    hempty.call (.register ⟨"E", "e.ts", 0, 26, [], [" A "]⟩) trivial trivial
  have hreads : ReadsDeclarations looped loopedStore := by
    intro declaration hmem
    have hfile : declaration.file = "a.ts" := by
      revert declaration
      decide +kernel
    rw [hfile]
    exact ⟨_, rfl⟩
  have hid : (0 : DeclId) < outsider.declarations.size := by decide +kernel
  let writer : Declaration :=
    ⟨"C", "a.ts", 65, 101, [⟨"k", 89, 90, 92, 98, "number", false⟩], ["D"]⟩
  refine ⟨hasked, hreads, ?_, ?_⟩
  · obtain ⟨found, ws', hrun, -, hnone, hnearest⟩ :=
      resolveMember_nearest hasked hreads hid "k"
    have hsecond : (generation (Origin.bases looped outsider) 2 [.entry 0]).find?
        (Origin.writes outsider "k") = some (.declared writer) := by
      decide +kernel
    have hnearer : ∀ m < 2, (generation (Origin.bases looped outsider) m [.entry 0]).find?
        (Origin.writes outsider "k") = none := by
      decide +kernel
    cases found with
    | none =>
      have hreaches := BreadthFirst.reaches_iff_exists_generation.2
        ⟨2, List.mem_of_find?_eq_some hsecond⟩
      have hwrites := List.find?_some hsecond
      rw [hnone.1 rfl _ hreaches] at hwrites
      cases hwrites
    | some member =>
      obtain ⟨origin, distance, hfirst, hbefore, hrealizes, hget⟩ := hnearest member rfl
      have hdistance : distance = 2 := by
        rcases Nat.lt_trichotomy distance 2 with hlt | heq | hgt
        · rw [hnearer distance hlt] at hfirst
          cases hfirst
        · exact heq
        · rw [hbefore 2 hgt] at hsecond
          cases hsecond
      subst hdistance
      rw [hsecond] at hfirst
      cases hfirst
      cases hrealizes with
      | declared new stands => exact ⟨member, ws', hrun, stands.name_eq, hget⟩
  · obtain ⟨found, ws', hrun, hends, -, -⟩ := resolveMember_nearest hasked hreads hid "z"
    have hmissed : (match resolveMember looped loopedStore 0 "z" outsider with
        | .ok found _ => found.isNone
        | .error _ _ => false) = true := by
      decide +kernel
    rw [hrun] at hmissed
    obtain rfl : found = none := Option.isNone_iff_eq_none.1 hmissed
    exact ⟨ws', hends⟩

end TypeMend.Workspace
