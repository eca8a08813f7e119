import TypeMend.Proofs.Operations

/-!
# What a workspace remembers

A workspace remembers nodes under their keys, declarations under type texts, and the texts that
have none. `Faithful` says that these memories are true: a key leads to a node with that key, a type
text to the declaration that the snapshot has for it, and a text that is remembered as undeclared
has no declaration. A session keeps its workspace faithful, so a look-up gives what the snapshot
would give, however the workspace came about. The search for a member then follows the
breadth-first order of the snapshot.
-/
namespace TypeMend.Workspace

variable {snapshot : Snapshot} {s : Setting} {ws ws' : Workspace}

/-- A number stands for a declaration of the snapshot: its entry has the name, the bases and the
members of the declaration, and it is filed under the name. -/
structure Stands (snapshot : Snapshot) (ws : Workspace) (declaration : Declaration) (id : DeclId) :
    Prop where
  named : snapshot.Named declaration
  lt : id < ws.declarations.size
  name_eq : (ws.declaration id).name = declaration.name
  bases_eq : (ws.declaration id).bases = declaration.bases
  lists : ws.Lists id declaration.file declaration.members (ws.declaration id).members
  filed : ws.declarationIndex.get? declaration.name = some id

theorem Extends.stands (h : Extends ws ws') {declaration : Declaration} {id : DeclId}
    (hstands : Stands snapshot ws declaration id) : Stands snapshot ws' declaration id where
  named := hstands.named
  lt := hstands.lt.trans_le h.declarations_le
  name_eq := by rw [h.declaration_eq id hstands.lt, hstands.name_eq]
  bases_eq := by rw [h.declaration_eq id hstands.lt, hstands.bases_eq]
  lists := by
    rw [h.declaration_eq id hstands.lt]
    exact h.lists hstands.lists
  filed := h.declarationIndex_eq _ _ hstands.filed

theorem Stands.id_eq {declaration : Declaration} {id id' : DeclId}
    (h : Stands snapshot ws declaration id) (h' : Stands snapshot ws declaration id') : id = id' :=
  Option.some.inj (h.filed.symm.trans h'.filed)

theorem Stands.declaration_eq {declaration declaration' : Declaration} {id : DeclId}
    (h : Stands snapshot ws declaration id) (h' : Stands snapshot ws declaration' id) :
    declaration = declaration' :=
  h.named.eq_of_name h'.named (h.name_eq.symm.trans h'.name_eq)

/-- The entry that is added for a declaration stands for it. -/
theorem stands_declare {declaration : Declaration} {entry : DeclarationEntry}
    (hnamed : snapshot.Named declaration)
    (hfresh : ws.declarationIndex.get? declaration.name = none)
    (hdescribed : ws.Describes declaration entry) :
    Stands snapshot
      { ws with
        declarations := ws.declarations.push entry
        declarationIndex := ws.declarationIndex.insert declaration.name ws.declarations.size }
      declaration ws.declarations.size := by
  have hentry : (ws.declarations.push entry).getD ws.declarations.size default = entry :=
    getD_push_of_ge _ _ _ le_rfl (by simp)
  refine ⟨hnamed, by simp, (congrArg DeclarationEntry.name hentry).trans hdescribed.name_eq,
    (congrArg DeclarationEntry.bases hentry).trans hdescribed.bases_eq, ?_, by simp⟩
  rw [Workspace.declaration, hentry]
  exact (extends_declare hfresh entry).lists hdescribed.lists

/-- A step adds no declaration but one that stands for one of the snapshot. -/
theorem Step.lt_or_stands (h : Step s ws ws') {id : DeclId} (hid : id < ws'.declarations.size) :
    id < ws.declarations.size ∨ ∃ declaration, Stands s.snapshot ws' declaration id := by
  cases h with
  | load _ _ => exact .inl hid
  | mark file offset =>
    obtain ⟨files, unbuffered, heq, -⟩ := markProcessed_eq ws file offset
    rw [heq] at hid
    exact .inl hid
  | intern _ _ => exact .inl hid
  | detach _ => exact .inl hid
  | miss _ => exact .inl hid
  | @declare declaration entry named fresh described =>
    rcases Nat.lt_or_ge id ws.declarations.size with hlt | hge
    · exact .inl hlt
    · have hlast : id = ws.declarations.size :=
        Nat.le_antisymm (by simpa [Nat.lt_succ_iff] using hid) hge
      rw [hlast]
      exact .inr ⟨declaration, stands_declare named fresh described⟩
  | link _ _ _ => exact .inl hid

/-- Every declaration of a session stands for one of the snapshot. -/
theorem Evolves.exists_stands (h : Evolves s ∅ ws) {id : DeclId}
    (hid : id < ws.declarations.size) :
    ∃ declaration, Stands s.snapshot ws declaration id := by
  induction h with
  | refl => exact absurd hid (Nat.not_lt_zero _)
  | tail _ hstep ih =>
    rcases hstep.lt_or_stands hid with hold | hnew
    · obtain ⟨declaration, hstands⟩ := ih hold
      exact ⟨declaration, hstep.extends.stands hstands⟩
    · exact hnew

/-- What a workspace remembers is true. -/
structure Faithful (snapshot : Snapshot) (ws : Workspace) : Prop where
  keyed : ∀ key id, ws.index.get? key = some id → id < ws.nodes.size ∧ (ws.node id).key = key
  filed : ∀ typeText id, ws.declarationIndex.get? typeText = some id →
    ∃ declaration, snapshot.declarationOf? typeText = some declaration ∧
      Stands snapshot ws declaration id
  unresolved : ∀ typeText ∈ ws.unresolved, snapshot.declarationOf? typeText = none

theorem faithful_empty (snapshot : Snapshot) : Faithful snapshot ∅ where
  keyed _ _ h := by cases h
  filed _ _ h := by cases h
  unresolved _ h := by cases h

/-- What a workspace remembered stays true when it grows, so that only what is new has to be
looked at. -/
theorem Faithful.of_extends (hf : Faithful snapshot ws) (hext : Extends ws ws')
    (hkeyed : ∀ key id, ws'.index.get? key = some id →
      ws.index.get? key = some id ∨ id < ws'.nodes.size ∧ (ws'.node id).key = key)
    (hfiled : ∀ typeText id, ws'.declarationIndex.get? typeText = some id →
      ws.declarationIndex.get? typeText = some id ∨
        ∃ declaration, snapshot.declarationOf? typeText = some declaration ∧
          Stands snapshot ws' declaration id)
    (hunresolved : ∀ typeText ∈ ws'.unresolved,
      typeText ∈ ws.unresolved ∨ snapshot.declarationOf? typeText = none) :
    Faithful snapshot ws' where
  keyed key id hid := by
    rcases hkeyed key id hid with hold | hnew
    · obtain ⟨hlt, hkey⟩ := hf.keyed key id hold
      exact ⟨hlt.trans_le hext.size_le, by rw [hext.node_eq id hlt, hkey]⟩
    · exact hnew
  filed typeText id hid := by
    rcases hfiled typeText id hid with hold | hnew
    · obtain ⟨declaration, hfound, hstands⟩ := hf.filed typeText id hold
      exact ⟨declaration, hfound, hext.stands hstands⟩
    · exact hnew
  unresolved typeText hmem := (hunresolved typeText hmem).elim (hf.unresolved typeText) id

theorem Step.faithful (h : Step s ws ws') (hf : Faithful s.snapshot ws) :
    Faithful s.snapshot ws' := by
  have hext := h.extends
  cases h with
  | load _ _ =>
    exact hf.of_extends hext (fun _ _ h => .inl h) (fun _ _ h => .inl h) (fun _ h => .inl h)
  | mark file offset =>
    obtain ⟨files, unbuffered, heq, -⟩ := markProcessed_eq ws file offset
    rw [heq] at hext ⊢
    exact hf.of_extends hext (fun _ _ h => .inl h) (fun _ _ h => .inl h) (fun _ h => .inl h)
  | @intern node _ _ =>
    refine hf.of_extends hext (fun key id hid => ?_) (fun _ _ h => .inl h) (fun _ h => .inl h)
    rw [Table.get?_insert] at hid
    split_ifs at hid with hkey
    · cases hid
      refine .inr ⟨by simp, ?_⟩
      rw [Workspace.node, getD_push_of_ge _ _ _ le_rfl (by simp), hkey]
    · exact .inl hid
  | detach _ =>
    exact hf.of_extends hext (fun _ _ h => .inl h) (fun _ _ h => .inl h) (fun _ h => .inl h)
  | @miss typeText unknown =>
    refine hf.of_extends hext (fun _ _ h => .inl h) (fun _ _ h => .inl h) fun other hother => ?_
    rcases List.mem_cons.1 hother with rfl | hother
    · exact .inr unknown
    · exact .inl hother
  | @declare declaration entry named fresh described =>
    refine hf.of_extends hext (fun _ _ h => .inl h) (fun typeText id hid => ?_) (fun _ h => .inl h)
    rw [Table.get?_insert] at hid
    split_ifs at hid with htext
    · cases hid
      exact .inr ⟨declaration, htext ▸ named, stands_declare named fresh described⟩
    · exact .inl hid
  | @link typeText declaration id found known _ =>
    refine hf.of_extends hext (fun _ _ h => .inl h) (fun other id hid => ?_) (fun _ h => .inl h)
    rw [Table.get?_insert] at hid
    split_ifs at hid with htext
    · cases hid
      obtain ⟨_, hfound, hstands⟩ := hf.filed _ _ known
      cases (Snapshot.named_of_declarationOf? found).symm.trans hfound
      exact .inr ⟨declaration, htext ▸ found, hext.stands hstands⟩
    · exact .inl hid

/-- A session keeps its workspace faithful. -/
theorem Evolves.faithful (h : Evolves s ws ws') (hf : Faithful s.snapshot ws) :
    Faithful s.snapshot ws' := by
  induction h with
  | refl => exact hf
  | tail _ hstep ih => exact hstep.faithful ih

/-! ## Looking declarations up -/

/-- Where the answer of a look-up comes from: the index, the memory of misses, or the snapshot. -/
theorem resolve_eq (snapshot : Snapshot) (store : Store) (typeText : String) (ws : Workspace) :
    resolve snapshot store typeText ws =
      match ws.declarationIndex.get? typeText with
      | some id => .ok (some id) ws
      | none =>
        if ws.unresolved.contains typeText then .ok none ws
        else
          match snapshot.declarationOf? typeText with
          | none => .ok none { ws with unresolved := typeText :: ws.unresolved }
          | some declaration =>
            match ensureFile store declaration.file ws with
            | .error failure ws => .error failure ws
            | .ok _ ws =>
              let registered := ws.register declaration
              .ok (some registered.1) { registered.2 with
                declarationIndex :=
                  registered.2.declarationIndex.insert typeText registered.1 } := by
  rw [resolve, get_bind_apply]
  cases ws.declarationIndex.get? typeText with
  | some id => rfl
  | none =>
    dsimp only
    split_ifs
    · rfl
    · cases snapshot.declarationOf? typeText with
      | none => rfl
      | some declaration =>
        simp only [Bind.bind, EStateM.bind]
        cases ensureFile store declaration.file ws <;> rfl

theorem declarationOf?_eq_none_of_resolve {store : Store} {typeText : String}
    (hmissed : ∀ text ∈ ws.unresolved, snapshot.declarationOf? text = none)
    (h : resolve snapshot store typeText ws = .ok none ws') :
    snapshot.declarationOf? typeText = none := by
  rw [resolve_eq] at h
  split at h
  · cases h
  · split_ifs at h with hremembered
    · exact hmissed typeText (by simpa using hremembered)
    · split at h
      · assumption
      · split at h <;> cases h

/-- Looking a type up finds the number of the declaration that the snapshot has for it. -/
theorem resolve_finds (hs : Sound s.outside ws) (hf : Faithful s.snapshot ws) (typeText : String) :
    Runs s (resolve s.snapshot s.store typeText) ws fun id ws' =>
      Option.Rel (Stands s.snapshot ws') (s.snapshot.declarationOf? typeText) id := by
  refine (resolve_runs hs typeText).imp fun id ws' hrun hevolves hid => ?_
  cases id with
  | some id =>
    obtain ⟨declaration, hfound, hstands⟩ := (hevolves.faithful hf).filed _ _ hid
    rw [hfound]
    exact .some hstands
  | none =>
    rw [declarationOf?_eq_none_of_resolve hf.unresolved hrun]
    exact .none

theorem Extends.forall₂_stands (h : Extends ws ws') {declarations : List Declaration}
    {ids : List DeclId} (hall : List.Forall₂ (Stands snapshot ws) declarations ids) :
    List.Forall₂ (Stands snapshot ws') declarations ids :=
  hall.imp fun _ _ => h.stands

theorem resolveAll_finds (hs : Sound s.outside ws) (hf : Faithful s.snapshot ws)
    (typeTexts : List String) :
    Runs s (resolveAll s.snapshot s.store typeTexts) ws fun ids ws' =>
      List.Forall₂ (Stands s.snapshot ws') (typeTexts.filterMap s.snapshot.declarationOf?) ids := by
  induction typeTexts generalizing ws with
  | nil => exact .pure .nil
  | cons typeText rest ih =>
    refine (resolve_finds hs hf typeText).bind fun id ws₁ h₁ hid => ?_
    refine (ih (h₁.sound hs) (h₁.faithful hf)).bind fun ids ws₂ h₂ hids => .pure ?_
    cases hfound : s.snapshot.declarationOf? typeText with
    | none =>
      rw [hfound] at hid
      cases hid
      simpa [hfound] using hids
    | some declaration =>
      rw [hfound] at hid
      obtain ⟨number, rfl, hstands⟩ := hid.of_left
      simpa [hfound] using ⟨h₂.extends.stands hstands, hids⟩

/-! ## Searching members -/

/-- A member is the one that a declaration writes under a key. -/
def Provides (snapshot : Snapshot) (ws : Workspace) (key : String) (declaration : Declaration)
    (member : Member) : Prop :=
  ∃ written, Stands snapshot ws declaration member.owner ∧
    declaration.written? key = some written ∧
    ws.Writes member.owner declaration.file written member

theorem Extends.provides (h : Extends ws ws') {key : String} {declaration : Declaration}
    {member : Member} (hprovides : Provides snapshot ws key declaration member) :
    Provides snapshot ws' key declaration member := by
  obtain ⟨written, hstands, hwritten, hwrites⟩ := hprovides
  exact ⟨written, h.stands hstands, hwritten, h.writes hwrites⟩

/-- What the entry of a declaration has under a key. -/
theorem Stands.provides {declaration : Declaration} {id : DeclId}
    (h : Stands snapshot ws declaration id) (key : String) :
    Option.Rel (fun _ => Provides snapshot ws key declaration) (declaration.written? key)
      ((ws.declaration id).members.get? key) := by
  have hrel := h.lists key
  cases hmember : (ws.declaration id).members.get? key with
  | none =>
    rw [hmember] at hrel
    cases hlast : MemberDeclaration.last? declaration.members key with
    | none => rw [Declaration.written?, hlast]; exact .none
    | some written => rw [hlast] at hrel; cases hrel
  | some member =>
    rw [hmember] at hrel
    obtain ⟨written, hlast, hwrites⟩ := hrel.of_right
    rw [Declaration.written?, hlast]
    have howner := hwrites.owner_eq
    subst howner
    exact .some ⟨written, h, hlast, hwrites⟩

theorem dropWhile_forall₂ {α β : Type} {R : α → β → Prop} {p : α → Bool} {q : β → Bool}
    (hpq : ∀ a b, R a b → p a = q b) {xs : List α} {ys : List β} (h : List.Forall₂ R xs ys) :
    List.Forall₂ R (xs.dropWhile p) (ys.dropWhile q) := by
  induction h with
  | nil => exact .nil
  | @cons a b _ _ hab hrest ih =>
    rw [List.dropWhile_cons, List.dropWhile_cons, hpq a b hab]
    split_ifs
    · exact ih
    · exact .cons hab hrest

/-- Having been seen means the same for a number and for the declaration that it stands for. -/
theorem mem_seen_iff {seen : List Declaration} {ids : List DeclId}
    (hseen : List.Forall₂ (Stands snapshot ws) seen ids) {declaration : Declaration} {id : DeclId}
    (h : Stands snapshot ws declaration id) : declaration ∈ seen ↔ id ∈ ids := by
  induction hseen with
  | nil => simp
  | cons hhead _ ih =>
    rw [List.mem_cons, List.mem_cons, ih]
    refine or_congr_left ⟨fun heq => ?_, fun heq => ?_⟩
    · subst heq
      exact h.id_eq hhead
    · subst heq
      exact h.declaration_eq hhead

/-- A search looks through declarations in the breadth-first order of the snapshot and stops at the
first that writes the key. -/
theorem searchMember_finds (hs : Sound s.outside ws) (hf : Faithful s.snapshot ws) (key : String)
    (visits : Nat) {seen queue : List Declaration} {seenIds queueIds : List DeclId}
    (hseen : List.Forall₂ (Stands s.snapshot ws) seen seenIds)
    (hqueue : List.Forall₂ (Stands s.snapshot ws) queue queueIds) :
    Runs s (searchMember s.snapshot s.store key visits seenIds queueIds) ws fun found ws' =>
      Option.Rel (Provides s.snapshot ws' key)
        ((s.snapshot.visitQueue visits seen queue).find? fun other => other.writes key) found := by
  induction visits generalizing ws seen queue seenIds queueIds with
  | zero => exact .pure .none
  | succ visits ih =>
    have hnext := dropWhile_forall₂ (p := fun other => decide (other ∈ seen))
      (q := seenIds.contains)
      (fun other id h => by simp [mem_seen_iff hseen h]) hqueue
    unfold searchMember searchStep Snapshot.visitQueue
    cases hids : queueIds.dropWhile seenIds.contains with
    | nil =>
      rw [hids] at hnext
      rw [List.forall₂_nil_right_iff.1 hnext]
      exact .pure .none
    | cons id restIds =>
      rw [hids] at hnext
      obtain ⟨next, rest, hstands, hrest, hdrop⟩ := List.forall₂_cons_right_iff.1 hnext
      rw [hdrop]
      refine .get_bind ?_
      have hprovides := hstands.provides key
      dsimp only
      cases hmember : (ws.declaration id).members.get? key with
      | some member =>
        rw [hmember] at hprovides
        obtain ⟨written, hwritten, hprovided⟩ := hprovides.of_right
        rw [List.find?_cons_of_pos (by simp [Declaration.writes, hwritten])]
        exact .pure (.some hprovided)
      | none =>
        rw [hmember] at hprovides
        have hwritten : next.writes key = false := by
          rw [Declaration.writes, hprovides.isSome_eq]
          rfl
        rw [List.find?_cons_of_neg (by simp [hwritten])]
        refine (resolveAll_finds hs hf _).bind fun bases ws₁ h₁ hbases => ?_
        rw [hstands.bases_eq] at hbases
        exact ih (h₁.sound hs) (h₁.faithful hf)
          (.cons (h₁.extends.stands hstands) (h₁.extends.forall₂_stands hseen))
          (List.rel_append (h₁.extends.forall₂_stands hrest) hbases)

/-- The member of a declaration is the one that the first declaration in breadth-first order
writes. -/
theorem resolveMember_finds (hs : Sound s.outside ws) (hf : Faithful s.snapshot ws)
    {declaration : Declaration} {id : DeclId} (h : Stands s.snapshot ws declaration id)
    (key : String) :
    Runs s (resolveMember s.snapshot s.store id key) ws fun found ws' =>
      Option.Rel (Provides s.snapshot ws' key) (s.snapshot.writerByBreadth? declaration key)
        found := by
  have hlength : (s.snapshot.unvisited []).length ≤ s.snapshot.declarations.length :=
    List.length_filter_le _ _
  refine .get_bind ?_
  rw [Snapshot.writerByBreadth?, Snapshot.breadthFirst,
    Snapshot.visitQueue_eq (by simpa using h.named) (Nat.lt_succ_of_le hlength)
      (show (s.snapshot.unvisited []).length <
        ws.declarations.size + s.snapshot.declarations.length + 1 by omega)]
  exact searchMember_finds hs hf key _ .nil (.cons h .nil)

end TypeMend.Workspace
