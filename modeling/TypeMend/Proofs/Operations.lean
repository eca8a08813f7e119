import TypeMend.Proofs.Growth

/-!
# What the operations of a workspace do

`Runs s x ws Q` says of an action that it only takes steps of a session, that its result satisfies
`Q`, and that nothing but a file the store cannot give makes it fail. There is one rule for each
way of composing actions, and one statement for each operation that the classification of
diagnostics uses. A look-up is stated by what the workspace answers afterwards, so that it can be
used for as long as the workspace grows.
-/
namespace TypeMend.Workspace

variable {α β : Type} {s : Setting} {ws : Workspace}

/-- What an action does from a workspace. -/
def Runs (s : Setting) (x : Action α) (ws : Workspace) (Q : α → Workspace → Prop) : Prop :=
  match x ws with
  | .ok a ws' => Evolves s ws ws' ∧ Q a ws'
  | .error failure ws' => Evolves s ws ws' ∧
      ∃ file fault, s.store file = .error fault ∧ failure = .unreadable file fault

@[simp] theorem modifyGet_apply (g : Workspace → α × Workspace) (ws : Workspace) :
    (modifyGet g : Action α) ws = .ok (g ws).1 (g ws).2 := rfl

theorem get_bind_apply (f : Workspace → Action α) (ws : Workspace) : (get >>= f) ws = f ws ws := rfl

/-- If one action after another succeeds, then each does. -/
theorem ok_of_bind_eq_ok {x : Action α} {f : α → Action β} {ws' : Workspace} {b : β}
    (h : (x >>= f) ws = .ok b ws') :
    ∃ a v, x ws = .ok a v ∧ f a v = .ok b ws' := by
  simp only [Bind.bind, EStateM.bind] at h
  cases hfirst : x ws with
  | error failure v =>
    rw [hfirst] at h
    cases h
  | ok a v =>
    rw [hfirst] at h
    exact ⟨a, v, rfl, h⟩

namespace Runs

variable {x : Action α} {f : α → Action β} {Q : α → Workspace → Prop}
  {R : β → Workspace → Prop}

theorem pure {a : α} (h : Q a ws) : Runs s (pure a) ws Q :=
  ⟨.refl, h⟩

theorem bind (hx : Runs s x ws Q)
    (hf : ∀ a ws', Evolves s ws ws' → Q a ws' → Runs s (f a) ws' R) :
    Runs s (x >>= f) ws R := by
  unfold Runs at hx ⊢
  simp only [Bind.bind, EStateM.bind]
  cases hrun : x ws with
  | ok a ws' =>
    rw [hrun] at hx
    have hnext := hf a ws' hx.1 hx.2
    unfold Runs at hnext
    dsimp only
    cases hrun' : f a ws' with
    | ok b ws'' =>
      rw [hrun'] at hnext
      exact ⟨hx.1.trans hnext.1, hnext.2⟩
    | error failure ws'' =>
      rw [hrun'] at hnext
      exact ⟨hx.1.trans hnext.1, hnext.2⟩
  | error failure ws' =>
    rw [hrun] at hx
    exact hx

theorem bind_congr {g : α → Action β} (hx : Runs s x ws Q)
    (hfg : ∀ a ws', Evolves s ws ws' → Q a ws' → f a ws' = g a ws') :
    (x >>= f) ws = (x >>= g) ws := by
  unfold Runs at hx
  simp only [Bind.bind, EStateM.bind]
  cases hrun : x ws with
  | ok a ws' =>
    rw [hrun] at hx
    exact hfg a ws' hx.1 hx.2
  | error failure ws' => rfl

theorem imp (hx : Runs s x ws Q) {R : α → Workspace → Prop}
    (h : ∀ a ws', x ws = .ok a ws' → Evolves s ws ws' → Q a ws' → R a ws') : Runs s x ws R := by
  unfold Runs at hx ⊢
  cases hrun : x ws with
  | ok a ws' =>
    rw [hrun] at hx
    exact ⟨hx.1, h a ws' hrun hx.1 hx.2⟩
  | error failure ws' =>
    rw [hrun] at hx
    exact hx

/-- An action that begins by reading the workspace. -/
theorem get_bind {f : Workspace → Action β} (h : Runs s (f ws) ws R) :
    Runs s (MonadState.get >>= f) ws R :=
  h

theorem modifyGet {g : Workspace → α × Workspace} (hg : Evolves s ws (g ws).2)
    (h : Q (g ws).1 (g ws).2) : Runs s (modifyGet g) ws Q :=
  ⟨hg, h⟩

end Runs

/-! ## Files -/

theorem loaded_iff {file : String} : ws.Loaded file ↔ ws.files.contains file = true := by
  simp [Loaded, fileText?, Table.contains, Option.isSome_iff_exists]

theorem ensureFile_runs (file : String) :
    Runs s (ensureFile s.store file) ws fun _ ws' =>
      ws'.Loaded file ∧ ws'.declarationIndex = ws.declarationIndex := by
  unfold Runs ensureFile
  split_ifs with hloaded
  · exact ⟨.refl, loaded_iff.2 hloaded, rfl⟩
  · have hfresh : ws.files.get? file = none := by
      simpa [Table.contains] using hloaded
    cases hread : s.store file with
    | ok text =>
      refine ⟨.single (.load hfresh hread), ⟨text, ?_⟩, rfl⟩
      simp [fileText?]
    | error fault => exact ⟨.refl, file, fault, hread, rfl⟩

theorem markProcessed_evolves (file : String) (offset : Nat) :
    Evolves s ws (ws.markProcessed file offset).2 :=
  .single (.mark ws file offset)

/-! ## Nodes -/

theorem intern_evolves {node : Node} (hnode : ws.Admits s.outside node) :
    Evolves s ws (ws.intern node).2 := by
  unfold intern
  cases hfound : ws.index.get? node.key with
  | some id => exact .refl
  | none => exact .single (.intern hfound hnode)

/-- The number of a shared node is the one under its key. -/
theorem index_intern (ws : Workspace) (node : Node) :
    (ws.intern node).2.index.get? node.key = some (ws.intern node).1 := by
  unfold intern
  cases hfound : ws.index.get? node.key with
  | some id => exact hfound
  | none => simp

@[simp] theorem intern_declarations (ws : Workspace) (node : Node) :
    (ws.intern node).2.declarations = ws.declarations := by
  unfold intern
  split <;> rfl

@[simp] theorem intern_declarationIndex (ws : Workspace) (node : Node) :
    (ws.intern node).2.declarationIndex = ws.declarationIndex := by
  unfold intern
  split <;> rfl

theorem addDetached_spec {node : Node} (hnode : ws.Admits s.outside node) :
    Evolves s ws (ws.addDetached node).2 ∧
      (ws.addDetached node).1 < (ws.addDetached node).2.nodes.size :=
  ⟨.single (.detach hnode), by simp [addDetached]⟩

/-- The key of a syntax node. Its written type is no part of it. -/
def sourceKey (node : SourceNode) : NodeKey :=
  (sourceNode node none).key

theorem index_internSource (ws : Workspace) (node : SourceNode) :
    (ws.internSource node).2.index.get? (sourceKey node) = some (ws.internSource node).1 := by
  unfold internSource
  cases node.writtenType with
  | none => exact index_intern ws _
  | some span => exact index_intern _ _

/-- A syntax node can be added with its written type, if both lie in loaded files or are known to
lie astray. -/
theorem internSource_evolves (hs : Sound s.outside ws) {node : SourceNode}
    (hfile : ws.Loaded node.file ∨ s.outside node.file)
    (hwritten : ∀ span, node.writtenType = some span →
      ws.Loaded span.file ∨ s.outside span.file) :
    Evolves s ws (ws.internSource node).2 := by
  unfold internSource
  cases hspan : node.writtenType with
  | none => exact intern_evolves (admits_of_unwritten rfl hfile)
  | some span =>
    have hfirst : Evolves s ws (ws.internSpan span "TypeAnnotation").2 :=
      intern_evolves (admits_of_unwritten rfl (hwritten span hspan))
    have hlt := (hfirst.sound hs).index_lt _ _ (index_intern ws (spanNode span "TypeAnnotation"))
    refine hfirst.trans (intern_evolves ?_)
    exact admits_of_written rfl hlt (hfile.imp_left hfirst.extends.loaded)

theorem internSource_runs (hs : Sound s.outside ws) {node : SourceNode}
    (hfile : ws.Loaded node.file ∨ s.outside node.file)
    (hwritten : ∀ span, node.writtenType = some span →
      ws.Loaded span.file ∨ s.outside span.file) :
    Runs s (modifyGet fun ws => ws.internSource node) ws
      fun id ws' => ws'.index.get? (sourceKey node) = some id :=
  .modifyGet (internSource_evolves hs hfile hwritten) (index_internSource ws node)

/-! ## Declarations -/

theorem internMember_spec (hs : Sound s.outside ws) (owner : DeclId) {file : String}
    (hfile : ws.Loaded file ∨ s.outside file) (member : MemberDeclaration) :
    Evolves s ws (ws.internMember owner file member).2 ∧
      (ws.internMember owner file member).2.Writes owner file member
        (ws.internMember owner file member).1 := by
  have hfirst : Evolves s ws (ws.intern (memberTypeNode file member)).2 :=
    intern_evolves (admits_of_unwritten rfl hfile)
  have hlt := (hfirst.sound hs).index_lt _ _ (index_intern ws (memberTypeNode file member))
  have hsecond : Evolves s (ws.intern (memberTypeNode file member)).2
      (ws.internMember owner file member).2 :=
    intern_evolves (admits_of_written rfl hlt (hfile.imp_left hfirst.extends.loaded))
  exact ⟨hfirst.trans hsecond, rfl, rfl, rfl,
    hsecond.extends.index_eq _ _ (index_intern ws _), index_intern _ _⟩

@[simp] theorem internMember_declarations (ws : Workspace) (owner : DeclId) (file : String)
    (member : MemberDeclaration) :
    (ws.internMember owner file member).2.declarations = ws.declarations := by
  simp [internMember]

@[simp] theorem internMember_declarationIndex (ws : Workspace) (owner : DeclId) (file : String)
    (member : MemberDeclaration) :
    (ws.internMember owner file member).2.declarationIndex = ws.declarationIndex := by
  simp [internMember]

@[simp] theorem internMembers_declarations (owner : DeclId) (file : String)
    (list : List MemberDeclaration) (members : Table String Member) (ws : Workspace) :
    (internMembers owner file list members ws).2.declarations = ws.declarations := by
  induction list generalizing members ws with
  | nil => rfl
  | cons member rest ih => simp [internMembers, ih]

@[simp] theorem internMembers_declarationIndex (owner : DeclId) (file : String)
    (list : List MemberDeclaration) (members : Table String Member) (ws : Workspace) :
    (internMembers owner file list members ws).2.declarationIndex = ws.declarationIndex := by
  induction list generalizing members ws with
  | nil => rfl
  | cons member rest ih => simp [internMembers, ih]

theorem internMembers_spec (hs : Sound s.outside ws) (owner : DeclId) {file : String}
    (hfile : ws.Loaded file ∨ s.outside file) (list : List MemberDeclaration)
    {written : List MemberDeclaration} {members : Table String Member}
    (hlist : ws.Lists owner file written members) :
    Evolves s ws (internMembers owner file list members ws).2 ∧
      (internMembers owner file list members ws).2.Lists owner file (written ++ list)
        (internMembers owner file list members ws).1 := by
  induction list generalizing written members ws with
  | nil => exact ⟨.refl, by simpa [internMembers] using hlist⟩
  | cons member rest ih =>
    obtain ⟨hevolves, hwrites⟩ := internMember_spec hs owner hfile member
    have hnext : (ws.internMember owner file member).2.Lists owner file (written ++ [member])
        (members.insert member.name (ws.internMember owner file member).1) := by
      intro key
      rw [MemberDeclaration.last?_snoc, Table.get?_insert]
      by_cases hkey : member.name = key
      · rw [if_pos hkey, if_pos hkey.symm]
        exact .some hwrites
      · rw [if_neg hkey, if_neg fun h => hkey h.symm]
        exact hevolves.extends.lists hlist key
    obtain ⟨hrest, hall⟩ := ih (hevolves.sound hs) (hfile.imp_left hevolves.extends.loaded) hnext
    rw [List.append_assoc] at hall
    exact ⟨hevolves.trans hrest, hall⟩

/-- What registering a declaration with a new name comes to: its nodes are shared, and then an entry
is added that describes it. -/
theorem register_of_unknown (hs : Sound s.outside ws) {declaration : Declaration}
    (hfile : ws.Loaded declaration.file ∨ s.outside declaration.file)
    (hunknown : ws.declarationIndex.get? declaration.name = none) :
    ∃ ws₁ entry, Evolves s ws ws₁ ∧ ws₁.Describes declaration entry ∧
      ws₁.declarationIndex = ws.declarationIndex ∧
      ws.register declaration = (ws₁.declarations.size,
        { ws₁ with
          declarations := ws₁.declarations.push entry
          declarationIndex :=
            ws₁.declarationIndex.insert declaration.name ws₁.declarations.size }) := by
  have hfirst : Evolves s ws (ws.intern (declarationNode declaration)).2 :=
    intern_evolves (admits_of_unwritten rfl hfile)
  have hnone : (ws.intern (declarationNode declaration)).2.Lists ws.declarations.size
      declaration.file [] ∅ := fun key => .none
  obtain ⟨hmembers, hlists⟩ := internMembers_spec (hfirst.sound hs) ws.declarations.size
    (hfile.imp_left hfirst.extends.loaded) declaration.members hnone
  have hdescribes : Describes _ declaration ⟨declaration.name, _, _, declaration.bases⟩ :=
    ⟨rfl, rfl, hmembers.extends.index_eq _ _ (index_intern ws _), by simpa using hlists⟩
  exact ⟨_, _, hfirst.trans hmembers, hdescribes, by simp, by simp [register, hunknown]⟩

/-- A declaration of the snapshot whose file is loaded can be registered. Nothing but its own name
is filed anew. -/
theorem register_spec (hs : Sound s.outside ws) {declaration : Declaration}
    (hnamed : s.snapshot.Named declaration) (hfile : ws.Loaded declaration.file) :
    Evolves s ws (ws.register declaration).2 ∧
      (ws.register declaration).2.declarationIndex.get? declaration.name =
        some (ws.register declaration).1 ∧
      ∀ text, text ≠ declaration.name →
        (ws.register declaration).2.declarationIndex.get? text = ws.declarationIndex.get? text := by
  cases hknown : ws.declarationIndex.get? declaration.name with
  | some id =>
    have hregister : ws.register declaration = (id, ws) := by simp [register, hknown]
    rw [hregister]
    exact ⟨.refl, hknown, fun _ _ => rfl⟩
  | none =>
    obtain ⟨ws₁, entry, hevolves, hdescribes, hindex, hregister⟩ :=
      register_of_unknown hs (.inl hfile) hknown
    rw [hregister]
    refine ⟨hevolves.tail (.declare hnamed (hindex ▸ hknown) hdescribes), ?_, fun text htext => ?_⟩
    · simp
    · simp [Table.get?_insert, htext, hindex]

/-- Looking a type up gives what is filed under its text from then on. -/
theorem resolve_runs (hs : Sound s.outside ws) (typeText : String) :
    Runs s (resolve s.snapshot s.store typeText) ws
      fun id ws' => ws'.declarationIndex.get? typeText = id := by
  unfold resolve
  refine Runs.get_bind ?_
  cases hknown : ws.declarationIndex.get? typeText with
  | some id => exact .pure hknown
  | none =>
    dsimp only
    split_ifs
    · exact .pure hknown
    · cases hfound : s.snapshot.declarationOf? typeText with
      | none => exact ⟨.single (.miss hfound), hknown⟩
      | some declaration =>
        refine (ensureFile_runs declaration.file).bind fun _ ws₁ h₁ hensured => ?_
        obtain ⟨hfile, hsame⟩ := hensured
        obtain ⟨h₂, hname, hothers⟩ :=
          register_spec (h₁.sound hs) (Snapshot.named_of_declarationOf? hfound) hfile
        have hagrees : ∀ old, (ws₁.register declaration).2.declarationIndex.get? typeText =
            some old → old = (ws₁.register declaration).1 := by
          intro old hold
          by_cases htext : typeText = declaration.name
          · rw [htext, hname] at hold
            exact (Option.some.inj hold).symm
          · rw [hothers typeText htext, hsame, hknown] at hold
            cases hold
        exact ⟨h₂.tail (.link hfound hname hagrees), by simp⟩

def HoldsAll (ws : Workspace) (ids : List DeclId) : Prop :=
  ∀ id ∈ ids, id < ws.declarations.size

theorem Extends.holdsAll {ws' : Workspace} (h : Extends ws ws') {ids : List DeclId}
    (hids : ws.HoldsAll ids) : ws'.HoldsAll ids :=
  fun id hid => (hids id hid).trans_le h.declarations_le

theorem resolveAll_runs (hs : Sound s.outside ws) (typeTexts : List String) :
    Runs s (resolveAll s.snapshot s.store typeTexts) ws fun ids ws' => ws'.HoldsAll ids := by
  induction typeTexts generalizing ws with
  | nil => exact .pure fun id hid => by simp at hid
  | cons typeText rest ih =>
    refine (resolve_runs hs typeText).bind fun id ws₁ h₁ hid => ?_
    refine (ih (h₁.sound hs)).bind fun ids ws₂ h₂ hids => .pure fun other hother => ?_
    rcases List.mem_append.1 hother with hfirst | hrest
    · rw [Option.mem_toList] at hfirst
      refine (h₂.sound (h₁.sound hs)).declarationIndex_lt typeText other ?_
      exact h₂.extends.declarationIndex_eq _ _ (hid.trans hfirst)
    · exact hids other hrest

/-- A workspace has a declaration, if one is named. -/
def HoldsDeclaration (ws : Workspace) (declaration : Option DeclId) : Prop :=
  ∀ id, declaration = some id → id < ws.declarations.size

theorem Extends.holdsDeclaration {ws' : Workspace} (h : Extends ws ws')
    {declaration : Option DeclId} (hdeclaration : ws.HoldsDeclaration declaration) :
    ws'.HoldsDeclaration declaration :=
  fun id hid => (hdeclaration id hid).trans_le h.declarations_le

/-- A declaration that is filed under a text is there. -/
theorem Sound.holdsDeclaration {outside : String → Prop} (hs : Sound outside ws) {typeText : String}
    {declaration : Option DeclId} (h : ws.declarationIndex.get? typeText = declaration) :
    ws.HoldsDeclaration declaration :=
  fun id hid => hs.declarationIndex_lt typeText id (h.trans hid)

/-- A member that some declaration of the workspace writes under a key. -/
def WritesKey (ws : Workspace) (key : String) (member : Member) : Prop :=
  ∃ id < ws.declarations.size, (ws.declaration id).members.get? key = some member

theorem Sound.holdsMember {outside : String → Prop} (hs : Sound outside ws) {key : String}
    {member : Member} (h : ws.WritesKey key member) : ws.HoldsMember member := by
  obtain ⟨id, hid, hmember⟩ := h
  exact hs.member_held id hid key member hmember

end TypeMend.Workspace
