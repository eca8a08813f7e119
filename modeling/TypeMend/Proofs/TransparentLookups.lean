import TypeMend.Proofs.Calls

/-!
# Looking declarations up

A look-up is answered from the index, from the memory of misses or from the snapshot, and the index
has names and further texts side by side. None of this shows: over any sequence of look-ups, of
types and of members, with reads that may fail, the answer to a text is the declaration that the
snapshot has for it. The number stands for an entry with the name, the bases and the members of that
declaration, and two answers have one number exactly if they are about one declaration.

`Consults` is what holds along the log of such a sequence: one call keeps it, and so do all.
-/
namespace TypeMend.Workspace

variable {snapshot : Snapshot} {store : Store} {ws ws' : Workspace}

/-! ## The order of members -/

/-- Members stand where their names are first written. -/
theorem keys_internMembers (owner : DeclId) (file : String) (list : List MemberDeclaration)
    (members : Table String Member) (ws : Workspace) :
    (internMembers owner file list members ws).1.keys =
      (members.keys ++ list.map MemberDeclaration.name).eraseDups := by
  induction list generalizing members ws with
  | nil => simpa [internMembers] using members.nodup_keys.eraseDups_eq.symm
  | cons member rest ih =>
    rw [internMembers, ih, Table.insert, Table.eraseDups_keys_alter, List.map_cons]

/-- An entry has the name of a declaration, and its members stand in the order of the
declaration. -/
def Tabulates (declaration : Declaration) (entry : DeclarationEntry) : Prop :=
  entry.name = declaration.name ∧
    entry.members.keys = (declaration.members.map MemberDeclaration.name).eraseDups

/-- Every entry is in the order of a declaration of the snapshot. -/
def Tabulated (snapshot : Snapshot) (ws : Workspace) : Prop :=
  ∀ id < ws.declarations.size, ∃ declaration, snapshot.Named declaration ∧
    Tabulates declaration (ws.declaration id)

theorem tabulated_empty (snapshot : Snapshot) : Tabulated snapshot ∅ :=
  fun _ hid => absurd hid (Nat.not_lt_zero _)

theorem Tabulated.push (h : Tabulated snapshot ws) {declaration : Declaration}
    {entry : DeclarationEntry} (hnamed : snapshot.Named declaration)
    (hentry : Tabulates declaration entry)
    (heq : ws'.declarations = ws.declarations.push entry) : Tabulated snapshot ws' := by
  intro id hid
  rw [heq] at hid
  rw [Workspace.declaration, heq]
  rcases Nat.lt_or_ge id ws.declarations.size with hlt | hge
  · rw [getD_push_of_lt _ _ _ hlt]
    exact h id hlt
  · rw [getD_push_of_ge _ _ _ hge hid]
    exact ⟨declaration, hnamed, hentry⟩

theorem register_tabulated (h : Tabulated snapshot ws) {declaration : Declaration}
    (hnamed : snapshot.Named declaration) : Tabulated snapshot (ws.register declaration).2 := by
  unfold register
  cases ws.declarationIndex.get? declaration.name with
  | some id => exact h
  | none =>
    let entry : DeclarationEntry :=
      ⟨declaration.name, (ws.intern (declarationNode declaration)).1,
        (internMembers ws.declarations.size declaration.file declaration.members ∅
          (ws.intern (declarationNode declaration)).2).1, declaration.bases⟩
    have hentry : Tabulates declaration entry := ⟨rfl, keys_internMembers _ _ _ _ _⟩
    exact h.push hnamed hentry (by simp [entry])

theorem ensureFile_tabulated (snapshot : Snapshot) (store : Store) (file : String) :
    Preserves (Tabulated snapshot) (ensureFile store file) := by
  intro ws h
  unfold after ensureFile
  split_ifs
  · exact h
  · cases store file <;> exact h

/-- Looking a type up keeps the order of members. -/
theorem resolve_tabulated (snapshot : Snapshot) (store : Store) (typeText : String) :
    Preserves (Tabulated snapshot) (resolve snapshot store typeText) := by
  unfold resolve
  refine .get_bind fun ws h => ?_
  cases ws.declarationIndex.get? typeText with
  | some id => exact h
  | none =>
    dsimp only
    split_ifs
    · exact h
    · cases hfound : snapshot.declarationOf? typeText with
      | none => exact h
      | some declaration =>
        have hregister : Preserves (Tabulated snapshot)
            (modifyGet fun ws => ws.register declaration : Action DeclId) :=
          fun _ h => register_tabulated h (Snapshot.named_of_declarationOf? hfound)
        have hfile (id : DeclId) : Preserves (Tabulated snapshot) (modify fun ws =>
            { ws with declarationIndex := ws.declarationIndex.insert typeText id } : Action Unit) :=
          fun _ h => h
        exact ((ensureFile_tabulated snapshot store _).bind fun _ => hregister.bind fun id =>
          (hfile id).bind fun _ => .pure _) ws h

theorem resolveMember_tabulated (snapshot : Snapshot) (store : Store) (id : DeclId)
    (key : String) :
    Preserves (Tabulated snapshot) (resolveMember snapshot store id key) :=
  (Preserves.compositional _).resolveMember (resolve_tabulated snapshot store) id key

/-! ## What an entry says -/

/-- The entry with a number says what a declaration says: it has the same name and the same bases,
and the names of the members in the order in which they are first written, each as it is written
last. -/
structure Mirrors (ws : Workspace) (declaration : Declaration) (id : DeclId) : Prop where
  lt : id < ws.declarations.size
  name_eq : (ws.declaration id).name = declaration.name
  bases_eq : (ws.declaration id).bases = declaration.bases
  keys_eq : (ws.declaration id).members.keys =
    (declaration.members.map MemberDeclaration.name).eraseDups
  written_eq : ∀ key,
    ((ws.declaration id).members.get? key).map (fun member => (member.name, member.optional)) =
      (declaration.written? key).map fun written => (written.name, written.optional)

theorem Stands.mirrors {declaration : Declaration} {id : DeclId}
    (h : Stands snapshot ws declaration id) (ht : Tabulated snapshot ws) :
    Mirrors ws declaration id where
  lt := h.lt
  name_eq := h.name_eq
  bases_eq := h.bases_eq
  keys_eq := by
    obtain ⟨other, hnamed, hname, hkeys⟩ := ht id h.lt
    rwa [h.named.eq_of_name hnamed (h.name_eq.symm.trans hname)]
  written_eq key := by
    refine ((h.lists key).map_eq fun written member hwrites => ?_).symm
    rw [hwrites.name_eq, hwrites.optional_eq]

/-! ## Answers -/

/-- The reply to a look-up is what the snapshot has for a text, or the file of the declaration
cannot be read. -/
def Answers (snapshot : Snapshot) (store : Store) (typeText : String)
    (R : Declaration → DeclId → Prop) (reply : Reply) : Prop :=
  (∃ found, reply = .declaration found ∧ Option.Rel R (snapshot.declarationOf? typeText) found) ∨
    ∃ declaration fault, snapshot.declarationOf? typeText = some declaration ∧
      store declaration.file = .error fault ∧
      reply = .failed (.unreadable declaration.file fault)

theorem Answers.imp {typeText : String} {R R' : Declaration → DeclId → Prop} {reply : Reply}
    (h : Answers snapshot store typeText R reply)
    (himp : ∀ declaration id, R declaration id → R' declaration id) :
    Answers snapshot store typeText R' reply :=
  h.imp_left fun ⟨found, hreply, hrel⟩ => ⟨found, hreply, hrel.imp himp⟩

theorem Answers.rel {typeText : String} {R : Declaration → DeclId → Prop} {found : Option DeclId}
    (h : Answers snapshot store typeText R (.declaration found)) :
    Option.Rel R (snapshot.declarationOf? typeText) found := by
  rcases h with ⟨_, hreply, hrel⟩ | ⟨_, _, _, _, hreply⟩
  · cases hreply
    exact hrel
  · cases hreply

theorem resolve_answers (ho : ws.Ordered) (hf : Faithful snapshot ws) (store : Store)
    (typeText : String) :
    Answers snapshot store typeText
      (Stands snapshot (Call.perform ws (.resolve snapshot store typeText)).2)
      (Call.perform ws (.resolve snapshot store typeText)).1 := by
  have hfinds : Runs (.anywhere snapshot store) (resolve snapshot store typeText) ws _ :=
    resolve_finds ho.toSound hf typeText
  simp only [Call.perform, Action.reply]
  cases hrun : resolve snapshot store typeText ws with
  | ok found ws₁ => exact .inl ⟨found, rfl, (hfinds.of_ok hrun).2⟩
  | error failure ws₁ =>
    obtain ⟨-, declaration, fault, hfound, hread, rfl⟩ := resolve_fault hrun
    exact .inr ⟨declaration, fault, hfound, hread, rfl⟩

/-! ## Sequences of look-ups -/

/-- A call looks up a type or a member in a snapshot. -/
def Call.LooksUp (snapshot : Snapshot) : Call → Prop
  | resolve other _ _ | resolveMember other _ _ _ => other = snapshot
  | _ => False

/-- A look-up takes steps of a session with the snapshot. -/
theorem Call.LooksUp.evolves {call : Call} (h : call.LooksUp snapshot) (ho : ws.Ordered) :
    ∃ store, Evolves (.anywhere snapshot store) ws (call.perform ws).2 := by
  have hcall : call.Admitted ws ∧ call.Asks snapshot := by
    cases call with
    | resolve other store typeText => exact ⟨trivial, h⟩
    | resolveMember other store id key => exact ⟨trivial, h⟩
    | _ => exact h.elim
  rcases call.perform_evolves ho hcall.1 hcall.2 with hevolves | ⟨declaration, rfl⟩
  · exact hevolves
  · exact h.elim

theorem Call.LooksUp.tabulated {call : Call} (h : call.LooksUp snapshot)
    (ht : Tabulated snapshot ws) : Tabulated snapshot (call.perform ws).2 := by
  cases call with
  | resolve other store typeText =>
    cases h
    rw [perform, Action.reply_snd]
    exact resolve_tabulated snapshot store typeText ws ht
  | resolveMember other store id key =>
    cases h
    rw [perform, Action.reply_snd]
    exact resolveMember_tabulated snapshot store id key ws ht
  | _ => exact h.elim

/-- What holds along a sequence of look-ups: the workspace is in order and remembers what is true,
and the replies in the log still hold. -/
structure Consults (snapshot : Snapshot) (log : List (Call × Reply)) (ws : Workspace) : Prop where
  ordered : ws.Ordered
  faithful : Faithful snapshot ws
  tabulated : Tabulated snapshot ws
  answered : ∀ store typeText reply, (.resolve snapshot store typeText, reply) ∈ log →
    Answers snapshot store typeText (Stands snapshot ws) reply

theorem consults_empty (snapshot : Snapshot) : Consults snapshot [] ∅ where
  ordered := ordered_empty
  faithful := faithful_empty snapshot
  tabulated := tabulated_empty snapshot
  answered _ _ _ h := by cases h

/-- One more look-up. -/
theorem Consults.call {log : List (Call × Reply)} (h : Consults snapshot log ws) {call : Call}
    (hlooks : call.LooksUp snapshot) :
    Consults snapshot (log ++ [(call, (call.perform ws).1)]) (call.perform ws).2 := by
  obtain ⟨_, hevolves⟩ := hlooks.evolves h.ordered
  refine ⟨hevolves.grows.ordered h.ordered, hevolves.faithful h.faithful,
    hlooks.tabulated h.tabulated, fun store typeText reply hmem => ?_⟩
  rcases List.mem_append.1 hmem with hold | hnew
  · exact (h.answered store typeText reply hold).imp fun _ _ => hevolves.extends.stands
  · obtain ⟨rfl, rfl⟩ := Prod.mk.inj (List.mem_singleton.1 hnew)
    exact resolve_answers h.ordered h.faithful store typeText

/-- Look-ups one after the other. -/
theorem Performs.consults {log : List (Call × Reply)} (h : Performs ∅ log ws)
    (hlooks : ∀ entry ∈ log, entry.1.LooksUp snapshot) : Consults snapshot log ws := by
  induction h with
  | start => exact consults_empty snapshot
  | call before call admitted ih =>
    refine (ih fun entry hentry => hlooks entry (List.mem_append_left _ hentry)).call ?_
    exact hlooks _ (List.mem_append_right _ (List.mem_singleton.2 rfl))

/-- Two answers have one number exactly if they are about one declaration. -/
theorem Consults.declarationOf?_eq_iff {log : List (Call × Reply)} (h : Consults snapshot log ws)
    {store store' : Store} {typeText typeText' : String} {found found' : Option DeclId}
    (hfound : (.resolve snapshot store typeText, .declaration found) ∈ log)
    (hfound' : (.resolve snapshot store' typeText', .declaration found') ∈ log) :
    snapshot.declarationOf? typeText = snapshot.declarationOf? typeText' ↔ found = found' := by
  refine (h.answered _ _ _ hfound).rel.eq_iff (h.answered _ _ _ hfound').rel ?_
  intro declaration declaration' id id' hstands hstands'
  constructor
  · rintro rfl
    exact hstands.id_eq hstands'
  · rintro rfl
    exact hstands.declaration_eq hstands'

/-- Remembering what was looked up does not show. In any sequence of look-ups of types and members
on a new workspace, from whatever stores and whether they fail or not, a text is answered with the
declaration that the snapshot has for it, or the file of that declaration cannot be read. The number
in an answer is that of an entry that says what the declaration says. Texts with the same normal
form have the same number, and texts of differently named declarations have different ones. -/
theorem lookups_give_declarations {log : List (Call × Reply)} (h : Performs ∅ log ws)
    (hlooks : ∀ entry ∈ log, entry.1.LooksUp snapshot) :
    (∀ store typeText reply, (.resolve snapshot store typeText, reply) ∈ log →
        Answers snapshot store typeText (Mirrors ws) reply) ∧
      ∀ store store' typeText typeText' found found',
        (.resolve snapshot store typeText, .declaration found) ∈ log →
        (.resolve snapshot store' typeText', .declaration found') ∈ log →
        (TypeText.normalize typeText = TypeText.normalize typeText' → found = found') ∧
          ∀ declaration declaration', snapshot.declarationOf? typeText = some declaration →
            snapshot.declarationOf? typeText' = some declaration' →
            declaration.name ≠ declaration'.name → found ≠ found' := by
  have hconsults := h.consults hlooks
  refine ⟨fun store typeText reply hmem => ?_, ?_⟩
  · exact (hconsults.answered store typeText reply hmem).imp fun _ _ hstands =>
      hstands.mirrors hconsults.tabulated
  · intro store store' typeText typeText' found found' hfound hfound'
    have hiff := hconsults.declarationOf?_eq_iff hfound hfound'
    constructor
    · intro hnormal
      refine hiff.1 ?_
      rw [Snapshot.declarationOf?, hnormal, Snapshot.declarationOf?]
    · intro declaration declaration' hdeclared hdeclared' hne heq
      have hsame := hiff.2 heq
      rw [hdeclared, hdeclared'] at hsame
      exact hne (congrArg Declaration.name (Option.some.inj hsame))

/-- A declaration that writes one name twice. -/
def twiceAged : Declaration :=
  ⟨"Dog", "dog.ts", 0, 62, [⟨"age", 31, 34, 36, 42, "number", false⟩,
    ⟨"name", 44, 48, 50, 56, "string", false⟩, ⟨"age", 58, 61, 64, 70, "string", true⟩],
    ["Animal"]⟩

/-- A base that extends the declaration in turn. -/
def fourLegged : Declaration :=
  ⟨"Animal", "animal.ts", 0, 44, [⟨"legs", 31, 35, 37, 43, "number", false⟩], ["Dog"]⟩

/-- A snapshot with the two declarations. -/
def kennel : Snapshot :=
  { (∅ : Snapshot) with declarations := [twiceAged, fourLegged] }

/-- A look-up that fails, one that finds nothing, a text with blanks and a member of a base. Then
what is remembered: the miss, the name behind the text, and the base. -/
theorem lookups_give_declarations_kennel : ∃ log ws, Performs ∅ log ws ∧
    (∀ entry ∈ log, entry.1.LooksUp kennel) ∧
    log.map Prod.snd = [.failed (.unreadable "dog.ts" .notInStore), .declaration none,
      .declaration (some 0), .member (some ⟨1, "legs", false, 9, 8⟩), .declaration none,
      .declaration (some 0), .declaration (some 1)] ∧
    Mirrors ws twiceAged 0 ∧ (ws.declaration 0).members.keys = ["age", "name"] ∧
    ((ws.declaration 0).members.get? "age").map Member.optional = some true ∧
    Mirrors ws fourLegged 1 := by
  let unread : Store := .ofTable ∅
  let read : Store := .ofTable (.ofList [("dog.ts", ""), ("animal.ts", "")])
  have h₁ : Performs ∅ _ _ := .call .start (.resolve kennel unread "Dog") trivial
  have h₂ := h₁.call (.resolve kennel read "Cat") trivial
  have h₃ := h₂.call (.resolve kennel read "  Dog") trivial
  have h₄ := h₃.call (.resolveMember kennel read 0 "legs") trivial
  have h₅ := h₄.call (.resolve kennel unread "Cat") trivial
  have h₆ := h₅.call (.resolve kennel unread "Dog") trivial
  have h₇ := h₆.call (.resolve kennel unread "Animal") trivial
  obtain ⟨hanswers, -⟩ := @lookups_give_declarations kennel _ _ h₇ (by simp [Call.LooksUp])
  have hdog := hanswers unread "Dog" (.declaration (some 0)) (List.mem_append_left _
    (List.mem_append_right _ (List.mem_singleton.2 (Prod.ext rfl (by decide +kernel)))))
  have hanimal := hanswers unread "Animal" (.declaration (some 1))
    (List.mem_append_right _ (List.mem_singleton.2 (Prod.ext rfl (by decide +kernel))))
  have hfound : kennel.declarationOf? "Dog" = some twiceAged := by decide +kernel
  have hbase : kennel.declarationOf? "Animal" = some fourLegged := by decide +kernel
  have hdogs : Mirrors _ twiceAged 0 := Option.rel_some_some.1 (hfound ▸ hdog.rel)
  have hanimals : Mirrors _ fourLegged 1 := Option.rel_some_some.1 (hbase ▸ hanimal.rel)
  exact ⟨_, _, h₇, by simp [Call.LooksUp], by decide +kernel, hdogs,
    hdogs.keys_eq.trans (by decide +kernel), by decide +kernel, hanimals⟩

end TypeMend.Workspace
