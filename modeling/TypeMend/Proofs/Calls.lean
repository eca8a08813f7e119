import TypeMend.Proofs.Classified
import TypeMend.Proofs.Findings

/-!
# Calls on a workspace

A workspace is used through ten operations. Whatever they are called with and in whatever order,
whether they succeed or fail, the numbers that a workspace has given out stay good. A node keeps its
number and its description. Two shared nodes have one number exactly if their keys agree, at
whatever times they were shared, and a detached node has a number to itself. All that the workspace
holds refers to nodes and declarations that are there.

`Grows` says what one operation does, and a sequence of calls is put together from it; `Charted`
ties the replies in the log of such a sequence to the workspace at its end.
-/
namespace TypeMend.Workspace

inductive Call
  | loadFile (file text : String)
  | ensureFile (store : Store) (file : String)
  | markProcessed (file : String) (offset : Nat)
  | intern (node : Node)
  | addDetached (node : Node)
  | internSource (node : SourceNode)
  | internSpan (span : SourceSpan) (kindName : String)
  | register (declaration : Declaration)
  | resolve (snapshot : Snapshot) (store : Store) (typeText : String)
  | resolveMember (snapshot : Snapshot) (store : Store) (id : DeclId) (key : String)

inductive Reply
  | done
  | fresh (isFresh : Bool)
  | node (id : NodeId)
  | declaration (id : Option DeclId)
  | member (member : Option Member)
  | failed (failure : Failure)
  deriving DecidableEq

/-- The reply of an action, and the workspace that it leaves. -/
def Action.reply {α : Type} (x : Action α) (reply : α → Reply) (ws : Workspace) :
    Reply × Workspace :=
  match x ws with
  | .ok a ws' => (reply a, ws')
  | .error failure ws' => (.failed failure, ws')

namespace Call

def perform (ws : Workspace) : Call → Reply × Workspace
  | loadFile file text => (.done, ws.loadFile file text)
  | ensureFile store file => (Workspace.ensureFile store file).reply (fun _ => .done) ws
  | markProcessed file offset =>
    (.fresh (ws.markProcessed file offset).1, (ws.markProcessed file offset).2)
  | intern node => (.node (ws.intern node).1, (ws.intern node).2)
  | addDetached node => (.node (ws.addDetached node).1, (ws.addDetached node).2)
  | internSource node => (.node (ws.internSource node).1, (ws.internSource node).2)
  | internSpan span kindName =>
    (.node (ws.internSpan span kindName).1, (ws.internSpan span kindName).2)
  | register declaration =>
    (.declaration (ws.register declaration).1, (ws.register declaration).2)
  | resolve snapshot store typeText =>
    (Workspace.resolve snapshot store typeText).reply .declaration ws
  | resolveMember snapshot store id key =>
    (Workspace.resolveMember snapshot store id key).reply .member ws

/-- The key of the node that a call shares, if it shares one. -/
def key? : Call → Option NodeKey
  | intern node => some node.key
  | internSource node => some (sourceKey node)
  | internSpan span kindName => some (spanNode span kindName).key
  | _ => none

/-- A description that is passed in names no node but one that is there. -/
def Admitted (ws : Workspace) : Call → Prop
  | intern node | addDetached node =>
    ∀ id, node.declaration = some id → id < ws.nodes.size
  | _ => True

/-- A call that looks something up looks it up in a snapshot. -/
def Asks (snapshot : Snapshot) : Call → Prop
  | resolve other _ _ | resolveMember other _ _ _ => other = snapshot
  | _ => True

end Call

/-- Calls one after the other, with their replies. -/
inductive Performs (first : Workspace) : List (Call × Reply) → Workspace → Prop
  | start : Performs first [] first
  | call {log : List (Call × Reply)} {ws : Workspace} (before : Performs first log ws)
      (call : Call) (admitted : call.Admitted ws) :
      Performs first (log ++ [(call, (call.perform ws).1)]) (call.perform ws).2

/-! ## What an operation does -/

variable {ws ws' ws'' : Workspace}

/-- Every number in a workspace is good: it is one that was given out, a shared node has the key
under which it is found, and a member belongs to the declaration that holds it. -/
structure Ordered (ws : Workspace) : Prop extends Sound (fun _ => True) ws where
  key_eq : ∀ key id, ws.index.get? key = some id → (ws.node id).key = key
  owner_eq : ∀ id, id < ws.declarations.size → ∀ key member,
    (ws.declaration id).members.get? key = some member → member.owner = id

theorem ordered_empty : Ordered ∅ where
  toSound := sound_empty _
  key_eq _ _ h := by cases h
  owner_eq _ hid := absurd hid (Nat.not_lt_zero _)

/-- A workspace grows: it keeps what it has, nodes that are shared for the first time are new, and
its numbers stay good. -/
structure Grows (ws ws' : Workspace) : Prop extends Extends ws ws' where
  index_new : ∀ key id, ws'.index.get? key = some id →
    ws.index.get? key = some id ∨ ws.nodes.size ≤ id
  ordered : ws.Ordered → ws'.Ordered

theorem Grows.refl (ws : Workspace) : Grows ws ws where
  toExtends := .refl ws
  index_new _ _ h := .inl h
  ordered := id

theorem Grows.trans (h : Grows ws ws') (h' : Grows ws' ws'') : Grows ws ws'' where
  toExtends := h.toExtends.trans h'.toExtends
  index_new key id hid := by
    rcases h'.index_new key id hid with hold | hnew
    · exact h.index_new key id hold
    · exact .inr (h.size_le.trans hnew)
  ordered hordered := h'.ordered (h.ordered hordered)

/-- What a workspace had stays in order, so that only what is new has to be looked at. -/
theorem Grows.of_extends (hext : Extends ws ws')
    (hsound : Sound (fun _ => True) ws → Sound (fun _ => True) ws')
    (hindex : ∀ key id, ws'.index.get? key = some id →
      ws.index.get? key = some id ∨ ws.nodes.size ≤ id ∧ (ws'.node id).key = key)
    (howner : ∀ id, ws.declarations.size ≤ id → id < ws'.declarations.size → ∀ key member,
      (ws'.declaration id).members.get? key = some member → member.owner = id) :
    Grows ws ws' where
  toExtends := hext
  index_new key id hid := (hindex key id hid).imp_right And.left
  ordered hordered := by
    refine ⟨hsound hordered.toSound, fun key id hid => ?_, fun id hid key member hmember => ?_⟩
    · rcases hindex key id hid with hold | ⟨_, hnew⟩
      · rw [hext.node_eq id (hordered.index_lt key id hold)]
        exact hordered.key_eq key id hold
      · exact hnew
    · rcases Nat.lt_or_ge id ws.declarations.size with hlt | hge
      · rw [hext.declaration_eq id hlt] at hmember
        exact hordered.owner_eq id hlt key member hmember
      · exact howner id hge hid key member hmember

theorem declare_grows {declaration : Declaration} {entry : DeclarationEntry}
    (hfresh : ws.declarationIndex.get? declaration.name = none)
    (hdescribed : ws.Describes declaration entry) :
    Grows ws { ws with
      declarations := ws.declarations.push entry
      declarationIndex := ws.declarationIndex.insert declaration.name ws.declarations.size } := by
  refine .of_extends (extends_declare hfresh entry) (fun hs => hs.declare hfresh hdescribed)
    (fun key id hid => .inl hid) fun id hge hlt key member hmember => ?_
  rw [Workspace.declaration, getD_push_of_ge _ _ _ hge hlt] at hmember
  obtain ⟨_, _, hwrites⟩ := hdescribed.lists.exists_writes hmember
  have hlast : id ≤ ws.declarations.size := by simpa [Nat.lt_succ_iff] using hlt
  exact hwrites.owner_eq.trans (Nat.le_antisymm hge hlast)

/-- A setting in which nothing is asked of where nodes lie. -/
def Setting.anywhere (snapshot : Snapshot) (store : Store) : Setting :=
  ⟨snapshot, store, fun _ => True⟩

variable {snapshot : Snapshot} {store : Store}

theorem Step.grows (h : Step (.anywhere snapshot store) ws ws') : Grows ws ws' := by
  have hext := h.extends
  have hsound : Sound (fun _ => True) ws → Sound (fun _ => True) ws' := h.sound
  cases h with
  | load fresh read =>
    exact .of_extends hext hsound (fun _ _ hid => .inl hid)
      fun _ hge hlt => absurd hlt hge.not_gt
  | mark file offset =>
    obtain ⟨files, unbuffered, heq, -⟩ := markProcessed_eq ws file offset
    rw [heq] at hext hsound ⊢
    exact .of_extends hext hsound (fun _ _ hid => .inl hid)
      fun _ hge hlt => absurd hlt hge.not_gt
  | @intern node fresh admitted =>
    refine .of_extends hext hsound (fun key id hid => ?_)
      fun _ hge hlt => absurd hlt hge.not_gt
    rw [Table.get?_insert] at hid
    split_ifs at hid with hkey
    · cases hid
      refine .inr ⟨le_rfl, ?_⟩
      rw [Workspace.node, getD_push_of_ge _ _ _ le_rfl (by simp), hkey]
    · exact .inl hid
  | detach admitted =>
    exact .of_extends hext hsound (fun _ _ hid => .inl hid)
      fun _ hge hlt => absurd hlt hge.not_gt
  | miss unknown =>
    exact .of_extends hext hsound (fun _ _ hid => .inl hid)
      fun _ hge hlt => absurd hlt hge.not_gt
  | declare named fresh described => exact declare_grows fresh described
  | link found known agrees =>
    exact .of_extends hext hsound (fun _ _ hid => .inl hid)
      fun _ hge hlt => absurd hlt hge.not_gt

theorem Evolves.grows (h : Evolves (.anywhere snapshot store) ws ws') : Grows ws ws' := by
  induction h with
  | refl => exact .refl ws
  | tail _ hstep ih => exact ih.trans hstep.grows

/-! ## The ten operations -/

theorem loadFile_evolves (snapshot : Snapshot) (ws : Workspace) (file text : String) :
    Evolves (.anywhere snapshot fun _ => .ok text) ws (ws.loadFile file text) := by
  unfold loadFile
  cases hold : ws.files.get? file with
  | some buffer => rw [Table.insertNew_of_some hold]
  | none =>
    rw [Table.insertNew_of_none hold]
    exact .single (.load hold rfl)

theorem register_grows (h : ws.Ordered) (declaration : Declaration) :
    Grows ws (ws.register declaration).2 := by
  cases hknown : ws.declarationIndex.get? declaration.name with
  | some id =>
    have hregister : ws.register declaration = (id, ws) := by simp [register, hknown]
    rw [hregister]
    exact .refl ws
  | none =>
    obtain ⟨ws₁, entry, hevolves, hdescribed, hindex, hregister⟩ :=
      register_of_unknown (s := .anywhere ∅ fun _ => .error .notInStore) h.toSound
        (.inr trivial) hknown
    rw [hregister]
    exact hevolves.grows.trans (declare_grows (hindex ▸ hknown) hdescribed)

/-- There are no members on a declaration that was never registered. -/
theorem resolveMember_of_unregistered (snapshot : Snapshot) (store : Store) {id : DeclId}
    (h : ws.declarations.size ≤ id) (key : String) :
    resolveMember snapshot store id key ws = .ok none ws := by
  have hnone : ws.declaration id = default := by
    simp [declaration, Array.getD_eq_getD_getElem?, Array.getElem?_eq_none h]
  have hmembers : (default : DeclarationEntry).members.get? key = none := rfl
  have hend (visits : Nat) (seen : List DeclId) :
      searchMember snapshot store key visits seen [] ws = .ok none ws := by
    cases visits <;> rfl
  change searchMember snapshot store key _ [] [id] ws = .ok none ws
  unfold searchMember searchStep
  simp only [List.dropWhile_cons, List.contains_nil, Bool.false_eq_true, if_false, get_bind_apply,
    hnone, hmembers]
  exact hend _ _

theorem resolveMember_evolves (h : ws.Ordered) (snapshot : Snapshot) (store : Store) (id : DeclId)
    (key : String) :
    Evolves (.anywhere snapshot store) ws (after (resolveMember snapshot store id key) ws) := by
  rcases Nat.lt_or_ge id ws.declarations.size with hlt | hge
  · exact (Strict.resolveMember_agrees (s := .anywhere snapshot store) h.toSound hlt
      key).runs.evolves_after
  · rw [after, resolveMember_of_unregistered snapshot store hge]

theorem Action.reply_snd {α : Type} (x : Action α) (reply : α → Reply) (ws : Workspace) :
    (x.reply reply ws).2 = after x ws := by
  unfold Action.reply after
  cases x ws <;> rfl

/-- A description that names nodes that are there may be added. -/
theorem admits_anywhere {node : Node} (h : ∀ id, node.declaration = some id → id < ws.nodes.size) :
    ws.Admits (Setting.anywhere snapshot store).outside node :=
  ⟨h, .inr trivial⟩

/-- A call that asks a snapshot takes steps of a session with it, unless it registers a declaration
that was not asked for. -/
theorem Call.perform_evolves (h : ws.Ordered) {call : Call} (hadmitted : call.Admitted ws)
    (hasks : call.Asks snapshot) :
    (∃ store, Evolves (.anywhere snapshot store) ws (call.perform ws).2) ∨
      ∃ declaration, call = .register declaration := by
  let store : Store := fun _ => .error .notInStore
  cases call with
  | loadFile file text => exact .inl ⟨_, loadFile_evolves snapshot ws file text⟩
  | ensureFile store file =>
    rw [perform, Action.reply_snd]
    have hruns : Runs (.anywhere snapshot store) (Workspace.ensureFile store file) ws _ :=
      ensureFile_runs file
    exact .inl ⟨store, hruns.evolves_after⟩
  | markProcessed file offset => exact .inl ⟨store, markProcessed_evolves file offset⟩
  | intern node => exact .inl ⟨store, intern_evolves (admits_anywhere hadmitted)⟩
  | addDetached node => exact .inl ⟨store, (addDetached_spec (admits_anywhere hadmitted)).1⟩
  | internSource node =>
    exact .inl ⟨store, internSource_evolves h.toSound (.inr trivial) fun _ _ => .inr trivial⟩
  | internSpan span kindName =>
    exact .inl ⟨store, intern_evolves (admits_of_unwritten rfl (.inr trivial))⟩
  | register declaration => exact .inr ⟨declaration, rfl⟩
  | resolve other store typeText =>
    cases hasks
    rw [perform, Action.reply_snd]
    have hruns : Runs (.anywhere snapshot store) (Workspace.resolve snapshot store typeText) ws _ :=
      resolve_runs h.toSound typeText
    exact .inl ⟨store, hruns.evolves_after⟩
  | resolveMember other store id key =>
    cases hasks
    rw [perform, Action.reply_snd]
    exact .inl ⟨store, resolveMember_evolves h snapshot store id key⟩

theorem Call.exists_asks (call : Call) : ∃ snapshot, call.Asks snapshot := by
  cases call with
  | resolve snapshot store typeText => exact ⟨snapshot, rfl⟩
  | resolveMember snapshot store id key => exact ⟨snapshot, rfl⟩
  | _ => exact ⟨∅, trivial⟩

/-- Whatever is called, a workspace grows. -/
theorem Call.perform_grows (h : ws.Ordered) {call : Call} (hadmitted : call.Admitted ws) :
    Grows ws (call.perform ws).2 := by
  obtain ⟨snapshot, hasks⟩ := call.exists_asks
  rcases call.perform_evolves h hadmitted hasks with ⟨store, hevolves⟩ | ⟨declaration, rfl⟩
  · exact hevolves.grows
  · exact register_grows h declaration

theorem Performs.grows {log : List (Call × Reply)} (h : Performs ws log ws') (hws : ws.Ordered) :
    Grows ws ws' := by
  induction h with
  | start => exact .refl ws
  | call _ call admitted ih => exact ih.trans (call.perform_grows (ih.ordered hws) admitted)

/-! ## What a log says of a workspace -/

/-- The replies of a log are what the workspace says now: a shared node is found under its key, a
detached one under none, and every number that was replied is good. -/
structure Charted (log : List (Call × Reply)) (ws : Workspace) : Prop where
  issued : ∀ call id, (call, .node id) ∈ log → id < ws.nodes.size
  shared : ∀ call reply key, (call, reply) ∈ log → call.key? = some key →
    ∃ id, reply = .node id ∧ ws.index.get? key = some id
  detached : ∀ node reply, (.addDetached node, reply) ∈ log →
    ∃ id, reply = .node id ∧ ∀ key, ws.index.get? key ≠ some id

theorem Charted.grows {log : List (Call × Reply)} (h : Charted log ws) (hgrows : Grows ws ws') :
    Charted log ws' where
  issued call id hmem := (h.issued call id hmem).trans_le hgrows.size_le
  shared call reply key hmem hkey := by
    obtain ⟨id, hreply, hindex⟩ := h.shared call reply key hmem hkey
    exact ⟨id, hreply, hgrows.index_eq key id hindex⟩
  detached node reply hmem := by
    obtain ⟨id, rfl, hnone⟩ := h.detached node reply hmem
    refine ⟨id, rfl, fun key hindex => ?_⟩
    rcases hgrows.index_new key id hindex with hold | hnew
    · exact hnone key hold
    · exact absurd (h.issued _ id hmem) hnew.not_gt

/-- A call that shares a node replies with the number under its key. -/
theorem Call.perform_of_key {call : Call} {key : NodeKey} (hkey : call.key? = some key)
    (ws : Workspace) :
    ∃ id, (call.perform ws).1 = .node id ∧ (call.perform ws).2.index.get? key = some id := by
  cases call with
  | intern node =>
    cases hkey
    exact ⟨_, rfl, index_intern ws node⟩
  | internSource node =>
    cases hkey
    exact ⟨_, rfl, index_internSource ws node⟩
  | internSpan span kindName =>
    cases hkey
    exact ⟨_, rfl, index_intern ws _⟩
  | _ => cases hkey

/-- The number of a node is replied only when a node is shared or added. -/
theorem Call.of_reply_node {call : Call} {id : NodeId} (h : (call.perform ws).1 = .node id) :
    (∃ key, call.key? = some key) ∨ ∃ node, call = .addDetached node := by
  cases call with
  | intern node => exact .inl ⟨_, rfl⟩
  | internSource node => exact .inl ⟨_, rfl⟩
  | internSpan span kindName => exact .inl ⟨_, rfl⟩
  | addDetached node => exact .inr ⟨node, rfl⟩
  | ensureFile store file =>
    simp only [perform, Action.reply] at h
    split at h <;> cases h
  | resolve snapshot store typeText =>
    simp only [perform, Action.reply] at h
    split at h <;> cases h
  | resolveMember snapshot store id key =>
    simp only [perform, Action.reply] at h
    split at h <;> cases h
  | _ => cases h

/-- The reply to the last call is what the workspace says after it. -/
theorem Call.perform_charted (h : ws.Ordered) {call : Call} (hadmitted : call.Admitted ws) :
    Charted [(call, (call.perform ws).1)] (call.perform ws).2 := by
  have hordered := (call.perform_grows h hadmitted).ordered h
  refine ⟨fun other id hmem => ?_, fun other reply key hmem hkey => ?_, fun node reply hmem => ?_⟩
  · obtain ⟨rfl, hreply⟩ := Prod.mk.inj (List.mem_singleton.1 hmem)
    rcases of_reply_node hreply.symm with ⟨key, hkey⟩ | ⟨node, rfl⟩
    · obtain ⟨number, hnumber, hindex⟩ := perform_of_key hkey ws
      rw [hnumber] at hreply
      cases hreply
      exact hordered.index_lt key _ hindex
    · cases hreply
      simp [perform, Workspace.addDetached]
  · obtain ⟨rfl, rfl⟩ := Prod.mk.inj (List.mem_singleton.1 hmem)
    exact perform_of_key hkey ws
  · obtain ⟨rfl, rfl⟩ := Prod.mk.inj (List.mem_singleton.1 hmem)
    exact ⟨ws.nodes.size, rfl, fun key hindex => (h.index_lt key _ hindex).false⟩

theorem Charted.append {log log' : List (Call × Reply)} (h : Charted log ws)
    (h' : Charted log' ws) : Charted (log ++ log') ws where
  issued call id hmem := (List.mem_append.1 hmem).elim (h.issued call id) (h'.issued call id)
  shared call reply key hmem := (List.mem_append.1 hmem).elim (h.shared call reply key)
    (h'.shared call reply key)
  detached node reply hmem := (List.mem_append.1 hmem).elim (h.detached node reply)
    (h'.detached node reply)

theorem Performs.charted {log : List (Call × Reply)} (h : Performs ∅ log ws) : Charted log ws := by
  induction h with
  | start => exact ⟨by simp, by simp, by simp⟩
  | call before call admitted ih =>
    have hordered := (before.grows ordered_empty).ordered ordered_empty
    exact (ih.grows (call.perform_grows hordered admitted)).append
      (call.perform_charted hordered admitted)

/-! ## Failures -/

/-- Loading a file fails only if the store cannot give it, and then nothing changes. -/
theorem ensureFile_fault {file : String} {failure : Failure}
    (h : ensureFile store file ws = .error failure ws') :
    ws' = ws ∧ ∃ fault, store file = .error fault ∧ failure = .unreadable file fault := by
  unfold ensureFile at h
  split_ifs at h
  split at h
  · cases h
  · next fault hread =>
    cases h
    exact ⟨rfl, fault, hread, rfl⟩

/-- Looking a type up fails only if the file of its declaration cannot be read, and then nothing
changes. -/
theorem resolve_fault {typeText : String} {failure : Failure}
    (h : resolve snapshot store typeText ws = .error failure ws') :
    ws' = ws ∧ ∃ declaration fault, snapshot.declarationOf? typeText = some declaration ∧
      store declaration.file = .error fault ∧ failure = .unreadable declaration.file fault := by
  rw [resolve_eq] at h
  split at h
  · cases h
  · split_ifs at h
    split at h
    · cases h
    · next declaration hfound =>
      split at h
      · next hensure =>
        cases h
        obtain ⟨rfl, fault, hread, rfl⟩ := ensureFile_fault hensure
        exact ⟨rfl, declaration, fault, hfound, hread, rfl⟩
      · cases h

theorem ensureFile_error {file : String} {failure : Failure}
    (h : ensureFile store file ws = .error failure ws') : ws' = ws :=
  (ensureFile_fault h).1

theorem resolve_error {typeText : String} {failure : Failure}
    (h : resolve snapshot store typeText ws = .error failure ws') : ws' = ws :=
  (resolve_fault h).1

/-- The numbers that a workspace gives out stay good over any calls, whether they succeed or fail,
as long as descriptions that are passed in name nodes that are there. However the calls go on, a
node keeps its number and its description and a loaded file its text. A call that shares a node is
replied a number whose node has the key it asked for; calls at any two times are replied the same
number exactly if their keys agree, and never that of a detached node. Every number in a node, in a
declaration or in a member is that of a node, and every member belongs to the declaration that holds
it. Loading a file and looking up a type change nothing when they fail. -/
theorem numbers_stay_good {log : List (Call × Reply)} (h : Performs ∅ log ws) :
    (∀ more ws', Performs ws more ws' →
        (∀ id < ws.nodes.size, id < ws'.nodes.size ∧ ws'.node id = ws.node id) ∧
        ∀ file text, ws.fileText? file = some text → ws'.fileText? file = some text) ∧
      (∀ call id, (call, .node id) ∈ log → id < ws.nodes.size) ∧
      (∀ call reply key, (call, reply) ∈ log → call.key? = some key →
        ∃ id, reply = .node id ∧ (ws.node id).key = key ∧
          (∀ call' id' key', (call', .node id') ∈ log → call'.key? = some key' →
            (id = id' ↔ key = key')) ∧
          ∀ node, (.addDetached node, .node id) ∉ log) ∧
      (∀ id < ws.nodes.size, ∀ written, (ws.node id).declaration = some written →
        written < ws.nodes.size) ∧
      (∀ id < ws.declarations.size, (ws.declaration id).node < ws.nodes.size ∧
        ∀ key member, (ws.declaration id).members.get? key = some member →
          member.owner = id ∧ member.nameNode < ws.nodes.size ∧
            member.typeNode < ws.nodes.size) ∧
      (∀ store file failure ws',
        ensureFile store file ws = .error failure ws' → ws' = ws) ∧
      ∀ snapshot store typeText failure ws',
        resolve snapshot store typeText ws = .error failure ws' → ws' = ws := by
  have hordered := (h.grows ordered_empty).ordered ordered_empty
  have hcharted := h.charted
  refine ⟨fun more ws' hmore => ?_, hcharted.issued, fun call reply key hmem hkey => ?_,
    fun id hid => (hordered.node_admitted id hid).written_lt, fun id hid => ?_,
    fun store file failure ws' => ensureFile_error,
    fun snapshot store typeText failure ws' => resolve_error⟩
  · have hext := (hmore.grows hordered).toExtends
    exact ⟨fun id hid => ⟨hid.trans_le hext.size_le, hext.node_eq id hid⟩, hext.fileText_eq⟩
  · obtain ⟨id, rfl, hindex⟩ := hcharted.shared call reply key hmem hkey
    refine ⟨id, rfl, hordered.key_eq key id hindex, fun call' id' key' hmem' hkey' => ?_,
      fun node hdetached => ?_⟩
    · obtain ⟨_, hreply, hindex'⟩ := hcharted.shared call' _ key' hmem' hkey'
      cases hreply
      constructor
      · rintro rfl
        exact (hordered.key_eq key id hindex).symm.trans (hordered.key_eq key' id hindex')
      · rintro rfl
        exact Option.some.inj (hindex.symm.trans hindex')
    · obtain ⟨_, hreply, hnone⟩ := hcharted.detached node _ hdetached
      cases hreply
      exact hnone key hindex
  · refine ⟨hordered.entry_lt id hid, fun key member hmember => ?_⟩
    have hheld := hordered.member_held id hid key member hmember
    exact ⟨hordered.owner_eq id hid key member hmember, hheld.nameNode_lt, hheld.typeNode_lt⟩

/-- A member with a type. -/
def ageMember : MemberDeclaration :=
  ⟨"age", 16, 19, 21, 27, "number", false⟩

/-- A detached node, a file that cannot be read, and the name of a member that is shared before its
declaration is registered and once more after. -/
theorem numbers_stay_good_age : ∃ log ws, Performs ∅ log ws ∧
    log.map Prod.snd = [.node 0, .failed (.unreadable "cat.ts" .notInStore), .node 1,
      .declaration (some 0), .node 1] ∧
    (ws.node 1).key = (memberNameNode "dog.ts" ageMember 0).key ∧
    (∀ node, (.addDetached node, .node 1) ∉ log) ∧ ws.declarations.size = 1 ∧
    ∀ key member, (ws.declaration 0).members.get? key = some member →
      member.owner = 0 ∧ member.nameNode < ws.nodes.size ∧ member.typeNode < ws.nodes.size := by
  have h₁ : Performs ∅ _ _ := .call .start (.addDetached (memberTypeNode "dog.ts" ageMember))
    fun _ hid => by cases hid
  have h₂ := h₁.call (.ensureFile (.ofTable ∅) "cat.ts") trivial
  have h₃ := h₂.call (.intern (memberNameNode "dog.ts" ageMember 0)) fun _ hid => by
    cases hid
    decide
  have h₄ := h₃.call (.register ⟨"Dog", "dog.ts", 0, 29, [ageMember], []⟩) trivial
  have h₅ := h₄.call (.intern (memberNameNode "dog.ts" ageMember 0)) fun _ hid => by
    cases hid
    decide
  obtain ⟨-, -, hshared, -, hheld, -⟩ := numbers_stay_good h₅
  obtain ⟨id, hid, hkey, -, hdetached⟩ :=
    hshared _ (.node 1) _ (List.mem_append_right _ (List.mem_singleton.2 rfl)) rfl
  cases hid
  exact ⟨_, _, h₅, rfl, hkey, hdetached, rfl, (hheld 0 (by decide)).2⟩

end TypeMend.Workspace
