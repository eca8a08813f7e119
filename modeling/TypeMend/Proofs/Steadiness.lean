import TypeMend.Proofs.Compositional
import TypeMend.Proofs.Classified
import TypeMend.Proofs.Registry

/-!
# Classification does not look at files

What a workspace holds beside its files does not depend on them: `Steady` says that an action does
the same from two workspaces that differ in their files only, and that the files stay beside each
other. Classification is steady, as long as it is not asked about a place by which one of the
workspaces is ahead.
-/
namespace TypeMend

open Workspace

namespace Workspace

variable {α β : Type} {store : Store} {extra : List Place}

/-! ## Steady actions -/

/-- An action does the same from two workspaces with files beside each other. -/
def Steady (store : Store) (extra : List Place) (x : Action α) : Prop :=
  ∀ ws files, Beside store extra files ws.files →
    match x ws with
    | .ok a ws₁ => ∃ files₁, x (ws.withFiles files) = .ok a (ws₁.withFiles files₁) ∧
        Beside store extra files₁ ws₁.files
    | .error failure ws₁ => ∃ files₁,
        x (ws.withFiles files) = .error failure (ws₁.withFiles files₁) ∧
          Beside store extra files₁ ws₁.files

namespace Steady

variable {x : Action α} {f : α → Action β}

theorem pure (a : α) : Steady store extra (pure a) :=
  fun _ files h => ⟨files, rfl, h⟩

theorem bind (hx : Steady store extra x) (hf : ∀ a, Steady store extra (f a)) :
    Steady store extra (x >>= f) := by
  intro ws files h
  have hfirst := hx ws files h
  simp only [Bind.bind, EStateM.bind]
  cases hrun : x ws with
  | ok a ws₁ =>
    rw [hrun] at hfirst
    obtain ⟨files₁, heq, h₁⟩ := hfirst
    rw [heq]
    exact hf a ws₁ files₁ h₁
  | error failure ws₁ =>
    rw [hrun] at hfirst
    obtain ⟨files₁, heq, h₁⟩ := hfirst
    rw [heq]
    exact ⟨files₁, rfl, h₁⟩

/-- Reading anything but the files. -/
theorem get_bind {f : Workspace → Action β}
    (hsame : ∀ ws files, f (ws.withFiles files) = f ws) (hf : ∀ ws, Steady store extra (f ws)) :
    Steady store extra (get >>= f) := by
  intro ws files h
  have heq : (get >>= f) (ws.withFiles files) = f ws (ws.withFiles files) :=
    congrFun (hsame ws files) _
  rw [heq]
  exact hf ws ws files h

theorem compositional (store : Store) (extra : List Place) :
    Compositional (Steady store extra) where
  pure := pure
  bind := bind
  get_bind := get_bind

end Steady

/-- A change of a workspace that has nothing to do with its files. -/
def Frames (g : Workspace → α × Workspace) : Prop :=
  ∀ ws files, g (ws.withFiles files) = ((g ws).1, (g ws).2.withFiles files) ∧
    (g ws).2.files = ws.files

theorem Frames.steady {g : Workspace → α × Workspace} (hg : Frames g) :
    Steady store extra (modifyGet g) := by
  intro ws files h
  obtain ⟨heq, hfiles⟩ := hg ws files
  refine ⟨files, ?_, ?_⟩
  · rw [modifyGet_apply, heq]
  · rw [hfiles]
    exact h

/-! ## Files -/

theorem ensureFile_steady (file : String) : Steady store extra (ensureFile store file) := by
  intro ws files h
  have hfile := h file
  cases hget : files.get? file with
  | none =>
    cases hget' : ws.files.get? file with
    | some buffer' => rw [hget, hget'] at hfile; cases hfile
    | none =>
      rw [hget, hget'] at hfile
      rw [ensureFile_of_unloaded hget',
        ensureFile_of_unloaded (show (ws.withFiles files).files.get? file = none from hget)]
      cases hfile with
      | neither none_extra =>
        cases hread : store file with
        | error fault => exact ⟨files, rfl, h⟩
        | ok text =>
          refine ⟨files.insert file ⟨text, []⟩, rfl,
            h.update file (fun other hother => files.get?_insert_of_ne hother _)
              (fun other hother => ws.files.get?_insert_of_ne hother _) ?_⟩
          simpa using .both hread rfl fun offset => by simp [none_extra offset]
  | some buffer =>
    rw [ensureFile_of_loaded (show (ws.withFiles files).files.get? file = some buffer from hget)]
    cases hget' : ws.files.get? file with
    | some buffer' =>
      rw [ensureFile_of_loaded hget']
      exact ⟨files, rfl, h⟩
    | none =>
      rw [hget, hget'] at hfile
      rw [ensureFile_of_unloaded hget']
      cases hfile with
      | ahead read some_extra noted =>
        rw [read]
        refine ⟨files, rfl, h.update file (fun _ _ => rfl)
          (fun other hother => ws.files.get?_insert_of_ne hother _) ?_⟩
        rw [hget, withFiles_files, Table.get?_insert_self]
        exact .both read rfl fun offset => by simp [noted offset]

/-- Loading a file and noting a place in it that is not listed. -/
theorem note_steady {file : String} {offset : Nat} (hplace : (file, offset) ∉ extra) :
    Steady store extra (ensureFile store file >>= fun _ =>
      modifyGet fun ws => ws.markProcessed file offset) := by
  intro ws files h
  have hfirst := ensureFile_steady file ws files h
  simp only [Bind.bind, EStateM.bind]
  cases hrun : ensureFile store file ws with
  | error failure ws₁ =>
    rw [hrun] at hfirst
    obtain ⟨files₁, heq, h₁⟩ := hfirst
    rw [heq]
    exact ⟨files₁, rfl, h₁⟩
  | ok a ws₁ =>
    rw [hrun] at hfirst
    obtain ⟨files₁, heq, h₁⟩ := hfirst
    obtain ⟨buffer', hget'⟩ := loaded_of_ensureFile hrun
    have hfile := h₁ file
    cases hget : files₁.get? file with
    | none => rw [hget, hget'] at hfile; cases hfile
    | some buffer =>
      rw [hget, hget'] at hfile
      cases hfile with
      | both read text_eq noted =>
        have hiff : offset ∈ buffer.processed ↔ offset ∈ buffer'.processed := by
          simp [noted offset, hplace]
        have hget₁ : (ws₁.withFiles files₁).files.get? file = some buffer := hget
        simp only [heq, modifyGet_apply, markProcessed_of_loaded hget',
          markProcessed_of_loaded hget₁, hiff]
        split_ifs with hmem
        · exact ⟨files₁, rfl, h₁⟩
        · refine ⟨_, rfl, h₁.update file (fun other hother => Table.get?_insert_of_ne _ hother _)
            (fun other hother => Table.get?_insert_of_ne _ hother _) ?_⟩
          simp only [withFiles_files, Table.get?_insert_self]
          refine .both read text_eq fun other => ?_
          simp only [List.mem_cons, noted other, or_assoc]

/-! ## Nodes and declarations -/

theorem Frames.comp {g : Workspace → α × Workspace} {f : α → Workspace → β × Workspace}
    (hg : Frames g) (hf : ∀ a, Frames (f a)) : Frames fun ws => f (g ws).1 (g ws).2 := by
  intro ws files
  obtain ⟨hg₁, hg₂⟩ := hg ws files
  obtain ⟨hf₁, hf₂⟩ := hf (g ws).1 (g ws).2 files
  exact ⟨by simp only [hg₁, hf₁], hf₂.trans hg₂⟩

theorem addDetached_frames (node : Node) : Frames fun ws => ws.addDetached node :=
  fun _ _ => ⟨rfl, rfl⟩

theorem intern_frames (node : Node) : Frames fun ws => ws.intern node := by
  intro ws files
  have hindex : (ws.withFiles files).index = ws.index := rfl
  dsimp only
  unfold intern
  rw [hindex]
  cases ws.index.get? node.key with
  | some id => exact ⟨rfl, rfl⟩
  | none => exact ⟨rfl, rfl⟩

theorem internSource_frames (node : SourceNode) : Frames fun ws => ws.internSource node := by
  unfold internSource
  cases node.writtenType with
  | none => exact intern_frames _
  | some span =>
    exact (intern_frames (spanNode span "TypeAnnotation")).comp
      fun written => intern_frames (sourceNode node (some written))

theorem internMember_frames (owner : DeclId) (file : String) (member : MemberDeclaration) :
    Frames fun ws => ws.internMember owner file member := by
  have hname (typeNode : NodeId) := (intern_frames (memberNameNode file member typeNode)).comp
    (f := fun nameNode ws =>
      ((⟨owner, member.name, member.optional, nameNode, typeNode⟩ : Member), ws))
    fun _ _ _ => ⟨rfl, rfl⟩
  exact (intern_frames (memberTypeNode file member)).comp hname

theorem internMembers_frames (owner : DeclId) (file : String) (list : List MemberDeclaration)
    (members : Table String Member) : Frames (internMembers owner file list members) := by
  induction list generalizing members with
  | nil => exact fun _ _ => ⟨rfl, rfl⟩
  | cons member rest ih =>
    exact (internMember_frames owner file member).comp
      fun entry => ih (members.insert member.name entry)

theorem register_frames (declaration : Declaration) : Frames fun ws => ws.register declaration := by
  intro ws files
  have hindex : (ws.withFiles files).declarationIndex = ws.declarationIndex := rfl
  dsimp only
  unfold register
  rw [hindex]
  cases ws.declarationIndex.get? declaration.name with
  | some id => exact ⟨rfl, rfl⟩
  | none =>
    have hmembers := (intern_frames (declarationNode declaration)).comp fun _ =>
      internMembers_frames ws.declarations.size declaration.file declaration.members ∅
    obtain ⟨hnode, -⟩ := intern_frames (declarationNode declaration) ws files
    obtain ⟨hlist, hfiles⟩ := hmembers ws files
    refine ⟨?_, hfiles⟩
    have hsize : (ws.withFiles files).declarations.size = ws.declarations.size := rfl
    simp only [hsize, hnode] at hlist ⊢
    rw [hlist]
    rfl

theorem resolve_steady (snapshot : Snapshot) (typeText : String) :
    Steady store extra (resolve snapshot store typeText) := by
  intro ws files h
  have hindex : (ws.withFiles files).declarationIndex = ws.declarationIndex := rfl
  have hmissed : (ws.withFiles files).unresolved = ws.unresolved := rfl
  rw [resolve_eq, resolve_eq, hindex, hmissed]
  cases ws.declarationIndex.get? typeText with
  | some id => exact ⟨files, rfl, h⟩
  | none =>
    dsimp only
    split_ifs
    · exact ⟨files, rfl, h⟩
    · cases snapshot.declarationOf? typeText with
      | none => exact ⟨files, rfl, h⟩
      | some declaration =>
        have hensured := ensureFile_steady declaration.file ws files h
        dsimp only
        cases hrun : ensureFile store declaration.file ws with
        | error failure ws₁ =>
          rw [hrun] at hensured
          obtain ⟨files₁, heq, h₁⟩ := hensured
          rw [heq]
          exact ⟨files₁, rfl, h₁⟩
        | ok a ws₁ =>
          rw [hrun] at hensured
          obtain ⟨files₁, heq, h₁⟩ := hensured
          obtain ⟨hregister, hfiles⟩ := register_frames declaration ws₁ files₁
          rw [heq]
          simp only [hregister]
          refine ⟨files₁, rfl, ?_⟩
          rw [hfiles]
          exact h₁

end Workspace

/-! ## Classification -/

namespace Engine

variable {engine : Engine} {extra : List Place}

theorem internLayer_steady (kind : LayerKind) (pair : NodePair) :
    Steady engine.store extra (internLayer kind pair) :=
  (internSource_frames pair.source).steady.bind fun _ =>
    (internSource_frames pair.target).steady.bind fun _ => .pure _

theorem steady_operational (engine : Engine) (extra : List Place) :
    Operational engine (Steady engine.store extra) where
  toCompositional := Steady.compositional engine.store extra
  ensureFile := ensureFile_steady
  resolve := resolve_steady engine.snapshot
  addDetached node := (addDetached_frames node).steady

theorem classify_steady (code : UInt32) (pair : NodePair) :
    Steady engine.store extra (engine.classify code pair) :=
  (steady_operational engine extra).classify code (fun kind => internLayer_steady kind pair)
    fun outer _ kind => internLayer_steady kind outer

def place? (engine : Engine) (diagnostic : Diagnostic) : Option Place :=
  (engine.snapshot.locate? diagnostic.file diagnostic.start).map fun pair =>
    (pair.source.file, pair.source.start.toNat)

/-- A diagnostic elsewhere than at the listed places is classified the same way. -/
theorem classifyDiagnostic_steady {diagnostic : Diagnostic}
    (hplace : ∀ place, engine.place? diagnostic = some place → place ∉ extra) :
    Steady engine.store extra (engine.classifyDiagnostic diagnostic) := by
  unfold classifyDiagnostic
  unfold place? at hplace
  cases hpair : engine.snapshot.locate? diagnostic.file diagnostic.start with
  | none => exact .pure _
  | some pair =>
    rw [hpair] at hplace
    dsimp only
    rw [← bind_assoc]
    refine (note_steady (hplace _ rfl)).bind fun fresh => ?_
    split_ifs
    · exact classify_steady _ pair
    · exact .pure _

/-- After a diagnostic has been classified, its place is noted. -/
theorem classifyDiagnostic_notes {ws : Workspace} (hs : Sound engine.setting.outside ws)
    (diagnostic : Diagnostic) :
    Runs engine.setting (engine.classifyDiagnostic diagnostic) ws fun _ ws' =>
      ∀ place, engine.place? diagnostic = some place → Noted ws'.files place := by
  unfold classifyDiagnostic place?
  cases hpair : engine.snapshot.locate? diagnostic.file diagnostic.start with
  | none => exact .pure fun _ h => by cases h
  | some pair =>
    refine (ensureFile_runs _).bind fun _ ws₁ h₁ ⟨hloaded, _⟩ => ?_
    refine Runs.bind (.modifyGet (markProcessed_evolves _ _)
      (Q := fun _ ws₂ => ws₂ = (ws₁.markProcessed pair.source.file pair.source.start.toNat).2) rfl)
      fun fresh ws₂ h₂ heq => ?_
    have hnoted : Noted ws₂.files (pair.source.file, pair.source.start.toNat) :=
      heq ▸ noted_markProcessed hloaded _
    split_ifs
    · have hruns := (Strict.classify_agrees (h₂.sound (h₁.sound hs)) (Strict.mem_of_locate? hpair)
        (h₂.extends.loaded hloaded) diagnostic.code).runs
      refine hruns.imp fun _ ws₃ _ h₃ _ place hplace => ?_
      cases hplace
      exact h₃.noted hnoted
    · refine .pure fun place hplace => ?_
      cases hplace
      exact hnoted

/-- A diagnostic of no family is passed over when its file can be read. Nothing but the files
changes, and the place of the diagnostic is noted in them. -/
theorem classifyDiagnostic_of_no_family {diagnostic : Diagnostic} {ws : Workspace}
    {files' : Table String FileBuffer} (hfamily : Family.ofCode? diagnostic.code = none)
    (hread : ∀ place, engine.place? diagnostic = some place →
      ∃ text, engine.store place.1 = .ok text)
    (h : Beside engine.store extra ws.files files') :
    ∃ classification files₁ extra₁,
      engine.classifyDiagnostic diagnostic ws = .ok classification (ws.withFiles files₁) ∧
        (classification = .duplicate ∨ ∃ entry, classification = .unsupported entry) ∧
        Beside engine.store extra₁ files₁ files' ∧
        (extra₁ = extra ∨ ∃ place, engine.place? diagnostic = some place ∧
          ¬Noted files' place ∧ extra₁ = place :: extra) := by
  unfold classifyDiagnostic
  unfold place? at hread ⊢
  cases hpair : engine.snapshot.locate? diagnostic.file diagnostic.start with
  | none => exact ⟨_, ws.files, extra, rfl, .inr ⟨_, rfl⟩, h, .inl rfl⟩
  | some pair =>
    rw [hpair] at hread
    obtain ⟨text, htext⟩ := hread _ rfl
    dsimp only
    rw [← bind_assoc]
    by_cases hnoted : Noted files' (pair.source.file, pair.source.start.toNat)
    · refine ⟨.duplicate, ws.files, extra, ?_, .inl rfl, h, .inl rfl⟩
      simp only [Bind.bind, EStateM.bind]
      have hnote := note_again h hnoted
      simp only [Bind.bind, EStateM.bind] at hnote
      rw [hnote]
      rfl
    · obtain ⟨fresh, files₁, hnote, h₁⟩ := note_ahead htext pair.source.start.toNat h
      refine ⟨if fresh then .unsupported (.of diagnostic.code pair.source.kindName
        pair.source.file pair.source.start.toNat) else .duplicate, files₁, _, ?_, ?_, h₁,
        .inr ⟨_, rfl, hnoted, rfl⟩⟩
      · simp only [Bind.bind, EStateM.bind] at hnote ⊢
        rw [hnote]
        cases fresh with
        | true => simp [classify, hfamily, Pure.pure, EStateM.pure]
        | false => rfl
      · cases fresh with
        | true => exact .inr ⟨_, rfl⟩
        | false => exact .inl rfl

end Engine

end TypeMend
