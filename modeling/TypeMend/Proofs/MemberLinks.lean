import TypeMend.Proofs.InsertedMembers

/-!
# The links of members

A member has a node for its name and one for its type. Its name should have its type as declaration,
and both should have the texts that the snapshot gives them. But nodes are shared by range and kind,
and a shared node keeps the description that was met first. If the ranges of members lie apart, then
nothing but a pair can describe such a node otherwise. The link of a member holds exactly if no pair
has done so.
-/
namespace TypeMend

open Workspace

/-! ## Descriptions of members -/

/-- The key of the written type of a description. -/
def Description.writtenKey? (description : Description) : Option NodeKey :=
  description.writtenType.map fun span => (ofSpan span).key

/-- A description says of the name of a member what the member says. -/
def Description.SuitsName (description : Description) (file : String)
    (written : MemberDeclaration) : Prop :=
  description.text = written.name ∧
    description.writtenKey? = some (ofSpan (written.annotation file)).key

instance (description : Description) (file : String) (written : MemberDeclaration) :
    Decidable (description.SuitsName file written) :=
  inferInstanceAs (Decidable (_ ∧ _))

namespace Snapshot

variable {snapshot : Snapshot} {declaration : Declaration} {written : MemberDeclaration}
  {description : Description}

/-- The descriptions that the sides of pairs give. -/
def pairDescriptions (snapshot : Snapshot) : List Description :=
  snapshot.pairs.flatMap fun pair => pair.source.descriptions ++ pair.target.descriptions

/-- No pair describes the name or the type of a member in another way. -/
def Undisputed (snapshot : Snapshot) (file : String) (written : MemberDeclaration) : Prop :=
  ∀ description ∈ snapshot.pairDescriptions,
    (description.key = (Description.ofMember file written).key →
        description.SuitsName file written) ∧
      (description.key = (Description.ofSpan (written.annotation file)).key →
        description.text = written.typeText)

instance (snapshot : Snapshot) (file : String) (written : MemberDeclaration) :
    Decidable (snapshot.Undisputed file written) :=
  inferInstanceAs (Decidable (∀ description ∈ snapshot.pairDescriptions, _ ∧ _))

/-- All members that are written, with their files. -/
def writtenMembers (snapshot : Snapshot) : List (String × MemberDeclaration) :=
  snapshot.declarations.flatMap fun declaration =>
    declaration.members.map fun member => (declaration.file, member)

def nameRange (entry : String × MemberDeclaration) : String × UInt32 × UInt32 :=
  (entry.1, entry.2.nameStart, entry.2.nameStop)

def typeRange (entry : String × MemberDeclaration) : String × UInt32 × UInt32 :=
  (entry.1, entry.2.typeStart, entry.2.typeStop)

/-- The names and the types of all members have ranges of their own. -/
def MembersApart (snapshot : Snapshot) : Prop :=
  (snapshot.writtenMembers.map nameRange ++ snapshot.writtenMembers.map typeRange).Nodup

instance (snapshot : Snapshot) : Decidable snapshot.MembersApart :=
  inferInstanceAs (Decidable (List.Nodup (_ ++ _)))

theorem mem_writtenMembers (h : declaration ∈ snapshot.declarations)
    (hwritten : written ∈ declaration.members) :
    (declaration.file, written) ∈ snapshot.writtenMembers :=
  List.mem_flatMap.2 ⟨declaration, h, List.mem_map.2 ⟨written, hwritten, rfl⟩⟩

/-- A description is given by a pair, by a declaration or by a member. -/
theorem descriptions_cases (h : description ∈ snapshot.descriptions) :
    description ∈ snapshot.pairDescriptions ∨
      (∃ declaration, description = .ofDeclaration declaration) ∨
      ∃ file member, (file, member) ∈ snapshot.writtenMembers ∧
        (description = .ofMember file member ∨
          description = .ofSpan (member.annotation file)) := by
  rcases List.mem_append.1 h with hpair | hdeclared
  · exact .inl hpair
  · obtain ⟨declaration, hdeclaration, hmem⟩ := List.mem_flatMap.1 hdeclared
    rcases List.mem_cons.1 hmem with rfl | hmember
    · exact .inr (.inl ⟨declaration, rfl⟩)
    · obtain ⟨member, hin, hmem⟩ := List.mem_flatMap.1 hmember
      exact .inr (.inr ⟨_, _, mem_writtenMembers hdeclaration hin, List.mem_pair.1 hmem⟩)

/-- Only a pair and the member itself describe the name of a member. -/
theorem MembersApart.of_name (h : snapshot.MembersApart) {file : String}
    (hwritten : (file, written) ∈ snapshot.writtenMembers)
    (hmem : description ∈ snapshot.descriptions)
    (hkey : description.key = (Description.ofMember file written).key) :
    description ∈ snapshot.pairDescriptions ∨ description = .ofMember file written := by
  have hkind : description.key.kindName = "PropertySignature" := by rw [hkey]; rfl
  rcases descriptions_cases hmem with hpair | ⟨_, rfl⟩ | ⟨other, member, hmember, rfl | rfl⟩
  · exact .inl hpair
  · exact absurd hkind (show "Declaration" ≠ "PropertySignature" by decide)
  · have hrange : nameRange (other, member) = nameRange (file, written) := by
      simpa [Description.ofMember, memberNameNode, Node.key, nameRange, UInt32.toNat_inj] using hkey
    cases List.inj_on_of_nodup_map (List.nodup_append.1 h).1 hmember hwritten hrange
    exact .inr rfl
  · exact absurd hkind (show "TypeAnnotation" ≠ "PropertySignature" by decide)

/-- Only a pair and the member itself describe the type of a member. -/
theorem MembersApart.of_type (h : snapshot.MembersApart) {file : String}
    (hwritten : (file, written) ∈ snapshot.writtenMembers)
    (hmem : description ∈ snapshot.descriptions)
    (hkey : description.key = (Description.ofSpan (written.annotation file)).key) :
    description ∈ snapshot.pairDescriptions ∨
      description = .ofSpan (written.annotation file) := by
  have hkind : description.key.kindName = "TypeAnnotation" := by rw [hkey]; rfl
  rcases descriptions_cases hmem with hpair | ⟨_, rfl⟩ | ⟨other, member, hmember, rfl | rfl⟩
  · exact .inl hpair
  · exact absurd hkind (show "Declaration" ≠ "TypeAnnotation" by decide)
  · exact absurd hkind (show "PropertySignature" ≠ "TypeAnnotation" by decide)
  · have hrange : typeRange (other, member) = typeRange (file, written) := by
      simpa [Description.ofSpan, MemberDeclaration.annotation, spanNode, Node.key, typeRange,
        UInt32.toNat_inj] using hkey
    cases List.inj_on_of_nodup_map (List.nodup_append.1 h).2.1 hmember hwritten hrange
    exact .inr rfl

end Snapshot

/-! ## Links -/

namespace Workspace

variable {snapshot : Snapshot} {ws : Workspace} {description : Description}

/-- The nodes of a member say what the member says: the name has its own text and the type as its
declaration, and the type has the text that is written for it. -/
structure Linked (ws : Workspace) (written : MemberDeclaration) (member : Member) : Prop where
  name_eq : (ws.node member.nameNode).text = member.name
  declaration_eq : (ws.node member.nameNode).declaration = some member.typeNode
  type_eq : (ws.node member.typeNode).text = written.typeText

/-- The node with a number is the one that a description gives. -/
def Shown (ws : Workspace) (id : NodeId) (description : Description) : Prop :=
  ∃ written, ws.node id = description.node written ∧ ws.Written description written

/-- The number of a written type is that of the node with its key. -/
theorem Written.eq_some_iff (hf : Faithful snapshot ws) {number : Option NodeId}
    (h : ws.Written description number) {key : NodeKey} {id : NodeId}
    (hid : ws.index.get? key = some id) :
    number = some id ↔ description.writtenKey? = some key := by
  unfold Written at h
  unfold Description.writtenKey?
  cases hspan : description.writtenType with
  | none =>
    rw [hspan] at h
    cases h
    simp
  | some span =>
    rw [hspan] at h
    obtain ⟨number, rfl, hnumber⟩ := h.of_left
    simp only [Option.some.injEq, Option.map_some]
    constructor
    · rintro rfl
      exact (hf.keyed _ _ hnumber).2.symm.trans (hf.keyed _ _ hid).2
    · rintro rfl
      exact Option.some.inj (hnumber.symm.trans hid)

variable {owner : DeclId} {file : String} {written : MemberDeclaration} {member : Member}

/-- Whether a member is linked is read off the descriptions of its nodes. -/
theorem linked_iff_of_shown (hf : Faithful snapshot ws)
    (hwrites : ws.Writes owner file written member) {name type : Description}
    (hname : ws.Shown member.nameNode name) (htype : ws.Shown member.typeNode type) :
    ws.Linked written member ↔ name.SuitsName file written ∧ type.text = written.typeText := by
  obtain ⟨number, hnode, hnumber⟩ := hname
  obtain ⟨_, hnode', -⟩ := htype
  have hlink := hnumber.eq_some_iff hf hwrites.typeNode_eq
  constructor
  · intro h
    have htext := h.name_eq
    have hdeclaration := h.declaration_eq
    have htypeText := h.type_eq
    rw [hnode] at htext hdeclaration
    rw [hnode'] at htypeText
    exact ⟨⟨htext.trans hwrites.name_eq, hlink.1 hdeclaration⟩, htypeText⟩
  · rintro ⟨⟨htext, hkey⟩, htypeText⟩
    refine ⟨?_, ?_, ?_⟩
    · rw [hnode, hwrites.name_eq]
      exact htext
    · rw [hnode]
      exact hlink.2 hkey
    · rw [hnode']
      exact htypeText

theorem Shows.shown {key : NodeKey} {id : NodeId} {number : Option NodeId}
    (h : ws.Shows snapshot key id description number) : ws.Shown id description :=
  ⟨number, h.node_eq, h.known⟩

theorem Shown.key_eq {key : NodeKey} {id : NodeId} (h : ws.Shown id description)
    (hf : Faithful snapshot ws) (hid : ws.index.get? key = some id) : description.key = key := by
  obtain ⟨number, hnode, -⟩ := h
  have hkey := (hf.keyed key id hid).2
  rw [hnode] at hkey
  exact hkey

/-- A member is linked exactly if no pair gave one of its nodes and says something else. -/
theorem linked_iff (hf : Faithful snapshot ws) (hd : Depicted snapshot ws)
    (hapart : snapshot.MembersApart) (hwritten : (file, written) ∈ snapshot.writtenMembers)
    (hwrites : ws.Writes owner file written member) :
    ws.Linked written member ↔ ∀ description ∈ snapshot.pairDescriptions,
      (ws.Shown member.nameNode description → description.SuitsName file written) ∧
        (ws.Shown member.typeNode description → description.text = written.typeText) := by
  obtain ⟨name, _, hname⟩ := hd _ _ hwrites.nameNode_eq
  obtain ⟨type, _, htype⟩ := hd _ _ hwrites.typeNode_eq
  constructor
  · intro h description _
    exact ⟨fun hshown => ((linked_iff_of_shown hf hwrites hshown htype.shown).1 h).1,
      fun hshown => ((linked_iff_of_shown hf hwrites hname.shown hshown).1 h).2⟩
  · intro h
    refine (linked_iff_of_shown hf hwrites hname.shown htype.shown).2 ⟨?_, ?_⟩
    · rcases hapart.of_name hwritten hname.mem hname.key_eq with hpair | rfl
      · exact (h name hpair).1 hname.shown
      · exact ⟨rfl, rfl⟩
    · rcases hapart.of_type hwritten htype.mem htype.key_eq with hpair | rfl
      · exact (h type hpair).2 htype.shown
      · rfl

end Workspace

namespace Session

variable {session : Session}

theorem Reached.evolves (h : session.Reached) :
    Evolves session.engine.anywhere ∅ session.workspace := by
  refine h.preserves (P := fun engine ws => Evolves engine.anywhere ∅ ws) (fun _ => .refl)
    fun engine diagnostic ws hws => ?_
  have hconsistent := (Engine.consistent_empty engine).evolves hws
  exact hws.trans (Engine.classifyDiagnostic_runs hconsistent diagnostic).evolves_after

/-- Which members of a session keep their links. If the names and types of all members have ranges
of their own, then a member is linked exactly if no pair gave one of its nodes and says something
else of it. In particular it is linked if no pair describes its name or its type in another way. -/
theorem members_linked_iff (h : session.Reached) (hapart : session.engine.snapshot.MembersApart)
    {id : DeclId} (hid : id < session.workspace.declarations.size) {key : String} {member : Member}
    (hmember : (session.workspace.declaration id).members.get? key = some member) :
    ∃ declaration written, session.engine.snapshot.Named declaration ∧
      (session.workspace.declaration id).name = declaration.name ∧
      declaration.written? key = some written ∧ member.name = written.name ∧
      (session.workspace.Linked written member ↔
        ∀ description ∈ session.engine.snapshot.pairDescriptions,
          (session.workspace.Shown member.nameNode description →
              description.SuitsName declaration.file written) ∧
            (session.workspace.Shown member.typeNode description →
              description.text = written.typeText)) ∧
      (session.engine.snapshot.Undisputed declaration.file written →
        session.workspace.Linked written member) := by
  obtain ⟨declaration, hstands⟩ := h.evolves.exists_stands hid
  obtain ⟨written, hlast, hwrites⟩ := hstands.lists.exists_writes hmember
  have hwritten : (declaration.file, written) ∈ session.engine.snapshot.writtenMembers :=
    Snapshot.mem_writtenMembers (Snapshot.mem_of_named hstands.named)
      (List.mem_reverse.1 (List.mem_of_find?_eq_some hlast))
  have hfaithful := h.coherent.faithful
  have hlinked := linked_iff hfaithful h.coherent.depicted hapart hwritten hwrites
  refine ⟨declaration, written, hstands.named, hstands.name_eq, hlast, hwrites.name_eq, hlinked,
    fun hundisputed => hlinked.2 fun description hpair => ?_⟩
  obtain ⟨hname, htype⟩ := hundisputed description hpair
  exact ⟨fun hshown => hname (hshown.key_eq hfaithful hwrites.nameNode_eq),
    fun hshown => htype (hshown.key_eq hfaithful hwrites.typeNode_eq)⟩

/-- A member that is a string. -/
def stringMember : MemberDeclaration :=
  ⟨"k", 14, 15, 17, 23, "string", false⟩

/-- The declaration that writes it. -/
def stringOwner : Declaration :=
  ⟨"A", "a.ts", 0, 26, [stringMember], []⟩

/-- A number is checked against the member, and the object around it against the declaration. -/
def numberForString (writtenType : Option SourceSpan) : Session :=
  new
    { diagnostics := []
      locations :=
        [⟨⟨"a.ts", 43, 44, "5", "number", "NumericLiteral", false, none, none⟩,
            ⟨"a.ts", 14, 15, "k", "string", "PropertySignature", false, none, writtenType⟩, none⟩,
          ⟨⟨"a.ts", 38, 46, "\x7b k: 5 \x7d", "\x7b k: number; \x7d", "ObjectLiteralExpression",
              false, none, none⟩,
            ⟨"a.ts", 31, 32, "a", "A", "Identifier", false, none, some ⟨"a.ts", 34, 35, "A"⟩⟩,
            none⟩]
      shapes := .ofList [("\x7b k: number; \x7d", .ofList [("k", ⟨"number", false⟩)])]
      declarations := [stringOwner]
      layers := [] }
    (.ofTable (.ofList [("a.ts",
      "interface A \x7b k: string; \x7d let a: A = \x7b k: 5 \x7d;")])) .default

/-- The session after both diagnostics. -/
def afterNumber (writtenType : Option SourceSpan) : Session :=
  (((numberForString writtenType).run takeFirst
    [⟨2322, "a.ts", 43, 1, ""⟩, ⟨2322, "a.ts", 38, 8, ""⟩]).run ()).1.2

theorem reached_afterNumber (writtenType : Option SourceSpan) :
    (afterNumber writtenType).Reached := by
  have hnew : (numberForString writtenType).Reached := .new _ _ _
  exact hnew.run takeFirst _ ()

theorem engine_afterNumber (writtenType : Option SourceSpan) :
    (afterNumber writtenType).engine = (numberForString writtenType).engine := by
  rw [afterNumber, run_session]

/-- The pair describes the name of the member first, with the type that is written for it. -/
theorem members_linked_iff_afterNumber :
    let session := afterNumber (some ⟨"a.ts", 17, 23, "string"⟩)
    session.Reached ∧ session.engine.snapshot.MembersApart ∧
      0 < session.workspace.declarations.size ∧
      (session.workspace.declaration 0).members.get? "k" = some ⟨0, "k", false, 2, 1⟩ ∧
      session.workspace.Linked stringMember ⟨0, "k", false, 2, 1⟩ := by
  intro session
  have hreached : session.Reached := reached_afterNumber _
  have hengine : session.engine = (numberForString _).engine := engine_afterNumber _
  have hapart : session.engine.snapshot.MembersApart := by
    rw [hengine]
    decide
  have hsize : 0 < session.workspace.declarations.size := by decide +kernel
  have hname : (session.workspace.declaration 0).name = "A" := by decide +kernel
  have hmember : (session.workspace.declaration 0).members.get? "k" =
      some ⟨0, "k", false, 2, 1⟩ := by
    decide +kernel
  have howner : session.engine.snapshot.Named stringOwner := by
    rw [hengine, Snapshot.Named]
    decide +kernel
  obtain ⟨declaration, written, hnamed, hentry, hwritten, -, -, hlinked⟩ :=
    members_linked_iff hreached hapart hsize hmember
  obtain rfl : declaration = stringOwner :=
    hnamed.eq_of_name howner (hentry.symm.trans hname)
  obtain rfl : stringMember = written := Option.some.inj hwritten
  refine ⟨hreached, hapart, hsize, hmember, hlinked ?_⟩
  rw [hengine]
  decide

/-- If the pair leaves the written type out, then the name of the member has no declaration. -/
theorem member_unlinked_afterNumber :
    (afterNumber none).Reached ∧ (afterNumber none).engine.snapshot.MembersApart ∧
      (∀ declaration ∈ (afterNumber none).engine.snapshot.declarations,
        (declaration.members.map MemberDeclaration.name).Nodup) ∧
      ∃ member, ((afterNumber none).workspace.declaration 0).members.get? "k" = some member ∧
        ((afterNumber none).workspace.node member.nameNode).declaration = none := by
  refine ⟨reached_afterNumber none, ?_, ?_, ⟨0, "k", false, 1, 6⟩, by decide +kernel,
    by decide +kernel⟩
  · rw [engine_afterNumber]
    decide
  · rw [engine_afterNumber]
    decide

end Session

end TypeMend
