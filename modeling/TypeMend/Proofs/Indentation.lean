import TypeMend.Command.Config
import TypeMend.Proofs.MemberLayout

/-!
# The indentation of new members

The indentation unit comes from the command line, else from the configuration, else it is two
spaces. A configuration whose unit is not blank is refused, but nothing is asked of a unit on the
command line. So the unit is blank unless the command line gives one that is not, and what stands
before a member on its line in a declaration without members is blank exactly if the unit is.
-/
namespace TypeMend

open Text

namespace Arguments

/-! ## What the command line gives -/

/-- The command line gives no unit of indentation or a blank one. -/
def BlankIndent (args : Arguments) : Prop :=
  ∀ unit ∈ args.indentUnit, allBlank unit.toList = true

/-- An argument begins an option for a slot, by its long name or by a letter. -/
def mentions (slot : Slot) (argument : String) : Bool :=
  match argument.toList with
  | '-' :: '-' :: name => long? (String.ofList (splitEquals name).1) == some (.slot slot)
  | '-' :: letters => letters.any fun c => short? c == some (.slot slot)
  | _ => false

/-- A slot has no value so far and waits for none. -/
structure Draft.Lacks (draft : Draft) (slot : Slot) : Prop where
  unset : draft.values.lookup slot = none
  idle : ∀ value, draft.pending ≠ some (slot, value)

/-- If reading goes on, it does so with a draft in which a slot has no value. -/
def Lacking (slot : Slot) (result : Except ArgumentsFault Draft) : Prop :=
  ∀ draft, result = .ok draft → draft.Lacks slot

variable {slot other : Slot} {draft : Draft}

theorem Lacking.error (fault : ArgumentsFault) : Lacking slot (.error fault) := nofun

theorem Draft.Lacks.lacking (h : draft.Lacks slot) : Lacking slot (.ok draft) := by
  rintro _ ⟨rfl⟩
  exact h

theorem Lacking.bind {result : Except ArgumentsFault Draft}
    {next : Draft → Except ArgumentsFault Draft} (h : Lacking slot result)
    (hnext : ∀ draft, draft.Lacks slot → Lacking slot (next draft)) :
    Lacking slot (result >>= next) := by
  cases result with
  | error fault => exact .error fault
  | ok draft => exact hnext draft (h draft rfl)

theorem lacking_assign (h : draft.Lacks slot) (hother : other ≠ slot) (value : String) :
    Lacking slot (draft.assign other value) := by
  unfold Draft.assign
  split_ifs
  · exact .error _
  · cases hcheck : checkValue other value with
    | error fault => exact .error fault
    | ok =>
      refine Draft.Lacks.lacking ⟨?_, h.idle⟩
      have hkey : (slot == other) = false := by simpa using hother.symm
      simp [List.lookup_append, h.unset, List.lookup_cons, hkey]

theorem lacking_settle (h : draft.Lacks slot) : Lacking slot draft.settle := by
  unfold Draft.settle
  split
  · exact h.lacking
  · exact .error _
  · rename_i other value hpending
    have hother : other ≠ slot := by
      rintro rfl
      exact h.idle _ hpending
    have hidle : ({ draft with pending := none } : Draft).Lacks slot := ⟨h.unset, by simp⟩
    exact lacking_assign hidle hother value

theorem lacking_turnOn (h : draft.Lacks slot) (switch : Switch) :
    Lacking slot (draft.turnOn switch) := by
  refine (lacking_settle h).bind fun draft hdraft => ?_
  split
  · exact .error _
  · exact .error _
  · split_ifs
    · exact .error _
    · exact Draft.Lacks.lacking ⟨hdraft.unset, hdraft.idle⟩

theorem lacking_begin (h : draft.Lacks slot) (hother : other ≠ slot) (attached : Option String) :
    Lacking slot (draft.begin other attached) := by
  refine (lacking_settle h).bind fun draft hdraft => ?_
  cases attached with
  | some value => exact lacking_assign hdraft hother value
  | none => exact Draft.Lacks.lacking ⟨hdraft.unset, by simp [hother]⟩

theorem lacking_readLong (h : draft.Lacks slot) {name : List Char}
    (hname : long? (String.ofList (splitEquals name).1) ≠ some (.slot slot)) :
    Lacking slot (readLong draft name) := by
  unfold readLong
  dsimp only
  split
  · exact .error _
  · exact .error _
  · exact lacking_turnOn h _
  · rename_i other hlong
    exact lacking_begin h (fun heq => hname (heq ▸ hlong)) _

theorem lacking_readShort (h : draft.Lacks slot) {letters : List Char}
    (hletters : ∀ c ∈ letters, short? c ≠ some (.slot slot)) :
    Lacking slot (readShort draft letters) := by
  induction letters generalizing draft with
  | nil => exact h.lacking
  | cons c cs ih =>
    rw [List.forall_mem_cons] at hletters
    unfold readShort
    split
    · exact .error _
    · exact (lacking_turnOn h _).bind fun draft hdraft => ih hdraft hletters.2
    · rename_i other hshort
      exact lacking_begin h (fun heq => hletters.1 (heq ▸ hshort)) _

theorem lacking_readPlain (h : draft.Lacks slot) (hslot : slot ≠ .snapshot) (value : String) :
    Lacking slot (readPlain draft value) := by
  unfold readPlain
  dsimp only
  split_ifs
  · exact .error _
  · exact (lacking_settle h).bind fun draft hdraft =>
      Draft.Lacks.lacking ⟨hdraft.unset, by simp [hslot.symm]⟩

theorem short?_ne_of_mentions {argument : String} {c : Char} {letters : List Char}
    (hcs : argument.toList = '-' :: c :: letters) (hdash : c ≠ '-')
    (h : mentions slot argument = false) : ∀ d ∈ c :: letters, short? d ≠ some (.slot slot) := by
  rw [mentions, hcs] at h
  split at h
  · rename_i heq
    exact absurd (List.cons.inj (List.cons.inj heq).2).1 hdash
  · rename_i heq
    obtain ⟨-, rfl⟩ := List.cons.inj heq
    simpa using h
  · rename_i hnot
    exact absurd rfl (hnot _)

/-- A slot that no argument mentions has no value, unless it is the one for arguments without a
name. -/
theorem lacking_readAll (hslot : slot ≠ .snapshot) {arguments : List String}
    (harguments : ∀ argument ∈ arguments, mentions slot argument = false) (plain : Bool)
    (h : draft.Lacks slot) : Lacking slot (readAll plain draft arguments) := by
  induction arguments generalizing plain draft with
  | nil => exact lacking_settle h
  | cons argument arguments ih =>
    obtain ⟨hargument, hrest⟩ := List.forall_mem_cons.1 harguments
    have hplain (plain : Bool) : Lacking slot
        (readPlain draft argument >>= fun draft => readAll plain draft arguments) :=
      (lacking_readPlain h hslot argument).bind fun draft => ih hrest plain
    unfold readAll
    dsimp only
    split_ifs
    · exact hplain plain
    · split
      · exact ih hrest true h
      · rename_i name _ hcs
        have hname : long? (String.ofList (splitEquals name).1) ≠ some (.slot slot) := by
          simpa [mentions, hcs] using hargument
        exact (lacking_readLong h hname).bind fun draft => ih hrest plain
      · rename_i c letters _ hdash hcs
        have hletters := short?_ne_of_mentions hcs hdash hargument
        exact (lacking_readShort h hletters).bind fun draft => ih hrest plain
      · split
        · rename_i other hpending
          have hother : other ≠ slot := by
            rintro rfl
            exact h.idle _ hpending
          exact ih hrest plain ⟨h.unset, by simp [hother]⟩
        · exact hplain plain

theorem indentUnit_eq_none {argv : List String} {args : Arguments} (h : parse argv = .ok args)
    (hargv : ∀ argument ∈ argv, mentions .indentUnit argument = false) : args.indentUnit = none := by
  unfold parse at h
  cases hdraft : readAll false ⟨[], [], none⟩ argv with
  | error fault =>
    rw [hdraft] at h
    cases h
  | ok draft =>
    have hlacks : draft.Lacks .indentUnit :=
      lacking_readAll (by decide) hargv false ⟨rfl, by simp⟩ draft hdraft
    rw [hdraft] at h
    dsimp only [bind, Except.bind] at h
    split at h
    · cases h
    · cases h
      exact hlacks.unset

theorem splitEquals_append {name : List Char} (hname : '=' ∉ name) (value : List Char) :
    splitEquals (name ++ '=' :: value) = (name, some value) := by
  induction name with
  | nil => rfl
  | cons c name ih =>
    rw [List.mem_cons, not_or] at hname
    rw [List.cons_append, splitEquals, ih hname.2]
    exact fun heq => hname.1 heq.symm

theorem readAll_long {argument : String} {c : Char} {name : List Char}
    (h : argument.toList = '-' :: '-' :: c :: name) (draft : Draft) (arguments : List String) :
    readAll false draft (argument :: arguments) =
      readLong draft (c :: name) >>= fun draft => readAll false draft arguments := by
  conv_lhs => unfold readAll
  dsimp only
  rw [h]
  rfl

theorem readAll_plain {argument : String} {c : Char} {cs : List Char}
    (h : argument.toList = c :: cs) (hc : c ≠ '-') {draft : Draft} (hidle : draft.pending = none)
    (arguments : List String) :
    readAll false draft (argument :: arguments) =
      readPlain draft argument >>= fun draft => readAll false draft arguments := by
  conv_lhs => unfold readAll
  dsimp only
  rw [h, hidle]
  simp [hc]

/-- The command line can give any text as indentation. -/
theorem parse_indentUnit (unit : String) :
    ∃ args, parse ["--indentUnit=" ++ unit, "snapshot.json"] = .ok args ∧
      args.indentUnit = some unit := by
  have hname : "indentUnit".toList = 'i' :: "ndentUnit".toList := by decide +kernel
  have htext : ("--indentUnit=" ++ unit).toList =
      '-' :: '-' :: 'i' :: ("ndentUnit".toList ++ '=' :: unit.toList) := by
    have hfront : "--indentUnit=".toList = '-' :: '-' :: 'i' :: ("ndentUnit".toList ++ ['=']) := by
      decide +kernel
    rw [String.toList_append, hfront]
    simp
  have hlong : readLong ⟨[], [], none⟩ ('i' :: ("ndentUnit".toList ++ '=' :: unit.toList)) =
      .ok ⟨[], [(.indentUnit, unit)], none⟩ := by
    have hoption : long? (String.ofList "indentUnit".toList) = some (.slot .indentUnit) := by
      decide +kernel
    rw [← List.cons_append, ← hname, readLong, splitEquals_append (by decide)]
    dsimp only
    rw [hoption]
    simp [Draft.begin, Draft.settle, Draft.assign, checkValue, bind, Except.bind, pure, Except.pure]
  have hsnapshot : "snapshot.json".toList = 's' :: "napshot.json".toList := by decide +kernel
  have hread : readAll false ⟨[], [], none⟩ ["--indentUnit=" ++ unit, "snapshot.json"] =
      .ok ⟨[], [(.indentUnit, unit), (.snapshot, "snapshot.json")], none⟩ := by
    rw [readAll_long htext, hlong]
    change readAll false _ _ = _
    rw [readAll_plain hsnapshot (by decide) rfl]
    rfl
  refine ⟨_, by rw [parse, hread]; rfl, rfl⟩

end Arguments

namespace Config

/-! ## The unit of a run -/

/-- The configuration that is read from a document, or the empty one where there is none. -/
def ReadFrom (config : Config) : Option String → Prop
  | none => config = ∅
  | some document => parse document = .ok config

theorem ReadFrom.blank {config : Config} {document : Option String}
    (h : config.ReadFrom document) : allBlank (config.indentUnit.getD "").toList = true := by
  cases document with
  | none =>
    obtain rfl : config = ∅ := h
    rfl
  | some document =>
    change parse document = .ok config at h
    rw [parse] at h
    split at h
    · cases h
    · split_ifs at h with hblank
      cases h
      exact hblank

theorem indentUnit_resolve (config : Config) (args : Arguments) :
    (config.resolve args).options.indentUnit =
      (args.indentUnit.or config.indentUnit).getD Options.default.indentUnit := rfl

/-- The unit is blank exactly if the command line gives none or a blank one. -/
theorem blank_resolve_iff {config : Config} {document : Option String}
    (h : config.ReadFrom document) (args : Arguments) :
    allBlank (config.resolve args).options.indentUnit.toList = true ↔ args.BlankIndent := by
  rw [indentUnit_resolve, Arguments.BlankIndent]
  cases args.indentUnit with
  | some unit => simp
  | none =>
    have hblank := h.blank
    have hdefault : allBlank Options.default.indentUnit.toList = true := by decide
    cases hunit : config.indentUnit with
    | none => simpa using hdefault
    | some unit =>
      rw [hunit] at hblank
      simpa using hblank

end Config

namespace Insertion

/-! ## Declarations without members -/

theorem afterBrace?_append {head : List Char} (h : '\x7b' ∉ head) (inside : List Char) :
    afterBrace? (head ++ '\x7b' :: inside) = some inside := by
  induction head with
  | nil => rfl
  | cons c head ih =>
    rw [List.mem_cons, not_or] at h
    rw [List.cons_append, afterBrace?, if_neg (Ne.symm h.1), ih h.2]

theorem splitLastLine?_append {closing : List Char} (h : '\n' ∉ closing) (members : List Char) :
    splitLastLine? (members ++ '\n' :: closing) = some (members ++ ['\n'], closing) := by
  have hnone : splitLastLine? closing = none := by
    cases hsplit : splitLastLine? closing with
    | none => rfl
    | some parts =>
      obtain ⟨before, -, hclosing, -⟩ := splitLastLine?_parts hsplit
      exact absurd (by simp [hclosing]) h
  induction members with
  | nil => simp [splitLastLine?, hnone]
  | cons c members ih => rw [List.cons_append, splitLastLine?, ih]; rfl

theorem subset_of_mem_lines {cs line : List Char} (h : line ∈ lines cs) : line ⊆ cs := by
  induction cs using lines.induct generalizing line with
  | case1 => cases h
  | case2 cs ih | case3 cs ih =>
    rw [lines, List.mem_cons] at h
    rcases h with rfl | h
    · simp
    · intro c hc
      simp [ih h hc]
  | case4 c cs hfeed hreturn hnil ih =>
    rw [lines, hnil] at h
    · obtain rfl : line = [c] := by simpa using h
      simp
    all_goals assumption
  | case5 c cs hfeed hreturn first rest hcons ih =>
    rw [lines, hcons] at h
    · rcases List.mem_cons.1 h with rfl | h
      · exact List.cons_subset_cons c (ih (by simp [hcons]))
      · exact List.subset_cons_of_subset c (ih (by simp [hcons, h]))
    all_goals assumption

/-- Without a line that is not blank, a member gets the indentation of the closing brace and one
unit. -/
theorem memberIndent_of_blank {members : List Char} (h : allBlank members = true) (unit : String)
    (closing : List Char) : memberIndent unit members closing = closing ++ unit.toList := by
  have hlines : ∀ line ∈ lines members, allBlank line = true := by
    intro line hline
    rw [allBlank, List.all_eq_true] at h ⊢
    exact fun c hc => h c (subset_of_mem_lines hline hc)
  have hnone : lastIndent? members = none := by
    simpa [lastIndent?] using hlines
  rw [memberIndent, hnone, Option.getD_none]

/-- A text with a declaration that holds only blanks and whose closing brace has a line of its
own. -/
structure Vacant where
  /-- The text before the declaration. -/
  lead : String
  /-- The declaration up to its opening brace. -/
  head : String
  /-- What stands between the opening brace and the last line feed. -/
  blanks : String
  /-- What stands before the closing brace on its line. -/
  closing : String
  /-- The text behind the declaration. -/
  tail : String
  first_brace : '\x7b' ∉ head.toList
  blank : allBlank blanks.toList = true
  closing_blank : allBlank closing.toList = true
  last_line : '\n' ∉ closing.toList

namespace Vacant

variable (vacant : Vacant)

/-- The text up to the line of the closing brace. -/
def front : String :=
  vacant.lead ++ vacant.head ++ "\x7b" ++ vacant.blanks ++ "\n"

/-- The text from the line of the closing brace on. -/
def back : String :=
  vacant.closing ++ "\x7d" ++ vacant.tail

def text : String :=
  vacant.front ++ vacant.back

def start : Nat :=
  vacant.lead.utf8ByteSize

def stop : Nat :=
  (vacant.front ++ vacant.closing ++ "\x7d").utf8ByteSize

/-- What stands before a member on its line: the indentation of the closing brace and one unit
more. -/
def indent (unit : String) : String :=
  vacant.closing ++ unit

theorem body?_eq : body? vacant.start vacant.stop vacant.text.toList =
    some ⟨vacant.stop - 1, vacant.blanks.toList ++ '\n' :: vacant.closing.toList⟩ := by
  have hstop : vacant.stop = (vacant.front ++ vacant.closing).utf8ByteSize + 1 := by
    simp [stop, String.utf8ByteSize_append]
    rfl
  have hcut : cut? (vacant.stop - 1) vacant.text.toList =
      some ((vacant.front ++ vacant.closing).toList, '\x7d' :: vacant.tail.toList) := by
    rw [cut?_eq_some_iff, byteLength_toList]
    refine ⟨?_, by omega⟩
    simp [text, back]
  have hfront : (vacant.front ++ vacant.closing).toList =
      vacant.lead.toList ++ (vacant.head.toList ++
        '\x7b' :: (vacant.blanks.toList ++ '\n' :: vacant.closing.toList)) := by
    simp [front]
  have hregion : cut? vacant.start (vacant.front ++ vacant.closing).toList =
      some (vacant.lead.toList, vacant.head.toList ++
        '\x7b' :: (vacant.blanks.toList ++ '\n' :: vacant.closing.toList)) := by
    rw [cut?_eq_some_iff, byteLength_toList]
    exact ⟨hfront, rfl⟩
  rw [body?_of_cut (by omega) hcut, hregion]
  simp [afterBrace?_append vacant.first_brace]

theorem change?_eq (unit property : String) :
    change? unit vacant.start vacant.stop property vacant.text.toList =
      some (.insertion vacant.front.utf8ByteSize
        ((Layout.ownLine (vacant.indent unit)).piece property)) := by
  have hblank : allBlank (vacant.blanks.toList ++ ['\n']) = true := by
    have hnewline : isBlank '\n' = true := by decide
    simpa [allBlank, hnewline] using vacant.blank
  have hclose : vacant.stop - 1 - byteLength vacant.closing.toList = vacant.front.utf8ByteSize := by
    have hbrace : "\x7d".utf8ByteSize = 1 := by decide
    rw [stop, String.utf8ByteSize_append, String.utf8ByteSize_append, byteLength_toList, hbrace]
    omega
  rw [change?, body?_eq, Option.map_some, inBody]
  simp only [splitLastLine?_append vacant.last_line, vacant.closing_blank, if_true,
    memberIndent_of_blank hblank, hclose]
  simp [indent, Layout.piece, Layout.lead, Layout.set, TextChange.insertion, String.ext_iff]

theorem blank_indent_iff (unit : String) :
    allBlank (vacant.indent unit).toList = true ↔ allBlank unit.toList = true := by
  have hclosing := vacant.closing_blank
  rw [allBlank] at hclosing ⊢
  rw [indent, String.toList_append, List.all_append, hclosing, Bool.true_and, allBlank]

/-- The edits of a file that insert members into the declaration put each on a line of its own
before the line of the closing brace. -/
theorem newText?_eq {ws : Workspace} {options : Options} {file : String}
    (htext : ws.fileText? file = some vacant.text) {declaration : NodeId}
    (hstart : (ws.node declaration).start = vacant.start)
    (hstop : (ws.node declaration).stop = vacant.stop) {edits : List Edit}
    {properties : List String}
    (hinserts : List.Forall₂ (fun edit property => edit.Inserts ws declaration property) edits
      properties) (hsome : properties ≠ []) (hdistinct : properties.Nodup) :
    ∃ sorted : List String, sorted.Perm properties ∧
      Patch.newText? ws options file edits =
        some (vacant.front ++ String.join (sorted.map fun property =>
          vacant.indent options.indentUnit ++ property ++ ";\n") ++ vacant.back) := by
  let layout : Layout := .ownLine (vacant.indent options.indentUnit)
  have hresolve : List.Forall₂ (fun edit property =>
      Patch.resolve ws options edit (vacant.front ++ vacant.back).toList =
        .change (.insertion vacant.front.utf8ByteSize (layout.piece property))) edits
      properties := by
    refine hinserts.imp fun edit property hinserted => ?_
    have hchange := vacant.change?_eq options.indentUnit property
    rw [Patch.resolve_of_signature? options hinserted.1 hinserted.2,
      Patch.insertMember, hstart, hstop]
    rw [text] at hchange
    rw [hchange]
  obtain ⟨-, sorted, hperm, -, hnew⟩ :=
    Patch.newText?_of_insertions htext hsome hdistinct hresolve
  refine ⟨sorted, hperm, ?_⟩
  rw [hnew, Layout.block, Layout.lead, String.empty_append]
  rfl

end Vacant

end Insertion

namespace Config

/-- The unit of a run is blank exactly if the command line gives none or a blank one. It gives none
if no argument mentions it, and it can give any text, which is then the unit whatever the
configuration says. New members of a declaration that holds only blanks and whose closing brace has
a line of its own get lines of their own, and what stands before a member on its line is blank
exactly if the unit is. -/
theorem inserted_indent_blank_iff {document : Option String} {config : Config}
    (hconfig : config.ReadFrom document) :
    (∀ (argv : List String) (args : Arguments), Arguments.parse argv = .ok args →
      ((∀ argument ∈ argv, Arguments.mentions .indentUnit argument = false) → args.BlankIndent) ∧
      (allBlank (config.resolve args).options.indentUnit.toList = true ↔ args.BlankIndent)) ∧
    (∀ unit : String, ∃ args,
      Arguments.parse ["--indentUnit=" ++ unit, "snapshot.json"] = .ok args ∧
      (config.resolve args).options.indentUnit = unit) ∧
    ∀ (args : Arguments) (vacant : Insertion.Vacant) (ws : Workspace) (file : String)
      (declaration : NodeId) (edits : List Edit) (properties : List String),
      ws.fileText? file = some vacant.text →
      (ws.node declaration).start = vacant.start → (ws.node declaration).stop = vacant.stop →
      List.Forall₂ (fun edit property => edit.Inserts ws declaration property) edits properties →
      properties ≠ [] → properties.Nodup →
      let options := (config.resolve args).options
      let indent := vacant.indent options.indentUnit
      (∃ sorted : List String, sorted.Perm properties ∧
        Patch.newText? ws options file edits =
          some (vacant.front ++ String.join (sorted.map fun property =>
            indent ++ property ++ ";\n") ++ vacant.back)) ∧
      vacant.front.toList.getLast? = some '\n' ∧
      (allBlank indent.toList = true ↔ args.BlankIndent) := by
  refine ⟨fun argv args hparse => ⟨fun hargv => ?_, blank_resolve_iff hconfig args⟩,
    fun unit => ?_, ?_⟩
  · rw [Arguments.BlankIndent, Arguments.indentUnit_eq_none hparse hargv]
    simp
  · obtain ⟨args, hparse, hunit⟩ := Arguments.parse_indentUnit unit
    refine ⟨args, hparse, ?_⟩
    rw [indentUnit_resolve, hunit, Option.some_or, Option.getD_some]
  · intro args vacant ws file declaration edits properties htext hstart hstop hinserts hsome
      hdistinct
    refine ⟨vacant.newText?_eq htext hstart hstop hinserts hsome hdistinct, ?_, ?_⟩
    · simp [Insertion.Vacant.front, List.getLast?_cons]
    · rw [vacant.blank_indent_iff, blank_resolve_iff hconfig]

/-- A declaration without members behind another one. -/
def kennel : Insertion.Vacant where
  lead := "interface Cat \x7b \x7d\n"
  head := "interface Dog "
  blanks := "\n"
  closing := "  "
  tail := "\n"
  first_brace := by decide
  blank := by decide
  closing_blank := by decide
  last_line := by decide

/-- The declaration in a file, and a member for it. -/
def kennelFiles : Workspace :=
  { (∅ : Workspace) with
    nodes :=
      #[⟨"dog.ts", 18, 38, "Dog", "Dog", "Declaration", false, false, none⟩,
        ⟨"a.ts", 4, 8, "meow", "string", "Identifier", false, true, none⟩]
    files := .ofList [("dog.ts", ⟨kennel.text, []⟩)] }

/-- A tab from the configuration stands before the new member. -/
theorem inserted_indent_blank_iff_kennel :
    ∃ config args, parse "\x7b\"indentUnit\": \"\\t\"\x7d" = .ok config ∧
      Arguments.parse ["-y", "snapshot.json"] = .ok args ∧
      allBlank (config.resolve args).options.indentUnit.toList = true ∧
      Patch.newText? kennelFiles (config.resolve args).options "dog.ts"
          [⟨.insertProperty, 1, some 0⟩] =
        some "interface Cat \x7b \x7d\ninterface Dog \x7b\n\n  \tmeow: string;\n  \x7d\n" := by
  let config : Config := ⟨some "\t", none, none, none, none⟩
  let args : Arguments :=
    ⟨"snapshot.json", none, none, true, false, none, none, none, false, false⟩
  have hconfig : config.ReadFrom (some "\x7b\"indentUnit\": \"\\t\"\x7d") := by
    change parse _ = .ok config
    decide +kernel
  have hargs : Arguments.parse ["-y", "snapshot.json"] = .ok args := by decide +kernel
  obtain ⟨hunit, -, hinserted⟩ := inserted_indent_blank_iff hconfig
  obtain ⟨hgiven, hblank⟩ := hunit _ args hargs
  have hunmentioned : ∀ argument ∈ ["-y", "snapshot.json"],
      Arguments.mentions .indentUnit argument = false := by
    decide +kernel
  obtain ⟨⟨sorted, hperm, hnew⟩, -, -⟩ := hinserted args kennel kennelFiles "dog.ts" 0
    [⟨.insertProperty, 1, some 0⟩] ["meow: string"] rfl (by decide +kernel) (by decide +kernel)
    (.cons (by decide) .nil) (by decide) (by decide)
  obtain rfl := List.perm_singleton.1 hperm
  refine ⟨config, args, hconfig, hargs, hblank.2 (hgiven hunmentioned), hnew.trans ?_⟩
  decide +kernel

/-- Letters that the command line gives as indentation are written before the new member. -/
theorem visible_indent_inserted :
    ∃ args, Arguments.parse ["--indentUnit", "zz", "snapshot.json"] = .ok args ∧
      allBlank ((∅ : Config).resolve args).options.indentUnit.toList = false ∧
      Patch.newText? kennelFiles ((∅ : Config).resolve args).options "dog.ts"
          [⟨.insertProperty, 1, some 0⟩] =
        some "interface Cat \x7b \x7d\ninterface Dog \x7b\n\n  zzmeow: string;\n  \x7d\n" :=
  ⟨⟨"snapshot.json", none, none, false, false, none, some "zz", none, false, false⟩,
    by decide +kernel, by decide +kernel, by decide +kernel⟩

end Config

end TypeMend
