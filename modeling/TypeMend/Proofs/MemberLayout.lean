import TypeMend.Proofs.InsertionPoint
import TypeMend.Proofs.OnePass
import TypeMend.Proofs.PatchPolicy

/-!
# Several members in one declaration

Each new member of a declaration is set against the text as it was, without regard to the others
that go into the same declaration. They meet only when the patch is applied: all are insertions at
one offset, so they are put one after the other in the order of their texts, and a space between two
of them is written once. What comes out is the text as it was with one block of members before the
closing brace. A `Layout` says how the members of the block are set, and which layout there is
depends on the body of the declaration only.
-/
namespace TypeMend

open Text

namespace Insertion

/-! ## Layouts -/

/-- How new members are set before the closing brace of a declaration. -/
inductive Layout
  /-- Each on a line of its own. -/
  | ownLine (indent : String)
  /-- Between two braces with nothing between them. -/
  | between
  /-- Behind something that needs no separator. -/
  | separated
  /-- Behind a member that ends without a separator. -/
  | joined
  deriving DecidableEq

namespace Layout

def lead : Layout → String
  | between => " "
  | ownLine _ | separated | joined => ""

/-- A member with its separators. -/
def set : Layout → String → String
  | ownLine indent, property => indent ++ property ++ ";\n"
  | between, property => property ++ "; "
  | separated, property => " " ++ property ++ ";"
  | joined, property => "; " ++ property

/-- What the insertion of one member writes. -/
def piece (layout : Layout) (property : String) : String :=
  layout.lead ++ layout.set property

def block (layout : Layout) (properties : List String) : String :=
  layout.lead ++ String.join (properties.map layout.set)

theorem piece_injective (layout : Layout) : Function.Injective layout.piece := by
  intro p q h
  cases layout <;> simpa [piece, lead, set, String.append_assoc] using h

end Layout

/-- The closing brace of a body has a line of its own. -/
def OwnLine (inside : List Char) : Prop :=
  ∃ members closing, inside = members ++ '\n' :: closing ∧ allBlank closing = true

/-- The layout of new members in a body. They go behind `kept`, the part of the inside that ends
where the last line begins or with the last character that is not blank. -/
inductive Calls (unit : String) : (inside kept : List Char) → Layout → Prop
  | ownLine {members closing : List Char} (last : '\n' ∉ closing)
      (blank : allBlank closing = true) :
      Calls unit (members ++ '\n' :: closing) (members ++ ['\n'])
        (.ownLine (String.ofList (memberIndent unit (members ++ ['\n']) closing)))
  | between {inside : List Char} (opened : ('\x7b' :: inside).getLast? = some '\x7b') :
      Calls unit inside inside .between
  | separated {kept blanks : List Char} {last : Char} (inline : ¬OwnLine (kept ++ blanks))
      (blank : allBlank blanks = true) (ends : ('\x7b' :: kept).getLast? = some last)
      (closed : last = ';' ∨ last = ',' ∨ last = '\x7b' ∧ blanks ≠ []) :
      Calls unit (kept ++ blanks) kept .separated
  | joined {kept blanks : List Char} {last : Char} (inline : ¬OwnLine (kept ++ blanks))
      (blank : allBlank blanks = true) (ends : ('\x7b' :: kept).getLast? = some last)
      (unclosed : isBlank last = false ∧ last ≠ ';' ∧ last ≠ ',' ∧ last ≠ '\x7b') :
      Calls unit (kept ++ blanks) kept .joined

/-- New members of the declaration in a range go behind `front`, with a layout. The body begins at
the first opening brace of the range and ends at its last byte. -/
def Places (unit text : String) (start stop : Nat) (front : String) (layout : Layout) : Prop :=
  ∃ lead head body after kept, Parts text.toList start lead head body after ∧ '\x7b' ∉ head ∧
    body.close = stop - 1 ∧ Calls unit body.inside kept layout ∧
    front.toList = lead ++ head ++ '\x7b' :: kept

/-! ## Every body has a layout -/

theorem newline_not_mem_of_splitLastLine? {cs : List Char} (h : splitLastLine? cs = none) :
    '\n' ∉ cs := by
  induction cs with
  | nil => simp
  | cons c cs ih =>
    rw [splitLastLine?] at h
    cases hrest : splitLastLine? cs with
    | some parts => simp [hrest] at h
    | none =>
      have hc : ¬c = '\n' := by simpa [hrest] using h
      simp [ih hrest, Ne.symm hc]

theorem splitLastLine?_parts {inside members closing : List Char}
    (h : splitLastLine? inside = some (members, closing)) :
    ∃ before, members = before ++ ['\n'] ∧ inside = before ++ '\n' :: closing ∧
      '\n' ∉ closing := by
  induction inside generalizing members with
  | nil => cases h
  | cons c cs ih =>
    rw [splitLastLine?] at h
    cases hrest : splitLastLine? cs with
    | some parts =>
      obtain ⟨rest, last⟩ := parts
      rw [hrest] at h
      cases h
      obtain ⟨before, rfl, rfl, hlast⟩ := ih hrest
      exact ⟨c :: before, rfl, rfl, hlast⟩
    | none =>
      rw [hrest] at h
      dsimp only at h
      split_ifs at h with hc
      cases h
      exact ⟨[], by simp [hc], by simp [hc], newline_not_mem_of_splitLastLine? hrest⟩

/-- A body whose last line is not blank, or that has one line only, is not closed on a line of its
own. -/
theorem not_ownLine {inside : List Char}
    (h : ∀ members closing, splitLastLine? inside = some (members, closing) →
      allBlank closing = false) : ¬OwnLine inside := by
  rintro ⟨members, closing, rfl, hblank⟩
  cases hsplit : splitLastLine? (members ++ '\n' :: closing) with
  | none => exact newline_not_mem_of_splitLastLine? hsplit (by simp)
  | some parts =>
    obtain ⟨before, last⟩ := parts
    obtain ⟨front, -, heq, hlast⟩ := splitLastLine?_parts hsplit
    have hsub : last ⊆ closing := by
      rcases List.append_eq_append_iff.1 heq with ⟨mid, -, hmid⟩ | ⟨mid, -, hmid⟩
      · cases mid with
        | nil =>
          cases hmid
          exact List.Subset.refl _
        | cons c mid =>
          cases hmid
          intro d hd
          simp [hd]
      · cases mid with
        | nil =>
          cases hmid
          exact List.Subset.refl _
        | cons c mid =>
          cases hmid
          exact absurd (by simp) hlast
    have hall : allBlank last = true := by
      rw [allBlank, List.all_eq_true] at hblank ⊢
      exact fun c hc => hblank c (hsub hc)
    rw [h before last hsplit] at hall
    cases hall

/-- What is written on the line of what stands before it. -/
theorem inlineText_eq (unit : String) {kept blanks : List Char}
    (hinline : ¬OwnLine (kept ++ blanks)) (hblank : allBlank blanks = true)
    (hkept : ∀ c, kept.getLast? = some c → isBlank c = false) :
    ∃ layout, Calls unit (kept ++ blanks) kept layout ∧ ∀ property : String,
      String.ofList (inlineText ('\x7b' :: kept) blanks.isEmpty property.toList) =
        layout.piece property := by
  obtain ⟨last, hlast⟩ : ∃ last, ('\x7b' :: kept).getLast? = some last :=
    ⟨_, List.getLast?_cons⟩
  by_cases hclosed : last = ';' ∨ last = ','
  · refine ⟨.separated, .separated hinline hblank hlast (by tauto), fun property => ?_⟩
    rcases hclosed with rfl | rfl <;>
      simp [inlineText, hlast, Layout.piece, Layout.lead, Layout.set, String.ext_iff]
  by_cases hbrace : last = '\x7b'
  · subst hbrace
    cases blanks with
    | nil =>
      refine ⟨.between, ?_, fun property => ?_⟩
      · rw [List.append_nil]
        exact .between hlast
      · simp [inlineText, hlast, Layout.piece, Layout.lead, Layout.set]
    | cons c blanks =>
      refine ⟨.separated, .separated hinline hblank hlast (by simp), fun property => ?_⟩
      simp [inlineText, hlast, Layout.piece, Layout.lead, Layout.set, String.append_assoc]
  · have hsolid : isBlank last = false := by
      cases hkept' : kept.getLast? with
      | none =>
        rw [List.getLast?_cons, hkept'] at hlast
        exact absurd (Option.some.inj hlast).symm hbrace
      | some c =>
        rw [List.getLast?_cons, hkept'] at hlast
        cases hlast
        exact hkept _ hkept'
    rw [not_or] at hclosed
    refine ⟨.joined, .joined hinline hblank hlast ⟨hsolid, hclosed.1, hclosed.2, hbrace⟩,
      fun property => ?_⟩
    simp [inlineText, hlast, hclosed.1, hclosed.2, hbrace, Layout.piece, Layout.lead, Layout.set,
      String.ext_iff]

/-- Every body has a layout, and all members are inserted with it at one place. -/
theorem exists_layout (unit : String) (inside : List Char) :
    ∃ kept blanks layout, inside = kept ++ blanks ∧ Calls unit inside kept layout ∧
      ∀ (close : Nat) (property : String), inBody unit property ⟨close, inside⟩ =
        .insertion (close - byteLength blanks) (layout.piece property) := by
  by_cases hline : ∃ members closing, splitLastLine? inside = some (members, closing) ∧
      allBlank closing = true
  · obtain ⟨members, closing, hsplit, hblank⟩ := hline
    obtain ⟨before, rfl, rfl, hlast⟩ := splitLastLine?_parts hsplit
    refine ⟨before ++ ['\n'], closing, _, by simp, .ownLine hlast hblank,
      fun close property => ?_⟩
    simp [inBody, hsplit, hblank, Layout.piece, Layout.lead, Layout.set, String.append_assoc]
  · have hno : ∀ members closing, splitLastLine? inside = some (members, closing) →
        allBlank closing = false := by
      intro members closing hsplit
      rw [← Bool.not_eq_true]
      exact fun hblank => hline ⟨members, closing, hsplit, hblank⟩
    obtain ⟨hinside, hblank⟩ := trailingBlanks_spec inside
    obtain ⟨layout, hcalls, hpiece⟩ := inlineText_eq unit (hinside ▸ not_ownLine hno) hblank
      fun c => isBlank_of_getLast?_trimEnd
    rw [← hinside] at hcalls
    refine ⟨_, _, layout, hinside, hcalls, fun close property => ?_⟩
    rw [← hpiece property]
    cases hsplit : splitLastLine? inside with
    | none => simp only [inBody, hsplit]
    | some parts =>
      have hclosing := hno parts.1 parts.2 hsplit
      simp only [inBody, hsplit, hclosing, Bool.false_eq_true, if_false]

theorem not_mem_of_afterBrace? {head inside : List Char}
    (h : afterBrace? (head ++ '\x7b' :: inside) = some inside) : '\x7b' ∉ head := by
  induction head with
  | nil => simp
  | cons c head ih =>
    rw [List.cons_append, afterBrace?] at h
    split_ifs at h with hc
    · have hlength := congrArg List.length (Option.some.inj h)
      simp at hlength
      omega
    · simp [ih h, Ne.symm hc]

/-- The body of a range begins at the first opening brace. -/
theorem Parts.not_mem_head {cs lead head after : List Char} {start stop : Nat} {body : Body}
    (h : Parts cs start lead head body after) (hclose : body.close = stop - 1)
    (hbody : body? start stop cs = some body) : '\x7b' ∉ head := by
  have hlength := h.close_eq
  have hpos : stop ≠ 0 := by
    simp only [byteLength_append, byteLength_cons, brace_utf8Size] at hlength
    omega
  have hcut : cut? (stop - 1) cs = some (lead ++ head ++ '\x7b' :: body.inside, '\x7d' :: after) :=
    cut?_eq_some_iff.2 ⟨h.text_eq, by rw [hlength, hclose]⟩
  have hregion : cut? start (lead ++ head ++ '\x7b' :: body.inside) =
      some (lead, head ++ '\x7b' :: body.inside) :=
    cut?_eq_some_iff.2 ⟨by simp, h.start_eq⟩
  rw [body?_of_cut hpos hcut, hregion] at hbody
  obtain ⟨inside, hinside, hsame⟩ := Option.map_eq_some_iff.1 (by simpa using hbody)
  have hafter : afterBrace? (head ++ '\x7b' :: body.inside) = some body.inside := by
    rw [hinside, ← hsame]
  exact not_mem_of_afterBrace? hafter

/-- A member of a declaration with braces is inserted behind a front of the text that is the same
for all, and with the layout of the body. -/
theorem exists_places (unit : String) {text : String} {start stop : Nat}
    (h : Braced text start stop) :
    ∃ front rest layout, text = front ++ rest ∧ Places unit text start stop front layout ∧
      ∀ property, change? unit start stop property text.toList =
        some (.insertion front.utf8ByteSize (layout.piece property)) := by
  obtain ⟨body, hbody⟩ := h.exists_body?
  obtain ⟨hclose, lead, head, after, hparts⟩ := exists_parts hbody
  obtain ⟨kept, blanks, layout, hinside, hcalls, hinsert⟩ := exists_layout unit body.inside
  have htext : text.toList = (lead ++ head ++ '\x7b' :: kept) ++ (blanks ++ '\x7d' :: after) := by
    simp [hparts.text_eq, hinside]
  have hplace : body.close - byteLength blanks = byteLength (lead ++ head ++ '\x7b' :: kept) := by
    have hlength := hparts.close_eq
    rw [hinside] at hlength
    simp only [byteLength_append, byteLength_cons] at hlength ⊢
    omega
  refine ⟨String.ofList (lead ++ head ++ '\x7b' :: kept),
    String.ofList (blanks ++ '\x7d' :: after), layout, ?_,
    ⟨lead, head, body, after, kept, hparts, hparts.not_mem_head hclose hbody, hclose, hcalls,
      by simp⟩, fun property => ?_⟩
  · rw [← String.ofList_append, ← htext, String.ofList_toList]
  · rw [change?, hbody, Option.map_some, ← byteLength_toList, String.toList_ofList, ← hplace]
    exact congrArg some (hinsert body.close property)

/-! ## The members as one block -/

namespace Layout

/-- Behind a member that was inserted at the same place, an insertion writes the next one without
the lead. -/
theorem written_piece (layout : Layout) (place : Nat) (p q : String) :
    (TextChange.insertion place (layout.piece q)).written
        (some (.insertion place (layout.piece p))) = (layout.set q).toList := by
  rw [TextChange.written_eq]
  cases layout <;>
    simp [TextChange.insertion, TextChange.sharesSpace, TextChange.isInsertion, piece, lead, set,
      List.getLast?_cons]

theorem spliced_after (layout : Layout) (place : Nat) (p : String) (properties : List String)
    (rest : List Char) :
    TextChange.Spliced (some (.insertion place (layout.piece p))) place
      (properties.map fun q => .insertion place (layout.piece q)) rest
      ((String.join (properties.map layout.set)).toList ++ rest) := by
  induction properties generalizing p with
  | nil => simpa using TextChange.Spliced.rest _ _ _
  | cons q properties ih =>
    have hnext : TextChange.Spliced (some (.insertion place (layout.piece p))) place
        (.insertion place (layout.piece q) :: properties.map fun q =>
          .insertion place (layout.piece q)) ([] ++ [] ++ rest) _ :=
      .change rfl rfl (ih q)
    rw [written_piece] at hnext
    simpa using hnext

/-- Insertions of members at one place put a block there. -/
theorem spliced_block (layout : Layout) (front rest : String) {properties : List String}
    (hne : properties ≠ []) :
    TextChange.Spliced none 0
      (properties.map fun p => .insertion front.utf8ByteSize (layout.piece p))
      (front ++ rest).toList (front ++ layout.block properties ++ rest).toList := by
  obtain ⟨p, properties, rfl⟩ := List.exists_cons_of_ne_nil hne
  have hfirst : TextChange.Spliced none 0
      (.insertion front.utf8ByteSize (layout.piece p) :: properties.map fun q =>
        .insertion front.utf8ByteSize (layout.piece q)) (front.toList ++ [] ++ rest.toList) _ :=
    .change (by rw [Nat.zero_add, byteLength_toList]; rfl) rfl
      (layout.spliced_after front.utf8ByteSize p properties rest.toList)
  rw [← TextChange.toList_piece] at hfirst
  simpa [TextChange.piece, TextChange.insertion, block, piece, String.append_assoc] using hfirst

theorem block_ne_empty (layout : Layout) {properties : List String} (hne : properties ≠ []) :
    (layout.block properties).toList ≠ [] := by
  obtain ⟨p, properties, rfl⟩ := List.exists_cons_of_ne_nil hne
  cases layout <;> simp [block, lead, set]

end Layout

end Insertion

/-- An edit inserts a member into the declaration of a node. -/
def Edit.Inserts (ws : Workspace) (edit : Edit) (declaration : NodeId) (property : String) : Prop :=
  edit.other = some declaration ∧ edit.kind.signature? (ws.node edit.prime) = some property

instance (ws : Workspace) (edit : Edit) (declaration : NodeId) (property : String) :
    Decidable (edit.Inserts ws declaration property) :=
  inferInstanceAs (Decidable (_ ∧ _))

namespace Patch

open Insertion

variable {ws : Workspace} {options : Options} {file : String} {cs : List Char}

/-- Different changes that do not touch each other or what was accepted before are all accepted. -/
theorem foldl_add_of_changes {edits : List Edit} {changes : List TextChange}
    (h : List.Forall₂ (fun edit change => resolve ws options edit cs = .change change) edits
      changes) (selection : Selection) (hnodup : (selection.accepted ++ changes).Nodup)
    (hapart : (selection.accepted ++ changes).Pairwise fun a b => a.intersects b = false) :
    edits.foldl (fun selection edit => selection.add file edit (resolve ws options edit cs))
      selection = { selection with accepted := selection.accepted ++ changes } := by
  induction h generalizing selection with
  | nil => simp
  | @cons edit change edits changes hresolve _ ih =>
    have hfresh : change ∉ selection.accepted := by
      rw [List.nodup_append] at hnodup
      exact fun hmem => hnodup.2.2 change hmem change List.mem_cons_self rfl
    have hnone : selection.accepted.find? (fun earlier => earlier.intersects change) = none := by
      rw [List.pairwise_append] at hapart
      simpa using fun earlier hearlier => hapart.2.2 earlier hearlier change List.mem_cons_self
    have hadd : selection.add file edit (.change change) =
        { selection with accepted := selection.accepted ++ [change] } := by
      simp only [Selection.add, hfresh, hnone, if_false]
    rw [List.foldl_cons, hresolve, hadd, ih _ (by simpa using hnodup) (by simpa using hapart)]
    simp

theorem selectIn_of_changes {text : String} (htext : ws.fileText? file = some text)
    {edits : List Edit} {changes : List TextChange}
    (h : List.Forall₂ (fun edit change => resolve ws options edit text.toList = .change change)
      edits changes) (hnodup : changes.Nodup)
    (hapart : changes.Pairwise fun a b => a.intersects b = false) :
    selectIn ws options file edits = ⟨changes, []⟩ := by
  rw [selectIn, htext]
  exact foldl_add_of_changes h ⟨[], []⟩ hnodup hapart

/-- What is reported of the edits of a file names the file. -/
theorem Ledger.file_eq {edits : List Edit} {verdicts : List Verdict}
    (h : Ledger ws options file cs edits verdicts) :
    ∀ entry ∈ Verdict.entries verdicts, entry.file = file := by
  induction h with
  | nil => simp [Verdict.entries]
  | @snoc _ _ edit _ _ hjudged ih =>
    intro entry hentry
    rw [Verdict.entries_append, List.mem_append] at hentry
    rcases hentry with hentry | hentry
    · exact ih entry hentry
    · generalize resolve ws options edit cs = resolved at hjudged
      cases hjudged <;> simp_all [Verdict.entry?]

theorem file_eq_of_mem_unapplied {edits : List Edit} {entry : UnappliedEdit}
    (h : entry ∈ (selectIn ws options file edits).unapplied) : entry.file = file := by
  obtain ⟨verdicts, hledger, -, hunapplied⟩ :=
    select_ledger ws options file ((ws.fileText? file).getD "").toList edits
  rw [selectIn, hunapplied] at h
  exact hledger.file_eq entry h

/-- Members at one place come out in the order of their texts. -/
theorem inOrder_insertions (layout : Layout) (place : Nat) {properties : List String}
    (hdistinct : properties.Nodup) :
    ∃ sorted : List String, sorted.Perm properties ∧
      (sorted.map layout.piece).Pairwise BytesBefore ∧
      TextChange.inOrder (properties.map fun p => .insertion place (layout.piece p)) =
        sorted.map fun p => .insertion place (layout.piece p) := by
  let change (property : String) : TextChange := .insertion place (layout.piece property)
  let sorted := properties.mergeSort fun p q => (change p).atMost (change q)
  have hperm : sorted.Perm properties := List.mergeSort_perm _ _
  have horder : TextChange.inOrder (properties.map change) = sorted.map change :=
    (List.map_mergeSort (f := change) fun _ _ _ _ => rfl).symm
  refine ⟨sorted, hperm, ?_, horder⟩
  have hle := TextChange.inOrder_sorted (properties.map change)
  rw [horder, List.pairwise_map] at hle
  have hne : sorted.Nodup := hperm.nodup_iff.2 hdistinct
  rw [List.pairwise_map]
  refine (hle.and hne).imp fun {p q} ⟨hatMost, hdiffers⟩ => bytesBefore_of_lt ?_
  have htext : layout.piece p ≤ layout.piece q := by
    simpa [change, TextChange.insertion] using (TextChange.atMost_iff _ _).1 hatMost
  exact lt_of_le_of_ne htext fun heq => hdiffers (layout.piece_injective heq)

/-- Different members that are inserted at one place are all accepted, and the text gets a block
there. -/
theorem newText?_of_insertions {layout : Layout} {front rest : String}
    (htext : ws.fileText? file = some (front ++ rest)) {edits : List Edit}
    {properties : List String} (hsome : properties ≠ []) (hdistinct : properties.Nodup)
    (hresolve : List.Forall₂ (fun edit p => resolve ws options edit (front ++ rest).toList =
      .change (.insertion front.utf8ByteSize (layout.piece p))) edits properties) :
    (selectIn ws options file edits).unapplied = [] ∧
      ∃ sorted : List String, sorted.Perm properties ∧
        (sorted.map layout.piece).Pairwise BytesBefore ∧
        newText? ws options file edits = some (front ++ layout.block sorted ++ rest) := by
  let change (property : String) : TextChange :=
    .insertion front.utf8ByteSize (layout.piece property)
  have hnodup : (properties.map change).Nodup :=
    hdistinct.map fun p q heq => layout.piece_injective (congrArg TextChange.text heq)
  have hapart : (properties.map change).Pairwise fun a b => a.intersects b = false := by
    rw [List.pairwise_map]
    refine hdistinct.imp fun _ => ?_
    simp [change, TextChange.insertion, TextChange.intersects, TextChange.isInsertion]
  have hselect := selectIn_of_changes htext
    (List.forall₂_map_right_iff (f := change).2 hresolve) hnodup hapart
  obtain ⟨sorted, hperm, hsorted, horder⟩ :=
    inOrder_insertions layout front.utf8ByteSize hdistinct
  have hsome' : sorted ≠ [] := by
    rintro rfl
    exact hsome (List.nil_perm.1 hperm)
  have hspliced := TextChange.applySorted_of_spliced
    (layout.spliced_block front rest hsome') [] 0 (by simp)
  have happly : TextChange.applyAll? (front ++ rest) (properties.map change) =
      some (front ++ layout.block sorted ++ rest) := by
    change (TextChange.applySorted none 0 (TextChange.inOrder (properties.map change))
      (front ++ rest).toList).map String.ofList = _
    rw [horder, ← List.nil_append (front ++ rest).toList, hspliced, List.nil_append,
      Option.map_some, String.ofList_toList]
  have hgrown : front ++ layout.block sorted ++ rest ≠ front ++ rest := by
    intro heq
    have hlist := congrArg String.toList heq
    simp only [String.toList_append, List.append_assoc, List.append_cancel_left_eq] at hlist
    exact layout.block_ne_empty hsome' (List.append_left_eq_self.1 hlist)
  refine ⟨by rw [hselect], sorted, hperm, hsorted, ?_⟩
  rw [newText?, htext, hselect, Option.bind_some, happly, Option.bind_some, if_neg hgrown]

/-- Different members that are inserted into one declaration, and no other edit of its file, come
out as one block at the place where any member of the declaration goes. The layout depends on the
body of the declaration only; the members are in the order of the bytes of their texts, whatever
order they were chosen in; and nothing of the file is reported. -/
theorem members_form_block (pending : PendingEdits)
    (hloaded : ∀ file ∈ pending.keys, (ws.fileText? file).isSome) {text : String}
    (htext : ws.fileText? file = some text) {edits : List Edit}
    (hedits : pending.get? file = some edits) {declaration : NodeId} {properties : List String}
    (hinserts : List.Forall₂ (fun edit property => edit.Inserts ws declaration property) edits
      properties) (hsome : properties ≠ []) (hdistinct : properties.Nodup)
    {member : String} {change : TextChange}
    (hchange : insertMember options.indentUnit (ws.node declaration) member text.toList =
      .change change) :
    ∃ outcome front rest layout, ∃ sorted : List String,
      apply ws options pending = .ok outcome ∧
      text = front ++ rest ∧ front.utf8ByteSize = change.start ∧
      Places options.indentUnit text (ws.node declaration).start (ws.node declaration).stop front
        layout ∧
      (∀ property, insertMember options.indentUnit (ws.node declaration) property text.toList =
        .change (.insertion front.utf8ByteSize (layout.piece property))) ∧
      sorted.Perm properties ∧ (sorted.map layout.piece).Pairwise BytesBefore ∧
      outcome.files.get? file = some (front ++ layout.block sorted ++ rest) ∧
      ∀ entry ∈ outcome.unapplied, entry.file ≠ file := by
  have hbraced : Braced text (ws.node declaration).start (ws.node declaration).stop := by
    by_contra hnot
    rw [insertMember, ((change?_cases _ _ _ _ _).resolve_left fun h => hnot h.1).2] at hchange
    cases hchange
  obtain ⟨front, rest, layout, rfl, hplaces, hplace⟩ := exists_places options.indentUnit hbraced
  have hinsert (property : String) :
      insertMember options.indentUnit (ws.node declaration) property (front ++ rest).toList =
        .change (.insertion front.utf8ByteSize (layout.piece property)) := by
    rw [insertMember, hplace]
  have hstart : front.utf8ByteSize = change.start := by
    rw [hinsert] at hchange
    cases hchange
    rfl
  have hresolve : List.Forall₂ (fun edit p => resolve ws options edit (front ++ rest).toList =
      .change (.insertion front.utf8ByteSize (layout.piece p))) edits properties := by
    refine hinserts.imp fun edit property hinserted => ?_
    rw [resolve_of_signature? options hinserted.1 hinserted.2, hinsert]
  obtain ⟨hnone, sorted, hperm, hsorted, hnew⟩ :=
    newText?_of_insertions htext hsome hdistinct hresolve
  obtain ⟨outcome, happly, hreports, hfiles⟩ := apply_eq_ok ws options pending hloaded
  refine ⟨outcome, front, rest, layout, sorted, happly, rfl, hstart, hplaces, hinsert, hperm,
    hsorted, ?_, fun entry hentry heq => ?_⟩
  · rw [hfiles, if_pos (Table.mem_keys_iff.2 ⟨edits, hedits⟩), PendingEdits.of_eq hedits, hnew]
  · rw [hreports, List.mem_flatMap] at hentry
    obtain ⟨other, hother, hentry⟩ := hentry
    have hfile := file_eq_of_mem_unapplied hentry
    rw [heq] at hfile
    subst hfile
    rw [PendingEdits.of_eq hedits, hnone] at hentry
    cases hentry

/-- An empty declaration whose name has characters of two bytes, and two members for it. -/
def emptyBody : Workspace :=
  { (∅ : Workspace) with
    nodes :=
      #[⟨"a.ts", 0, 20, "Größe", "Größe", "Declaration", false, false, none⟩,
        ⟨"b.ts", 0, 1, "c", "Ω", "Identifier", false, false, none⟩,
        ⟨"b.ts", 2, 3, "b", "T", "Identifier", false, false, none⟩]
    files := .ofList [("a.ts", ⟨"interface Größe \x7b\x7d", []⟩), ("b.ts", ⟨"c b", []⟩)] }

/-- The later member in order first, and an edit of another file that is refused. -/
def emptyBodyEdits : PendingEdits :=
  .ofList [("b.ts", [⟨.unionType, 1, none⟩]),
    ("a.ts", [⟨.insertProperty, 1, some 0⟩, ⟨.insertOptionalProperty, 2, some 0⟩])]

theorem members_form_block_emptyBody :
    (∀ file ∈ emptyBodyEdits.keys, (emptyBody.fileText? file).isSome) ∧
      insertMember Options.default.indentUnit (emptyBody.node 0) "c: Ω"
          "interface Größe \x7b\x7d".toList = .change (.insertion 19 " c: Ω; ") ∧
      ∃ outcome, apply emptyBody .default emptyBodyEdits = .ok outcome ∧
        outcome.files.get? "a.ts" = some "interface Größe \x7b b?: T; c: Ω; \x7d" ∧
        ∀ entry ∈ outcome.unapplied, entry.file ≠ "a.ts" := by
  have hloaded : ∀ file ∈ emptyBodyEdits.keys, (emptyBody.fileText? file).isSome := by decide
  have hchange : insertMember Options.default.indentUnit (emptyBody.node 0) "c: Ω"
      "interface Größe \x7b\x7d".toList = .change (.insertion 19 " c: Ω; ") := by
    decide +kernel
  have htext : emptyBody.fileText? "a.ts" = some "interface Größe \x7b\x7d" := rfl
  have hedits : emptyBodyEdits.get? "a.ts" = some
      [⟨.insertProperty, 1, some 0⟩, ⟨.insertOptionalProperty, 2, some 0⟩] := rfl
  have hinserts : List.Forall₂ (fun edit property => Edit.Inserts emptyBody edit 0 property)
      [⟨.insertProperty, 1, some 0⟩, ⟨.insertOptionalProperty, 2, some 0⟩] ["c: Ω", "b?: T"] :=
    .cons (by decide) (.cons (by decide) .nil)
  obtain ⟨outcome, front, rest, layout, sorted, happly, hsplit, hstart, -, hinsert, hperm, hsorted,
    hnew, hentries⟩ := members_form_block emptyBodyEdits hloaded htext hedits hinserts (by decide)
      (by decide) hchange
  refine ⟨hloaded, hchange, outcome, happly, ?_, hentries⟩
  have hlayout : layout = .between := by
    have hpiece : layout.piece "c: Ω" = " c: Ω; " := by
      have h := (hinsert "c: Ω").symm.trans hchange
      injection h with h
      injection h
    cases layout with
    | between => rfl
    | ownLine indent =>
      have hlast := congrArg (fun s => s.toList.getLast?) hpiece
      simp [Layout.piece, Layout.lead, Layout.set] at hlast
    | separated =>
      have hlast := congrArg (fun s => s.toList.getLast?) hpiece
      simp [Layout.piece, Layout.lead, Layout.set] at hlast
    | joined =>
      have hlast := congrArg (fun s => s.toList.head?) hpiece
      simp [Layout.piece, Layout.lead, Layout.set] at hlast
  subst hlayout
  have hfront : front = "interface Größe \x7b" ∧ rest = "\x7d" := by
    have hcut : cut? 19 "interface Größe \x7b\x7d".toList = some (front.toList, rest.toList) := by
      rw [cut?_eq_some_iff, byteLength_toList, ← String.toList_append, ← hsplit]
      exact ⟨rfl, hstart⟩
    have hdecided : cut? 19 "interface Größe \x7b\x7d".toList =
        some ("interface Größe \x7b".toList, "\x7d".toList) := by
      decide +kernel
    obtain ⟨hfront, hrest⟩ := Prod.mk.inj (Option.some.inj (hcut.symm.trans hdecided))
    exact ⟨String.toList_inj.1 hfront, String.toList_inj.1 hrest⟩
  have hsorted' : sorted = ["b?: T", "c: Ω"] := by
    rcases List.perm_pair.1 hperm with rfl | rfl
    · exact absurd hsorted (by decide +kernel)
    · rfl
  rw [hnew, hfront.1, hfront.2, hsorted']
  decide +kernel

end Patch

end TypeMend
