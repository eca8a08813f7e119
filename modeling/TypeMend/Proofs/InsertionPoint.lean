import TypeMend.Patch
import TypeMend.Proofs.Bytes
import TypeMend.Proofs.Slicing

/-!
# Where a member is inserted

A member can be inserted into a declaration exactly if the last byte of its range is a closing brace
and an opening one stands before it, whatever else the range holds: other braces, lines that end in
either way, characters of several bytes. The member is then put behind everything that stands
between the braces but blanks, so that the insertion fits the text and is never out of bounds. An
edit of a declaration without such braces is reported with the range of the declaration.
-/
namespace TypeMend

open Text

namespace Insertion

/-- A range that ends with a closing brace and has an opening one before it, in bytes of a text. -/
structure Braced (text : String) (start stop : Nat) : Prop where
  start_valid : (⟨start⟩ : String.Pos.Raw).IsValid text
  closed : byteAt? text (stop - 1) = some '\x7d'.toUInt8
  opened : ∃ opening, start ≤ opening ∧ opening < stop - 1 ∧
    byteAt? text opening = some '\x7b'.toUInt8

/-- A change that puts a member between the braces of a range, behind all but blanks. -/
structure Lands (text : String) (start stop : Nat) (property : String) (change : TextChange) :
    Prop where
  stop_eq : change.stop = change.start
  start_lt : start < change.start
  le_close : change.start ≤ stop - 1
  boundary : (⟨change.start⟩ : String.Pos.Raw).IsValid text
  opened : ∃ opening, start ≤ opening ∧ opening < change.start ∧
    byteAt? text opening = some '\x7b'.toUInt8
  blank : ∃ blanks, allBlank blanks = true ∧
    text.toByteArray.extract change.start (stop - 1) = blanks.utf8Encode
  written : ∃ before after, change.text = before ++ property ++ after

/-! ## The braces of a range -/

theorem exists_afterBrace? {cs : List Char} (h : '\x7b' ∈ cs) :
    ∃ inside, afterBrace? cs = some inside := by
  induction cs with
  | nil => cases h
  | cons c cs ih =>
    rw [afterBrace?]
    split_ifs with hc
    · exact ⟨cs, rfl⟩
    · exact ih ((List.mem_cons.1 h).resolve_left fun heq => hc heq.symm)

/-- The parts of a text around the inside of a declaration. `front` ends at the start of the
range, and `head` stands between that and the first opening brace. -/
structure Parts (cs : List Char) (start : Nat) (front head : List Char) (body : Body)
    (after : List Char) : Prop where
  text_eq : cs = front ++ head ++ '\x7b' :: body.inside ++ '\x7d' :: after
  start_eq : byteLength front = start
  close_eq : byteLength (front ++ head ++ '\x7b' :: body.inside) = body.close

theorem exists_parts {cs : List Char} {start stop : Nat} {body : Body}
    (h : body? start stop cs = some body) :
    body.close = stop - 1 ∧ ∃ front head after, Parts cs start front head body after := by
  by_cases hpos : stop = 0
  · simp [body?, hpos] at h
  cases hcut : cut? (stop - 1) cs with
  | none => simp [body?, hcut] at h
  | some parts =>
    obtain ⟨before, after⟩ := parts
    rw [body?_of_cut hpos hcut] at h
    split_ifs at h with hbrace
    obtain ⟨inside, hinside, rfl⟩ := Option.map_eq_some_iff.1 h
    obtain ⟨⟨front, region⟩, hstart, hafter⟩ := Option.bind_eq_some_iff.1 hinside
    obtain ⟨head, hregion, -⟩ := afterBrace?_eq_some hafter
    obtain ⟨rest, rfl⟩ := List.head?_eq_some_iff.1 hbrace
    obtain ⟨rfl, hclose⟩ := cut?_eq_some_iff.1 hcut
    obtain ⟨rfl, hfront⟩ := cut?_eq_some_iff.1 hstart
    dsimp only at hregion
    subst hregion
    exact ⟨rfl, front, head, rest, by simp, hfront, by simpa using hclose⟩

/-- A range with braces has an inside. -/
theorem Braced.exists_body? {text : String} {start stop : Nat} (h : Braced text start stop) :
    ∃ body, body? start stop text.toList = some body := by
  obtain ⟨opening, hle, hlt, hopening⟩ := h.opened
  obtain ⟨before, after, hbefore, hclose⟩ := (byteAt?_eq_some_iff rfl).1 h.closed
  obtain ⟨front, rest, hfront, hstart⟩ := isBoundary_iff.1 (isBoundary_iff_isValid.2 h.start_valid)
  obtain ⟨upto, beyond, hupto, hlength⟩ := (byteAt?_eq_some_iff rfl).1 hopening
  -- The front of the text, what stands before the opening brace and what stands before the closing
  -- one are each part of the next.
  obtain ⟨head, rfl, -⟩ := append_split (hfront.symm.trans hupto) (by omega)
  obtain ⟨mid, rfl, hmid⟩ := append_split (hupto.symm.trans hbefore) (by omega)
  have hne : mid ≠ [] := by
    rintro rfl
    rw [List.append_nil] at hclose
    omega
  obtain ⟨c, inside, rfl⟩ := List.exists_cons_of_ne_nil hne
  have hc : c = '\x7b' := by
    rw [List.cons_append, List.cons.injEq] at hmid
    exact hmid.1.symm
  subst hc
  have hbrace : '\x7b' ∈ head ++ '\x7b' :: inside := by simp
  obtain ⟨found, hfound⟩ := exists_afterBrace? hbrace
  have hcut : cut? (stop - 1) text.toList = some (front ++ head ++ '\x7b' :: inside,
      '\x7d' :: after) := cut?_eq_some_iff.2 ⟨hbefore, hclose⟩
  have hregion : cut? start (front ++ head ++ '\x7b' :: inside) =
      some (front, head ++ '\x7b' :: inside) := cut?_eq_some_iff.2 ⟨by simp, hstart⟩
  refine ⟨⟨stop - 1, found⟩, ?_⟩
  rw [body?_of_cut (by omega) hcut, hregion]
  simp [hfound]

theorem Parts.braced {text : String} {start stop : Nat} {front head after : List Char}
    {body : Body} (h : Parts text.toList start front head body after)
    (hclose : body.close = stop - 1) : Braced text start stop where
  start_valid := isBoundary_iff_isValid.1
    (isBoundary_iff.2 ⟨front, head ++ '\x7b' :: body.inside ++ '\x7d' :: after, by simp [h.text_eq],
      h.start_eq⟩)
  closed := (byteAt?_eq_some_iff rfl).2 ⟨_, after, h.text_eq, h.close_eq.trans hclose⟩
  opened := by
    have hlength := h.close_eq.trans hclose
    refine ⟨byteLength (front ++ head), ?_, ?_, (byteAt?_eq_some_iff rfl).2
      ⟨_, body.inside ++ '\x7d' :: after, by simp [h.text_eq], rfl⟩⟩
    · rw [byteLength_append, h.start_eq]
      exact Nat.le_add_right _ _
    · rw [byteLength_append, byteLength_cons, brace_utf8Size] at hlength
      omega

/-! ## The place of a member -/

theorem exists_inlineText (before : List Char) (touching : Bool) (property : List Char) :
    ∃ left right, inlineText before touching property = left ++ property ++ right := by
  unfold inlineText
  split
  · exact ⟨[' '], [';'], rfl⟩
  · exact ⟨[' '], [';'], rfl⟩
  · split_ifs
    · exact ⟨[' '], [';', ' '], rfl⟩
    · exact ⟨[' '], [';'], rfl⟩
  · exact ⟨[';', ' '], [], by simp⟩

/-- A member is put behind all that stands inside a declaration but blanks. -/
theorem inBody_spec (unit property : String) (body : Body) :
    ∃ kept blanks left right, body.inside = kept ++ blanks ∧ allBlank blanks = true ∧
      inBody unit property body = .insertion (body.close - byteLength blanks)
        (String.ofList (left ++ property.toList ++ right)) := by
  have hinline : ∃ left right, inlineText ('\x7b' :: trimEnd body.inside)
      (trailingBlanks body.inside).isEmpty property.toList = left ++ property.toList ++ right :=
    exists_inlineText _ _ _
  obtain ⟨left, right, hinline⟩ := hinline
  obtain ⟨hinside, hblank⟩ := trailingBlanks_spec body.inside
  cases hsplit : splitLastLine? body.inside with
  | none =>
    refine ⟨_, _, left, right, hinside, hblank, ?_⟩
    simp only [inBody, hsplit, hinline]
  | some parts =>
    obtain ⟨members, closing⟩ := parts
    obtain ⟨hparts, -⟩ := splitLastLine?_eq_some hsplit
    by_cases hclosing : allBlank closing = true
    · refine ⟨members, closing, memberIndent unit members closing, [';', '\n'], hparts,
        hclosing, ?_⟩
      simp only [inBody, hsplit, hclosing, if_true]
    · refine ⟨_, _, left, right, hinside, hblank, ?_⟩
      simp only [inBody, hsplit, hclosing, hinline]
      rfl

theorem Parts.lands {text : String} {start stop : Nat} {front head after : List Char} {body : Body}
    (h : Parts text.toList start front head body after) (hclose : body.close = stop - 1)
    (unit property : String) : Lands text start stop property (inBody unit property body) := by
  obtain ⟨kept, blanks, left, right, hinside, hblank, heq⟩ := inBody_spec unit property body
  have htext : text.toList =
      (front ++ head ++ '\x7b' :: kept) ++ blanks ++ '\x7d' :: after := by
    simp [h.text_eq, hinside]
  have hlength : byteLength (front ++ head ++ '\x7b' :: kept) + byteLength blanks = stop - 1 := by
    rw [← byteLength_append, ← hclose, ← h.close_eq, hinside]
    simp
  have hplace : body.close - byteLength blanks =
      byteLength (front ++ head ++ '\x7b' :: kept) := by
    omega
  have hopening : byteLength (front ++ head) < byteLength (front ++ head ++ '\x7b' :: kept) := by
    simp [brace_utf8Size]
  have hstart : start ≤ byteLength (front ++ head) := by
    rw [byteLength_append, h.start_eq]
    exact Nat.le_add_right _ _
  rw [heq, hplace]
  constructor
  · rfl
  · exact hstart.trans_lt hopening
  · change byteLength (front ++ head ++ '\x7b' :: kept) ≤ stop - 1
    omega
  · exact isBoundary_iff_isValid.1 (isBoundary_iff.2 ⟨_, blanks ++ '\x7d' :: after,
      by simp [htext], rfl⟩)
  · exact ⟨_, hstart, hopening, (byteAt?_eq_some_iff rfl).2
      ⟨_, body.inside ++ '\x7d' :: after, by simp [h.text_eq], rfl⟩⟩
  · refine ⟨blanks, hblank, ?_⟩
    rw [← String.utf8Encode_toList, htext, ← hlength]
    exact extract_utf8Encode _ _ _
  · refine ⟨String.ofList left, String.ofList right, ?_⟩
    simp [TextChange.insertion, String.append_assoc]

/-- An insertion that lands in a declaration fits the text. -/
theorem Lands.fits {text : String} {start stop : Nat} {property : String} {change : TextChange}
    (h : Lands text start stop property change) : change.fits text.toList = true := by
  rw [TextChange.fits_iff, h.stop_eq, isBoundary_iff_isValid]
  exact ⟨le_rfl, h.boundary, h.boundary⟩

/-- A member is inserted exactly into a range with braces, and lands between them. -/
theorem change?_cases (unit : String) (start stop : Nat) (property text : String) :
    (Braced text start stop ∧ ∃ change, change? unit start stop property text.toList = some change ∧
        Lands text start stop property change) ∨
      (¬Braced text start stop ∧ change? unit start stop property text.toList = none) := by
  rw [change?]
  cases hbody : body? start stop text.toList with
  | none =>
    refine .inr ⟨fun hbraced => ?_, rfl⟩
    obtain ⟨body, hsome⟩ := hbraced.exists_body?
    rw [hbody] at hsome
    cases hsome
  | some body =>
    obtain ⟨hclose, front, head, after, hparts⟩ := exists_parts hbody
    exact .inl ⟨hparts.braced hclose, _, rfl, hparts.lands hclose unit property⟩

end Insertion

/-- The member that an edit inserts, as it is written. -/
def EditKind.signature? (kind : EditKind) (prime : Node) : Option String :=
  match kind with
  | insertProperty => some s!"{prime.text}: {prime.typeText}"
  | insertOptionalProperty => some s!"{prime.text}?: {prime.typeText}"
  | convertType | unionType | makeOptional => none

namespace Patch

open Insertion

theorem propose_of_signature? (options : Options) {kind : EditKind} {prime : Node}
    {signature : String} (h : kind.signature? prime = some signature) (declaration : Node)
    (cs : List Char) :
    propose options kind prime (some declaration) cs =
      insertMember options.indentUnit declaration signature cs := by
  cases kind <;> cases h <;> rfl

/-- The bounds of a text are never in the way of an insertion. -/
theorem confine_insertMember (unit property text : String) (declaration : Node) :
    confine text.toList (insertMember unit declaration property text.toList) =
      insertMember unit declaration property text.toList := by
  rw [insertMember]
  obtain ⟨-, change, hchange, hlands⟩ | ⟨-, hnone⟩ :=
    change?_cases unit declaration.start declaration.stop property text
  · rw [hchange]
    exact if_pos hlands.fits
  · rw [hnone]
    rfl

theorem resolve_of_signature? {ws : Workspace} (options : Options) {edit : Edit} {id : NodeId}
    (hother : edit.other = some id) {signature : String}
    (hsignature : edit.kind.signature? (ws.node edit.prime) = some signature) (text : String) :
    resolve ws options edit text.toList =
      insertMember options.indentUnit (ws.node id) signature text.toList := by
  rw [resolve, hother, Option.map_some, propose_of_signature? options hsignature,
    confine_insertMember]

/-- A member can be inserted exactly into a declaration with braces. It then lands between them,
behind all but blanks. For an edit this is what it comes to, since the bounds of the text are not in
the way; if the declaration has no braces, the edit is reported with the declaration's range. -/
theorem insertion_lands_before_brace (unit property text : String) (declaration : Node) :
    ((∃ change, insertMember unit declaration property text.toList = .change change) ↔
      Braced text declaration.start declaration.stop) ∧
    (∀ change, insertMember unit declaration property text.toList = .change change →
      Lands text declaration.start declaration.stop property change) ∧
    ∀ (ws : Workspace) (options : Options) (edit : Edit) (id : NodeId),
      options.indentUnit = unit → edit.other = some id → ws.node id = declaration →
      edit.kind.signature? (ws.node edit.prime) = some property →
      resolve ws options edit text.toList =
        insertMember unit declaration property text.toList ∧
      (¬Braced text declaration.start declaration.stop →
        resolve ws options edit text.toList =
          .refused .noInsertionPoint declaration.start declaration.stop ∧
        ∀ (file : String) (selection : Selection),
          selection.add file edit (resolve ws options edit text.toList) =
            { selection with
              unapplied := selection.unapplied ++
                [⟨file, edit.kind, declaration.start, declaration.stop, "",
                  .noInsertionPoint⟩] }) := by
  obtain ⟨hbraced, change, hchange, hlands⟩ | ⟨hnot, hnone⟩ :=
    change?_cases unit declaration.start declaration.stop property text
  · have hinsert : insertMember unit declaration property text.toList = .change change := by
      rw [insertMember, hchange]
    refine ⟨⟨fun _ => hbraced, fun _ => ⟨change, hinsert⟩⟩, fun other hother => ?_, ?_⟩
    · rw [hinsert] at hother
      cases hother
      exact hlands
    · rintro ws options edit id rfl hother rfl hsignature
      exact ⟨resolve_of_signature? options hother hsignature text, fun hnot => absurd hbraced hnot⟩
  · have hinsert : insertMember unit declaration property text.toList =
        .refused .noInsertionPoint declaration.start declaration.stop := by
      rw [insertMember, hnone]
    refine ⟨⟨?_, fun hbraced => absurd hbraced hnot⟩, ?_, ?_⟩
    · rintro ⟨change, hchange⟩
      rw [hinsert] at hchange
      cases hchange
    · intro change hchange
      rw [hinsert] at hchange
      cases hchange
    · rintro ws options edit id rfl hother rfl hsignature
      have hresolve := resolve_of_signature? options hother hsignature text
      refine ⟨hresolve, fun _ => ⟨hresolve.trans hinsert, fun file selection => ?_⟩⟩
      rw [hresolve, hinsert]
      rfl

/-- A declaration with characters of two bytes, braces inside braces and line ends of two
characters. -/
def nestedBraces : String :=
  "interface Größe \x7b\r\n  a: \x7b ö: T \x7d;\r\n\x7d"

/-- The node of a declaration up to an offset. -/
def declarationUpTo (stop : Nat) : Node :=
  ⟨"a.ts", 0, stop, "Größe", "Größe", "Declaration", false, false, none⟩

theorem insertion_lands_before_brace_nested :
    Braced nestedBraces 0 39 ∧
      insertMember "  " (declarationUpTo 39) "c?: Ω" nestedBraces.toList =
        .change (.insertion 38 "  c?: Ω;\n") ∧
      Lands nestedBraces 0 39 "c?: Ω" (.insertion 38 "  c?: Ω;\n") ∧
      ¬Braced nestedBraces 0 38 := by
  have hlast : insertMember "  " (declarationUpTo 39) "c?: Ω" nestedBraces.toList =
      .change (.insertion 38 "  c?: Ω;\n") := by
    decide +kernel
  have hearlier : insertMember "  " (declarationUpTo 38) "c?: Ω" nestedBraces.toList =
      .refused .noInsertionPoint 0 38 := by
    decide +kernel
  obtain ⟨hiff, hlands, -⟩ :=
    insertion_lands_before_brace "  " "c?: Ω" nestedBraces (declarationUpTo 39)
  obtain ⟨hiff', -⟩ :=
    insertion_lands_before_brace "  " "c?: Ω" nestedBraces (declarationUpTo 38)
  refine ⟨hiff.1 ⟨_, hlast⟩, hlast, hlands _ hlast, fun hbraced => ?_⟩
  obtain ⟨change, hchange⟩ := hiff'.2 hbraced
  rw [hearlier] at hchange
  cases hchange

end Patch

end TypeMend
