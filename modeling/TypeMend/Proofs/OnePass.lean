import TypeMend.Proofs.Bytes

/-!
# Changes in one pass over the bytes

Applying changes edits a buffer in place, each at a position that is shifted by what was written
before. For changes that fit a text and do not touch each other there is a simpler account that
knows no buffer and no characters: sort the changes, walk once over the bytes of the text as it was,
copy what lies between two changes and put the text of each change where its range was. What comes
out is that, byte for byte. It does not depend on the order in which the changes are listed, and it
is the UTF-8 form of a text again, although the pass never looks at a character.
-/
namespace TypeMend.TextChange

open Text

/-- The order of the pass: by start, then by stop, then by text. -/
def Precedes (a b : TextChange) : Prop :=
  a.start < b.start ∨ a.start = b.start ∧ (a.stop < b.stop ∨ a.stop = b.stop ∧ a.text ≤ b.text)

/-- Two insertions at one offset, the first of which ends with a space. -/
def SpacesBefore (earlier change : TextChange) : Prop :=
  earlier.start = earlier.stop ∧ change.start = change.stop ∧ earlier.start = change.start ∧
    earlier.text.toList.getLast? = some ' '

instance (earlier change : TextChange) : Decidable (earlier.SpacesBefore change) :=
  inferInstanceAs (Decidable (_ ∧ _ ∧ _ ∧ _))

/-- What a change puts where its range was, directly after another in order: its text, without one
leading space if the other has put a space there. -/
def piece (previous : Option TextChange) (change : TextChange) : String :=
  match previous with
  | none => change.text
  | some earlier =>
    if earlier.SpacesBefore change ∧ change.text.toList.head? = some ' ' then
      String.ofList change.text.toList.tail
    else change.text

/-- The pass over the bytes of a text from an offset on. -/
def onePass (original : ByteArray) : Option TextChange → Nat → List TextChange → ByteArray
  | _, pos, [] => original.extract pos original.size
  | previous, pos, change :: rest =>
    original.extract pos change.start ++ (piece previous change).toByteArray ++
      onePass original (some change) change.stop rest

/-! ## The pass is the splice -/

theorem fits_iff_isValid (change : TextChange) (text : String) :
    change.fits text.toList = true ↔ change.start ≤ change.stop ∧
      (⟨change.start⟩ : String.Pos.Raw).IsValid text ∧
      (⟨change.stop⟩ : String.Pos.Raw).IsValid text := by
  rw [fits_iff, isBoundary_iff_isValid, isBoundary_iff_isValid]

theorem written_eq (previous : Option TextChange) (change : TextChange) :
    change.written previous =
      if sharesSpace previous change = true ∧ change.text.toList.head? = some ' ' then
        change.text.toList.tail
      else change.text.toList := by
  unfold written
  split
  · next rest htext => simp [htext]
  · next hother =>
    have hhead : change.text.toList.head? ≠ some ' ' := by
      intro h
      obtain ⟨rest, hrest⟩ := List.head?_eq_some_iff.1 h
      exact hother rest hrest
    simp [hhead]

theorem toList_piece (previous : Option TextChange) (change : TextChange) :
    (piece previous change).toList = change.written previous := by
  rw [written_eq]
  cases previous with
  | none => simp [piece, sharesSpace]
  | some earlier =>
    have hshares : sharesSpace (some earlier) change = true ↔ earlier.SpacesBefore change := by
      simp [sharesSpace, SpacesBefore, isInsertion, and_assoc]
    simp only [piece, hshares]
    split_ifs
    · exact String.toList_ofList
    · rfl

/-- Where a splice of the rest of a text stands behind its front, the pass from there makes it. -/
theorem Spliced.onePass_eq {previous : Option TextChange} {pos : Nat} {changes : List TextChange}
    {old new : List Char} (h : Spliced previous pos changes old new) (front : List Char)
    (hfront : byteLength front = pos) :
    onePass (front ++ old).utf8Encode previous pos changes = new.utf8Encode := by
  induction h generalizing front with
  | rest previous pos cs =>
    have hrest := extract_utf8Encode front cs []
    rw [List.append_nil, hfront] at hrest
    rw [onePass, size_utf8Encode, byteLength_append, hfront, hrest]
  | @change previous pos change changes gap replaced old new hstart hstop _ ih =>
    have hgap := extract_utf8Encode front gap (replaced ++ old)
    rw [hfront, hstart, ← List.append_assoc] at hgap
    have hrest := ih (front ++ gap ++ replaced) (by simp only [byteLength_append]; omega)
    have htext : front ++ (gap ++ replaced ++ old) = front ++ gap ++ replaced ++ old := by simp
    rw [onePass, htext, hgap, hrest, ← String.utf8Encode_toList, toList_piece,
      List.utf8Encode_append, List.utf8Encode_append]

/-- What a splice makes of a text is, byte for byte, what the pass makes of it. -/
theorem Spliced.toByteArray_eq {changes : List TextChange} {text : String} {cs : List Char}
    (h : Spliced none 0 changes text.toList cs) :
    (String.ofList cs).toByteArray = onePass text.toByteArray none 0 changes := by
  have hpass := h.onePass_eq [] rfl
  rw [List.nil_append, String.utf8Encode_toList] at hpass
  rw [hpass, String.toByteArray_ofList]

theorem inOrder_pairwise (changes : List TextChange) : (inOrder changes).Pairwise Precedes :=
  (inOrder_sorted changes).imp fun h => (atMost_iff _ _).1 h

/-- There is one way to put changes in order. -/
theorem eq_inOrder {sorted changes : List TextChange} (hperm : sorted.Perm changes)
    (hsorted : sorted.Pairwise Precedes) : sorted = inOrder changes :=
  (hperm.trans (inOrder_perm changes).symm).eq_of_pairwise
    (fun a b _ _ => atMost_antisymm a b) (hsorted.imp fun h => (atMost_iff _ _).2 h)
    (inOrder_sorted changes)

/-- Changes that fit a text and do not touch each other are always applied, and the new text is,
byte for byte, what one pass over the text makes of them in order. It is the same for every order
in which they are listed. -/
theorem applyAll?_eq_onePass {text : String} {changes : List TextChange}
    (hfits : ∀ change ∈ changes, change.start ≤ change.stop ∧
      (⟨change.start⟩ : String.Pos.Raw).IsValid text ∧
      (⟨change.stop⟩ : String.Pos.Raw).IsValid text)
    (hdisjoint : changes.Pairwise fun a b => a.intersects b = false) :
    ∃ new sorted, sorted.Perm changes ∧ sorted.Pairwise Precedes ∧
      applyAll? text changes = some new ∧
      new.toByteArray = onePass text.toByteArray none 0 sorted ∧
      (onePass text.toByteArray none 0 sorted).IsValidUTF8 ∧
      ∀ changes' : List TextChange, changes'.Perm changes → applyAll? text changes' = some new := by
  obtain ⟨cs, hspliced, happly⟩ := applyAll?_eq_some
    (fun change hchange => (fits_iff_isValid change text).2 (hfits change hchange)) hdisjoint
  have hbytes := hspliced.toByteArray_eq
  refine ⟨String.ofList cs, inOrder changes, inOrder_perm changes, inOrder_pairwise changes, happly,
    hbytes, hbytes ▸ (String.ofList cs).isValidUTF8, fun changes' hperm => ?_⟩
  have horder : changes'.mergeSort atMost = changes.mergeSort atMost := inOrder_eq_of_perm hperm
  rw [← happly, applyAll?, applyAll?, horder]

/-- An empty declaration, whose name has characters of two bytes. -/
def wideName : String :=
  "interface Größe \x7b\x7d"

/-- A new name for the declaration between two members for it, the later one in order first. -/
def wideNameChanges : List TextChange :=
  [.insertion 19 " b?: Ω; ", ⟨10, 17, "Maß"⟩, .insertion 19 " a?: T; "]

theorem applyAll?_eq_onePass_wideName :
    (∀ change ∈ wideNameChanges, change.start ≤ change.stop ∧
        (⟨change.start⟩ : String.Pos.Raw).IsValid wideName ∧
        (⟨change.stop⟩ : String.Pos.Raw).IsValid wideName) ∧
      (wideNameChanges.Pairwise fun a b => a.intersects b = false) ∧
      ∃ sorted, sorted.Perm wideNameChanges ∧ sorted.Pairwise Precedes ∧
        "interface Maß \x7b a?: T; b?: Ω; \x7d".toByteArray =
          onePass wideName.toByteArray none 0 sorted ∧
        applyAll? wideName wideNameChanges.reverse =
          some "interface Maß \x7b a?: T; b?: Ω; \x7d" := by
  have hfits : ∀ change ∈ wideNameChanges, change.start ≤ change.stop ∧
      (⟨change.start⟩ : String.Pos.Raw).IsValid wideName ∧
      (⟨change.stop⟩ : String.Pos.Raw).IsValid wideName := by decide +kernel
  have hdisjoint : wideNameChanges.Pairwise fun a b => a.intersects b = false := by decide
  have horder : wideNameChanges.mergeSort atMost =
      [⟨10, 17, "Maß"⟩, .insertion 19 " a?: T; ", .insertion 19 " b?: Ω; "] :=
    ((inOrder_perm wideNameChanges).trans (by decide)).eq_of_pairwise
      (fun a b _ _ => atMost_antisymm a b) (inOrder_sorted wideNameChanges) (by decide)
  have htext : applyAll? wideName wideNameChanges =
      some "interface Maß \x7b a?: T; b?: Ω; \x7d" := by
    rw [applyAll?, horder]
    decide +kernel
  obtain ⟨new, sorted, hperm, hsorted, happly, hbytes, -, hany⟩ :=
    applyAll?_eq_onePass hfits hdisjoint
  rw [htext] at happly
  cases happly
  exact ⟨hfits, hdisjoint, sorted, hperm, hsorted, hbytes, hany _ (List.reverse_perm _)⟩

end TypeMend.TextChange
