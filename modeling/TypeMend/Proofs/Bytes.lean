import Mathlib.Tactic
import TypeMend.Proofs.Splice

/-!
# Texts as bytes

A text is handled as its list of characters, and an offset counts the bytes of the characters
before it. Here both are tied to the UTF-8 form of the text: the places at which a text can be cut
are the character boundaries of its bytes, and a character of one byte stands exactly where that
byte does, since no byte of a longer character is below 128.
-/
namespace TypeMend.Text

open String (utf8EncodeChar)

theorem length_flatMap_utf8EncodeChar (cs : List Char) :
    (cs.flatMap utf8EncodeChar).length = byteLength cs := by
  induction cs with
  | nil => rfl
  | cons c cs ih =>
    rw [List.flatMap_cons, List.length_append, ih, String.length_utf8EncodeChar, byteLength_cons]

theorem size_utf8Encode (cs : List Char) : cs.utf8Encode.size = byteLength cs := by
  rw [List.utf8Encode, List.size_toByteArray, length_flatMap_utf8EncodeChar]

theorem byteLength_toList (text : String) : byteLength text.toList = text.utf8ByteSize := by
  rw [← size_utf8Encode, String.utf8Encode_toList, String.size_toByteArray]

/-- A text can be cut exactly at its character boundaries. -/
theorem isBoundary_iff_isValid {n : Nat} {text : String} :
    isBoundary n text.toList = true ↔ (⟨n⟩ : String.Pos.Raw).IsValid text := by
  rw [isBoundary_iff, String.Pos.Raw.isValid_iff_exists_append]
  constructor
  · rintro ⟨front, rest, htext, hlength⟩
    refine ⟨String.ofList front, String.ofList rest, ?_, ?_⟩
    · rw [← String.ofList_append, ← htext, String.ofList_toList]
    · rw [← hlength, String.Pos.Raw.ext_iff, String.byteIdx_rawEndPos, ← byteLength_toList,
        String.toList_ofList]
  · rintro ⟨front, rest, rfl, hlength⟩
    refine ⟨front.toList, rest.toList, String.toList_append, ?_⟩
    rw [byteLength_toList, ← String.byteIdx_rawEndPos, ← hlength]

/-- The bytes between two boundaries are those of the characters there. -/
theorem extract_utf8Encode (front mid rest : List Char) :
    (front ++ mid ++ rest).utf8Encode.extract (byteLength front)
      (byteLength front + byteLength mid) = mid.utf8Encode := by
  have hfront := ByteArray.extract_append_size_add' (b := mid.utf8Encode ++ rest.utf8Encode)
    (i := 0) (j := byteLength mid) (size_utf8Encode front).symm
  rw [List.utf8Encode_append, List.utf8Encode_append, ByteArray.append_assoc]
  rw [Nat.add_zero] at hfront
  rw [hfront, ByteArray.extract_append_eq_left (size_utf8Encode mid).symm]

/-! ## Characters of one byte -/

def byteAt? (text : String) (n : Nat) : Option UInt8 :=
  text.toByteArray.data[n]?

theorem isUTF8FirstByte_of_utf8Size {c : Char} (hc : c.utf8Size = 1) :
    c.toUInt8.IsUTF8FirstByte := by
  have hfirst := UInt8.isUTF8FirstByte_getElem_zero_utf8EncodeChar (c := c)
  simp only [String.utf8EncodeChar_eq_singleton hc, List.getElem_cons_zero] at hfirst
  exact hfirst

/-- Only the character itself begins with its one byte. -/
theorem eq_of_utf8EncodeChar_zero {c d : Char} (hc : c.utf8Size = 1)
    (h : (utf8EncodeChar d)[0]? = some c.toUInt8) : d = c := by
  have hle : c.toNat ≤ 127 := UInt32.le_iff_toNat_le.1 (Char.utf8Size_eq_one_iff.1 hc)
  have hbyte : c.toUInt8.toNat = c.toNat := by
    rw [Char.toUInt8, UInt32.toNat_toUInt8]
    exact Nat.mod_eq_of_lt (by change c.toNat < 256; omega)
  unfold utf8EncodeChar at h
  dsimp only at h
  split_ifs at h with hd <;>
    simp only [List.getElem?_cons_zero, Option.some.injEq] at h <;>
    replace h := congrArg UInt8.toNat h <;>
    rw [hbyte] at h <;>
    simp at h
  · change d.toNat ≤ 127 at hd
    exact Char.toNat_inj.1 (by omega)
  all_goals omega

/-- A byte below 128 stands exactly where its character does. -/
theorem byteAt?_eq_some_iff {text : String} {n : Nat} {c : Char} (hc : c.utf8Size = 1) :
    byteAt? text n = some c.toUInt8 ↔
      ∃ front rest, text.toList = front ++ c :: rest ∧ byteLength front = n := by
  rw [byteAt?, ← String.utf8Encode_toList, List.utf8Encode, List.data_toByteArray,
    List.getElem?_toArray]
  generalize text.toList = cs
  constructor
  · intro h
    induction cs generalizing n with
    | nil => simp at h
    | cons d cs ih =>
      rw [List.flatMap_cons, List.getElem?_append] at h
      split_ifs at h with hlt
      · rw [List.getElem?_eq_getElem hlt, Option.some.injEq] at h
        have hfirst := isUTF8FirstByte_of_utf8Size hc
        rw [← h, UInt8.isUTF8FirstByte_getElem_utf8EncodeChar] at hfirst
        subst hfirst
        have hd : d = c := eq_of_utf8EncodeChar_zero hc (by rw [List.getElem?_eq_getElem hlt, h])
        exact ⟨[], cs, by rw [hd]; rfl, rfl⟩
      · rw [String.length_utf8EncodeChar] at h hlt
        obtain ⟨front, rest, rfl, hlength⟩ := ih h
        exact ⟨d :: front, rest, rfl, by rw [byteLength_cons]; omega⟩
  · rintro ⟨front, rest, rfl, rfl⟩
    have hlength := length_flatMap_utf8EncodeChar front
    rw [List.flatMap_append, List.getElem?_append_right (by omega), hlength, Nat.sub_self,
      List.flatMap_cons, String.utf8EncodeChar_eq_singleton hc]
    rfl

/-! ## The order of texts -/

/-- The bytes of a smaller character come first, whatever follows them. -/
theorem utf8EncodeChar_lex {c d : Char} (h : c < d) (xs ys : List UInt8) :
    List.Lex (· < ·) (utf8EncodeChar c ++ xs) (utf8EncodeChar d ++ ys) := by
  have hlt : c.val.toNat < d.val.toNat := h
  have hd : d.val.toNat < 1114112 := by
    have := d.valid
    unfold UInt32.isValidChar Nat.isValidChar at this
    omega
  have hbyte (n : Nat) (hn : n < 256) : (UInt8.ofNat n).toNat = n := by
    simp [Nat.mod_eq_of_lt hn]
  have hdigits (n : Nat) : n / 4096 = n / 64 / 64 ∧ n / 262144 = n / 64 / 64 / 64 := by omega
  unfold utf8EncodeChar
  dsimp only
  generalize c.val.toNat = v at *
  generalize d.val.toNat = w at *
  split_ifs <;>
    simp only [List.cons_append, List.nil_append, List.cons_lex_cons_iff, UInt8.lt_iff_toNat_lt,
      ← UInt8.toNat_inj, (hdigits v).1, (hdigits v).2, (hdigits w).1, (hdigits w).2] <;>
    repeat rw [hbyte _ (by omega)]
  all_goals omega

theorem flatMap_utf8EncodeChar_lex {cs ds : List Char} (h : List.Lex (· < ·) cs ds) :
    List.Lex (· < ·) (cs.flatMap utf8EncodeChar) (ds.flatMap utf8EncodeChar) := by
  induction h with
  | @nil d ds =>
    obtain ⟨b, bs, hbytes⟩ := List.exists_cons_of_ne_nil (String.utf8EncodeChar_ne_nil (c := d))
    rw [List.flatMap_cons, hbytes]
    exact .nil
  | rel hlt => exact utf8EncodeChar_lex hlt _ _
  | cons _ ih => exact List.Lex.append_left _ ih _

/-- The bytes of a text come before those of another, byte by byte. -/
def BytesBefore (a b : String) : Prop :=
  List.Lex (· < ·) a.toByteArray.data.toList b.toByteArray.data.toList

instance (a b : String) : Decidable (BytesBefore a b) :=
  inferInstanceAs (Decidable (a.toByteArray.data.toList < b.toByteArray.data.toList))

/-- Texts have the order of their bytes. -/
theorem bytesBefore_of_lt {a b : String} (h : a < b) : BytesBefore a b := by
  have hlex := flatMap_utf8EncodeChar_lex (String.lt_iff_toList_lt.1 h)
  have hbytes (text : String) :
      text.toByteArray.data.toList = text.toList.flatMap utf8EncodeChar := by
    rw [← String.utf8Encode_toList, List.utf8Encode, List.data_toByteArray, List.toList_toArray]
  rwa [BytesBefore, hbytes, hbytes]

end TypeMend.Text
