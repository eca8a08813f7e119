/-!
# Byte offsets into a text

Positions in source files are byte offsets into the UTF-8 form of the text. A text is handled
here as its list of characters, each of which has a width of one to four bytes, so that a text
can be cut at an offset only where a character begins: what comes out of a cut is always a text
again.
-/
namespace TypeMend.Text

/-- Number of bytes of the UTF-8 form of a text. -/
def byteLength : List Char → Nat
  | [] => 0
  | c :: cs => c.utf8Size + byteLength cs

/-- The parts of a text before and after a byte offset. There are none when the offset lies
past the end or inside a character. -/
def cut? : Nat → List Char → Option (List Char × List Char)
  | 0, cs => some ([], cs)
  | _ + 1, [] => none
  | n + 1, c :: cs =>
    if c.utf8Size ≤ n + 1 then
      (cut? (n + 1 - c.utf8Size) cs).map fun parts => (c :: parts.1, parts.2)
    else none

/-- Whether a byte offset is one at which the text can be cut. -/
def isBoundary (n : Nat) (cs : List Char) : Bool :=
  (cut? n cs).isSome

/-- The text between two byte offsets. -/
def slice? (start stop : Nat) (cs : List Char) : Option (List Char) :=
  (cut? stop cs).bind fun parts => (cut? start parts.1).map Prod.snd

/-- The text with the part between two byte offsets replaced. -/
def splice? (start stop : Nat) (new cs : List Char) : Option (List Char) :=
  (cut? stop cs).bind fun parts => (cut? start parts.1).map fun front => front.1 ++ new ++ parts.2

@[simp] theorem byteLength_nil : byteLength [] = 0 := rfl

@[simp] theorem byteLength_cons (c : Char) (cs : List Char) :
    byteLength (c :: cs) = c.utf8Size + byteLength cs := rfl

@[simp] theorem byteLength_append (xs ys : List Char) :
    byteLength (xs ++ ys) = byteLength xs + byteLength ys := by
  induction xs with
  | nil => simp
  | cons x xs ih => simp [ih, Nat.add_assoc]

@[simp] theorem cut?_zero (cs : List Char) : cut? 0 cs = some ([], cs) := by
  cases cs <;> rfl

/-- A text cuts at the length of any front part of it. -/
theorem cut?_byteLength_append (xs ys : List Char) :
    cut? (byteLength xs) (xs ++ ys) = some (xs, ys) := by
  induction xs with
  | nil => simp
  | cons x xs ih =>
    have hx : 0 < x.utf8Size := Char.utf8Size_pos x
    obtain ⟨n, hn⟩ : ∃ n, x.utf8Size + byteLength xs = n + 1 :=
      ⟨x.utf8Size + byteLength xs - 1, by omega⟩
    simp only [byteLength_cons, List.cons_append, hn, cut?]
    rw [if_pos (by omega), show n + 1 - x.utf8Size = byteLength xs by omega, ih]
    rfl

/-- The two parts of a cut make up the text, and the first has the stated length. -/
theorem cut?_eq_some_iff {n : Nat} {cs xs ys : List Char} :
    cut? n cs = some (xs, ys) ↔ cs = xs ++ ys ∧ byteLength xs = n := by
  constructor
  · intro h
    fun_induction cut? n cs generalizing xs ys with
    | case1 cs => simp at h; simp [h.1, h.2]
    | case2 n => simp at h
    | case3 n c cs hle ih =>
      obtain ⟨⟨us, vs⟩, huv, heq⟩ := Option.map_eq_some_iff.1 h
      obtain ⟨rfl, hlen⟩ := ih huv
      simp at heq
      obtain ⟨rfl, rfl⟩ := heq
      simp [hlen]
      omega
    | case4 n c cs hgt => simp at h
  · rintro ⟨rfl, rfl⟩
    exact cut?_byteLength_append xs ys

end TypeMend.Text
