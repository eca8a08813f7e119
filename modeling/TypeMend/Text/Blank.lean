/-!
# Blank characters

Type texts, indentation and typed answers are all compared after their blanks have been
removed. A character is blank when it has the Unicode property `White_Space`.
-/
namespace TypeMend.Text

/-- The code points with the property `White_Space`, as closed ranges in increasing order. -/
def blankRanges : List (Nat × Nat) :=
  [(0x9, 0xD), (0x20, 0x20), (0x85, 0x85), (0xA0, 0xA0), (0x1680, 0x1680), (0x2000, 0x200A),
   (0x2028, 0x2029), (0x202F, 0x202F), (0x205F, 0x205F), (0x3000, 0x3000)]

def isBlank (c : Char) : Bool :=
  blankRanges.any fun range => range.1 ≤ c.toNat && c.toNat ≤ range.2

def trimStart (cs : List Char) : List Char :=
  cs.dropWhile isBlank

def trimEnd : List Char → List Char
  | [] => []
  | c :: cs =>
    match trimEnd cs with
    | [] => if isBlank c then [] else [c]
    | rest => c :: rest

def trim (cs : List Char) : List Char :=
  trimEnd (trimStart cs)

def allBlank (cs : List Char) : Bool :=
  cs.all isBlank

@[simp] theorem trimStart_nil : trimStart [] = [] := rfl

@[simp] theorem trimEnd_nil : trimEnd [] = [] := rfl

theorem trimStart_cons (c : Char) (cs : List Char) :
    trimStart (c :: cs) = if isBlank c then trimStart cs else c :: cs := by
  simp [trimStart, List.dropWhile_cons]

/-- Trimming at the end leaves nothing exactly of a blank text. -/
theorem trimEnd_eq_nil_iff (cs : List Char) : trimEnd cs = [] ↔ allBlank cs = true := by
  induction cs with
  | nil => simp [allBlank]
  | cons c cs ih =>
    unfold trimEnd
    cases h : trimEnd cs with
    | nil => simp [allBlank] at *; simp [h] at ih; by_cases hc : isBlank c <;> simp [hc]; exact ih
    | cons d ds => simp [allBlank] at *; simp [h] at ih; intro _; exact ih

/-- What is left at the end of a trimmed text is not blank. -/
theorem isBlank_of_getLast?_trimEnd {cs : List Char} {c : Char}
    (h : (trimEnd cs).getLast? = some c) : isBlank c = false := by
  induction cs with
  | nil => cases h
  | cons d cs ih =>
    rw [trimEnd] at h
    cases htrim : trimEnd cs with
    | nil =>
      rw [htrim] at h
      by_cases hd : isBlank d = true
      · simp [hd] at h
      · have hlast : d = c := by simpa [hd] using h
        rw [← hlast]
        simpa using hd
    | cons e es =>
      rw [htrim] at h ih
      exact ih (by simpa using h)

end TypeMend.Text
