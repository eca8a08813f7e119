import Mathlib.Data.List.Basic
import Mathlib.Tactic
import TypeMend.Json.Format

/-!
# Strings and numbers are read back

The smallest parts of a document that was written are read as what was written. A string may hold
any characters; escapes are undone one character at a time. A number is read to its last digit, so
what follows it must not go on as a number does: `Stops` says what may follow a value, and
`renderAt_eq_cons` what one begins with.
-/
namespace TypeMend.Json

open Text (isDigit digitValue digitsValue)

/-! ## Between the parts, and what follows one -/

/-- What may follow a value that was written: nothing, a comma or a line break. -/
def Stops (rest : List Char) : Prop :=
  ∀ c ∈ rest.head?, c = ',' ∨ c = '\n'

theorem stops_nil : Stops [] := by simp [Stops]

theorem stops_comma (cs : List Char) : Stops (',' :: cs) := by simp [Stops]

theorem stops_newline (level : Nat) (cs : List Char) : Stops (newline level ++ cs) := by
  simp [Stops, newline]

theorem stops_renderItems (level : Nat) (items : List Json) (rest : List Char) :
    Stops (renderItems level items ++ rest) := by
  cases items with
  | nil =>
    rw [renderItems, List.append_assoc]
    exact stops_newline level _
  | cons item items =>
    rw [renderItems]
    exact stops_comma _

theorem stops_renderMembers (level : Nat) (members : List (String × Json)) (rest : List Char) :
    Stops (renderMembers level members ++ rest) := by
  cases members with
  | nil =>
    rw [renderMembers, List.append_assoc]
    exact stops_newline level _
  | cons member members =>
    rw [renderMembers]
    exact stops_comma _

theorem skipSpace_newline (level : Nat) (cs : List Char) :
    skipSpace (newline level ++ cs) = skipSpace cs := by
  refine List.dropWhile_append_of_pos fun c hc => ?_
  rcases List.mem_cons.1 hc with rfl | hc
  · decide
  · rw [List.eq_of_mem_replicate hc]
    decide

theorem skipSpace_cons {c : Char} (h : isSpace c = false) (cs : List Char) :
    skipSpace (c :: cs) = c :: cs := by
  simp [skipSpace, h]

@[simp] theorem skipSpace_skipSpace (cs : List Char) :
    skipSpace (skipSpace cs) = skipSpace cs := by
  induction cs with
  | nil => rfl
  | cons c cs ih =>
    by_cases hc : isSpace c = true
    · simpa [skipSpace, hc] using ih
    · simp [skipSpace, hc]

/-! ## Strings -/

theorem hexValue?_hexDigit : ∀ n < 16, hexValue? (hexDigit n) = some n := by decide

/-- The escape of a character is read as the character. -/
theorem readChars_escapeChar (c : Char) (cs : List Char) :
    readChars .plain (escapeChar c ++ cs) =
      (readChars .plain cs).map fun (text, rest) => (c :: text, rest) := by
  unfold escapeChar
  split_ifs with hquote hslash hback hform hline hreturn htab hcontrol
  · simp [readChars, shortEscape?, hquote]
  · simp [readChars, shortEscape?, hslash]
  · simp [readChars, shortEscape?, hback]
  · simp [readChars, shortEscape?, hform]
  · simp [readChars, shortEscape?, hline]
  · simp [readChars, shortEscape?, hreturn]
  · simp [readChars, shortEscape?, htab]
  · have hhigh := hexValue?_hexDigit (c.toNat / 16) (by omega)
    have hlow := hexValue?_hexDigit (c.toNat % 16) (by omega)
    have hzero : hexValue? '0' = some 0 := by decide
    have hunit : 16 * (c.toNat / 16) + c.toNat % 16 = c.toNat := by omega
    have hclose : closeUnit none c.toNat = .ok (.inl c) := by
      have hsmall : ¬55296 ≤ c.toNat ∧ ¬56320 ≤ c.toNat := by omega
      simp [closeUnit, hsmall]
    simp [readChars, shortEscape?, hzero, hhigh, hlow, hunit, hclose]
  · simp [readChars, hquote, hslash, hcontrol]

theorem readChars_flatMap_escapeChar (text rest : List Char) :
    readChars .plain (text.flatMap escapeChar ++ '\x22' :: rest) = .ok (text, rest) := by
  induction text with
  | nil => simp [readChars]
  | cons c text ih =>
    rw [List.flatMap_cons, List.append_assoc, readChars_escapeChar, ih]
    rfl

theorem readString_renderString (text : String) (rest : List Char) :
    ∃ cs, renderString text ++ rest = '\x22' :: cs ∧ readString cs = .ok (text, rest) := by
  refine ⟨text.toList.flatMap escapeChar ++ '\x22' :: rest, ?_, ?_⟩
  · simp [renderString]
  · rw [readString, readChars_flatMap_escapeChar]
    simp [Except.map]

/-! ## Numbers -/

theorem digitsValue_toDigits (n : Nat) : digitsValue 0 (Nat.toDigits 10 n) = n :=
  Nat.ofDigitChars_ten_toDigits

theorem isDigit_of_mem_toDigits {n : Nat} {c : Char} (h : c ∈ Nat.toDigits 10 n) :
    isDigit c = true :=
  Nat.isDigit_of_mem_toDigits (by decide) (by decide) h

theorem le_digitsValue (n : Nat) (cs : List Char) : n ≤ digitsValue n cs := by
  induction cs generalizing n with
  | nil => exact le_rfl
  | cons c cs ih =>
    have hnext : n ≤ 10 * n + digitValue c := by omega
    exact hnext.trans (ih _)

/-- Digits are read as long as their value can be kept. -/
theorem readDigits_append {n : Nat} (count : Nat) {digits rest : List Char}
    (hdigits : ∀ c ∈ digits, isDigit c = true) (hfits : digitsValue n digits ≤ maxSignificand)
    (hrest : ∀ c ∈ rest.head?, isDigit c = false) :
    readDigits n count (digits ++ rest) =
      (digitsValue n digits, count + digits.length, rest) := by
  induction digits generalizing n count with
  | nil =>
    cases rest with
    | nil => rfl
    | cons c rest =>
      have hc : isDigit c = false := hrest c rfl
      simp [readDigits, hc, digitsValue]
  | cons c digits ih =>
    have hc := hdigits c List.mem_cons_self
    have hvalue : 10 * n + digitValue c ≤ maxSignificand := (le_digitsValue _ _).trans hfits
    rw [List.cons_append, readDigits, if_pos (by simp [hc, hvalue]),
      ih _ (fun d hd => hdigits d (List.mem_cons_of_mem _ hd)) hfits]
    simp [digitsValue, Nat.add_assoc, Nat.add_comm 1]

/-- A number but zero does not begin with a zero. -/
theorem toDigits_eq_cons {n : Nat} (h : n ≠ 0) :
    ∃ c cs, Nat.toDigits 10 n = c :: cs ∧ c ≠ '0' := by
  induction n using Nat.strong_induction_on with
  | _ n ih =>
    rcases Nat.lt_or_ge n 10 with hlt | hge
    · refine ⟨n.digitChar, [], Nat.toDigits_of_lt_base hlt, ?_⟩
      rw [ne_eq, Nat.digitChar_eq_zero]
      exact h
    · obtain ⟨c, cs, hfront, hc⟩ := ih (n / 10) (by omega) (by omega)
      exact ⟨c, cs ++ [(n % 10).digitChar],
        by rw [Nat.toDigits_of_base_le (by decide) hge, hfront, List.cons_append], hc⟩

theorem finishNumber_of_stops (significand : Nat) {rest : List Char} (h : Stops rest) :
    finishNumber true significand rest = .ok (.integer significand, rest) := by
  cases rest with
  | nil => rfl
  | cons c rest => rcases h c rfl with rfl | rfl <;> rfl

theorem isDigit_of_stops {rest : List Char} (h : Stops rest) :
    ∀ c ∈ rest.head?, isDigit c = false := by
  intro c hc
  rcases h c hc with rfl | rfl <;> decide

/-- A number that can be kept exactly is read as it was written. -/
theorem readNumber_toDigits {n : Nat} (hn : n ≤ maxSignificand) {rest : List Char}
    (hrest : Stops rest) :
    readNumber true (Nat.toDigits 10 n ++ rest) = .ok (.integer n, rest) := by
  -- Zero is the one number that begins with a zero, after which no digit is read.
  by_cases hzero : n = 0
  · subst hzero
    have hfinish := finishNumber_of_stops 0 hrest
    cases rest with
    | nil => exact hfinish
    | cons c rest =>
      have hc := isDigit_of_stops hrest c rfl
      simpa [readNumber, hc] using hfinish
  · obtain ⟨c, cs, hdigits, hc⟩ := toDigits_eq_cons hzero
    have hall : ∀ d ∈ c :: cs, isDigit d = true :=
      fun d hd => isDigit_of_mem_toDigits (hdigits ▸ hd)
    have hvalue : digitsValue (digitValue c) cs = n := by
      have hwhole := digitsValue_toDigits n
      rw [hdigits] at hwhole
      simpa [digitsValue] using hwhole
    have hread := readDigits_append 0
      (fun d hd => hall d (List.mem_cons_of_mem _ hd)) (hvalue.trans_le hn)
      (isDigit_of_stops hrest)
    rw [hdigits, List.cons_append, readNumber]
    · simp only [hall c List.mem_cons_self, if_true, hread, hvalue]
      exact finishNumber_of_stops n hrest
    · exact hc

/-! ## First characters -/

/-- The first character of a value is no blank and closes nothing, and only `null` begins with the
letter `n`. -/
theorem renderAt_eq_cons (level : Nat) (value : Json) :
    ∃ c cs, value.renderAt level = c :: cs ∧ isSpace c = false ∧ c ≠ ']' ∧
      (value ≠ .null → c ≠ 'n') := by
  cases value with
  | null => exact ⟨'n', _, by rw [renderAt]; rfl, by decide, by decide, fun h => absurd rfl h⟩
  | bool value =>
    cases value with
    | false => exact ⟨'f', _, by rw [renderAt]; rfl, by decide, by decide, fun _ => by decide⟩
    | true => exact ⟨'t', _, by rw [renderAt]; rfl, by decide, by decide, fun _ => by decide⟩
  | number value =>
    obtain ⟨c, cs, hdigits⟩ :=
      List.exists_cons_of_ne_nil (Nat.toDigits_ne_nil (n := value) (b := 10))
    have hc := isDigit_of_mem_toDigits (hdigits ▸ List.mem_cons_self : c ∈ Nat.toDigits 10 value)
    refine ⟨c, cs, by rw [renderAt, hdigits], ?_, ?_, fun _ => ?_⟩
    · by_contra hspace
      simp only [isSpace, Bool.not_eq_false, Bool.or_eq_true, beq_iff_eq] at hspace
      rcases hspace with ((rfl | rfl) | rfl) | rfl <;> cases hc
    · rintro rfl
      cases hc
    · rintro rfl
      cases hc
  | string value =>
    exact ⟨'\x22', _, by rw [renderAt]; rfl, by decide, by decide, fun _ => by decide⟩
  | array items =>
    cases items with
    | nil => exact ⟨'[', _, by rw [renderAt], by decide, by decide, fun _ => by decide⟩
    | cons item items => exact ⟨'[', _, by rw [renderAt], by decide, by decide, fun _ => by decide⟩
  | object members =>
    cases members with
    | nil => exact ⟨'\x7b', _, by rw [renderAt], by decide, by decide, fun _ => by decide⟩
    | cons member members =>
      exact ⟨'\x7b', _, by rw [renderAt], by decide, by decide, fun _ => by decide⟩

end TypeMend.Json
