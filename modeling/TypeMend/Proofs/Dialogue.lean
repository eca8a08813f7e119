import TypeMend.Command.Run
import TypeMend.Proofs.Literals
import TypeMend.Proofs.Transcript
import TypeMend.Proofs.UnionMembers

/-!
# Questions and answers

A console asks about one problem after the other, and all questions read from the same input. A
question turns down lines until one is understood, so which line answers which question depends on
all that was read before. `Answer.Means` says what a line means. A `Turn` is one question with the
lines that it read, and a `Dialogue` is one turn after the other. The number that is shown beside a
prompt is an answer that selects it, and no answer selects a candidate that is not there.
-/
namespace TypeMend

namespace Text

/-! ## Numerals among blanks -/

theorem isBlank_of_isDigit {c : Char} (h : isDigit c = true) : isBlank c = false := by
  have hrange : 48 ≤ c.toNat ∧ c.toNat ≤ 57 := by
    simpa [isDigit, Char.le_def, UInt32.le_iff_toNat_le] using h
  simp [isBlank, blankRanges]
  omega

theorem trim_surrounded {left right : List Char} (hleft : allBlank left = true)
    (hright : allBlank right = true) (cs : List Char) : trim (left ++ cs ++ right) = trim cs := by
  induction left with
  | nil =>
    induction right using List.reverseRecOn with
    | nil => simp
    | append_singleton right c ih =>
      have hc : allBlank right = true ∧ isBlank c = true := by simpa [allBlank] using hright
      rw [← List.append_assoc, trim_append_of_isBlank hc.2, ih hc.1]
  | cons c left ih =>
    have hc : isBlank c = true ∧ allBlank left = true := by simpa [allBlank] using hleft
    rw [List.cons_append, List.cons_append, trim_cons_of_isBlank hc.1, ih hc.2]

theorem trimEnd_eq_self {cs : List Char} (h : ∀ c ∈ cs, isBlank c = false) : trimEnd cs = cs := by
  induction cs with
  | nil => rfl
  | cons c cs ih =>
    rw [List.forall_mem_cons] at h
    rw [trimEnd_cons_of_not_isBlank h.1, ih h.2]

theorem trim_eq_self {cs : List Char} (h : ∀ c ∈ cs, isBlank c = false) : trim cs = cs := by
  cases cs with
  | nil => rfl
  | cons c cs =>
    rw [List.forall_mem_cons] at h
    rw [trim_cons_of_not_isBlank h.1, trimEnd_eq_self h.2]

/-- The value of decimal digits, below the limit for counts. -/
def digits? (digits : List Char) : Option Nat :=
  if digits.isEmpty || !digits.all isDigit then none
  else if digitsValue 0 digits < countLimit then some (digitsValue 0 digits) else none

theorem digits?_eq_some_iff {digits : List Char} {n : Nat} :
    digits? digits = some n ↔ n < countLimit ∧ digits ≠ [] ∧
      (∀ c ∈ digits, isDigit c = true) ∧ digitsValue 0 digits = n := by
  have hgood : (digits.isEmpty || !digits.all isDigit) = false ↔
      digits ≠ [] ∧ ∀ c ∈ digits, isDigit c = true := by
    simp
  rw [← and_assoc (a := digits ≠ []), ← hgood, digits?]
  split_ifs with hbad hlimit
  · simp [hbad]
  · rw [Option.some.injEq, Bool.eq_false_of_not_eq_true hbad]
    exact ⟨fun heq => ⟨heq ▸ hlimit, rfl, heq⟩, fun h => h.2.2⟩
  · simp only [false_iff]
    rintro ⟨hlt, -, rfl⟩
    exact hlimit hlt

theorem count?_eq_some_iff {cs : List Char} {n : Nat} :
    count? cs = some n ↔ n < countLimit ∧ ∃ digits, digits ≠ [] ∧
      (∀ c ∈ digits, isDigit c = true) ∧ digitsValue 0 digits = n ∧
      (cs = digits ∨ cs = '+' :: digits) := by
  by_cases hplus : ∃ rest, cs = '+' :: rest
  · obtain ⟨rest, rfl⟩ := hplus
    change digits? rest = some n ↔ _
    rw [digits?_eq_some_iff]
    refine and_congr_right fun _ =>
      ⟨fun ⟨hne, hall, hvalue⟩ => ⟨rest, hne, hall, hvalue, .inr rfl⟩, ?_⟩
    rintro ⟨digits, hne, hall, hvalue, heq | heq⟩
    · exact absurd (hall '+' (heq ▸ List.mem_cons_self)) (by decide)
    · obtain ⟨-, rfl⟩ := List.cons.inj heq
      exact ⟨hne, hall, hvalue⟩
  · have hcount : count? cs = digits? cs := by
      unfold count? digits?
      split
      · exact absurd ⟨_, rfl⟩ hplus
      · rfl
    rw [hcount, digits?_eq_some_iff]
    refine and_congr_right fun _ =>
      ⟨fun ⟨hne, hall, hvalue⟩ => ⟨cs, hne, hall, hvalue, .inl rfl⟩, ?_⟩
    rintro ⟨digits, hne, hall, hvalue, rfl | heq⟩
    · exact ⟨hne, hall, hvalue⟩
    · exact absurd ⟨digits, heq⟩ hplus

end Text

open Text

/-! ## What a line means -/

namespace Answer

/-- A line names a number in decimal digits, with a plus sign or without, among blanks. -/
def Names (line : String) (number : Nat) : Prop :=
  number < countLimit ∧ ∃ digits, digits ≠ [] ∧ (∀ c ∈ digits, isDigit c = true) ∧
    digitsValue 0 digits = number ∧
    (trim line.toList = digits ∨ trim line.toList = '+' :: digits)

/-- What a line means when there are some candidates. -/
def Means (line : String) (candidates : Nat) : Decision → Prop
  | .skip => folded line = "s".toList ∨ folded line = "skip".toList
  | .quit => folded line = "q".toList ∨ folded line = "quit".toList
  | .select index => index < candidates ∧ Names line (index + 1)

theorem toNat_lt_of_sign_or_digit {d : Char} (hd : d = '+' ∨ isDigit d = true) : d.toNat < 65 := by
  rcases hd with rfl | hd
  · decide
  · have hle : d ≤ '9' := by
      simp only [isDigit, Bool.and_eq_true, decide_eq_true_eq] at hd
      exact hd.2
    exact lt_of_le_of_lt (UInt32.le_iff_toNat_le.1 hle) (by decide)

theorem toNat_lowerChar (c : Char) : lowerChar c = c ∨ 65 ≤ c.toNat ∧ 65 ≤ (lowerChar c).toNat := by
  unfold lowerChar Char.toLower
  split_ifs with hk hc
  · rw [hk]
    exact .inr (by decide)
  · right
    have hlow : 65 ≤ c.val.toNat := UInt32.le_iff_toNat_le.1 hc.1
    have hhigh : c.val.toNat ≤ 90 := UInt32.le_iff_toNat_le.1 hc.2
    refine ⟨hlow, ?_⟩
    change 65 ≤ (c.val + ('a'.val - 'A'.val)).toNat
    rw [UInt32.toNat_add]
    have hshift : ('a'.val - 'A'.val).toNat = 32 := by decide
    omega
  · exact .inl rfl

/-- Lowering a letter gives a letter, so that signs and digits are as they were written. -/
theorem lowerChar_eq_iff {d : Char} (hd : d = '+' ∨ isDigit d = true) (c : Char) :
    lowerChar c = d ↔ c = d := by
  have hlt := toNat_lt_of_sign_or_digit hd
  rcases toNat_lowerChar c with hsame | ⟨hc, hlower⟩
  · rw [hsame]
  · constructor <;> rintro rfl <;> omega

theorem map_lowerChar_eq_iff {cs ds : List Char} (h : ∀ d ∈ ds, d = '+' ∨ isDigit d = true) :
    cs.map lowerChar = ds ↔ cs = ds := by
  induction cs generalizing ds with
  | nil => simp
  | cons c cs ih =>
    cases ds with
    | nil => simp
    | cons d ds =>
      rw [List.forall_mem_cons] at h
      rw [List.map_cons, List.cons.injEq, List.cons.injEq, lowerChar_eq_iff h.1, ih h.2]

theorem count?_folded (line : String) (n : Nat) :
    count? (folded line) = some n ↔ Names line n := by
  rw [count?_eq_some_iff, Names]
  refine and_congr_right fun _ => exists_congr fun digits => and_congr_right fun _ =>
    and_congr_right fun hall => and_congr_right fun _ => ?_
  rw [folded, map_lowerChar_eq_iff fun d hd => .inr (hall d hd), map_lowerChar_eq_iff]
  exact List.forall_mem_cons.2 ⟨.inl rfl, fun d hd => .inr (hall d hd)⟩

/-- A word is no number. -/
theorem not_names_of_folded {line : String} {number : Nat}
    (h : folded line ∈ ["s".toList, "skip".toList, "q".toList, "quit".toList]) :
    ¬Names line number := by
  have hnone : ∀ word ∈ ["s".toList, "skip".toList, "q".toList, "quit".toList],
      count? word = none := by
    decide
  rw [← count?_folded, hnone _ h]
  simp

/-- A line is understood as what it means. -/
theorem parse?_eq_some_iff {line : String} {candidates : Nat} {decision : Decision} :
    parse? line candidates = some decision ↔ Means line candidates decision := by
  by_cases hskip : folded line = "s".toList ∨ folded line = "skip".toList
  · have hparse : parse? line candidates = some .skip := if_pos hskip
    have hnot (number : Nat) : ¬Names line number := not_names_of_folded (by simp; tauto)
    rw [hparse]
    cases decision with
    | skip => simpa [Means] using hskip
    | quit => rcases hskip with h | h <;> simp [Means, h]
    | select index => simp [Means, hnot]
  by_cases hquit : folded line = "q".toList ∨ folded line = "quit".toList
  · have hparse : parse? line candidates = some .quit := (if_neg hskip).trans (if_pos hquit)
    have hnot (number : Nat) : ¬Names line number := not_names_of_folded (by simp; tauto)
    rw [hparse]
    cases decision with
    | skip => simpa [Means] using hskip
    | quit => simpa [Means] using hquit
    | select index => simp [Means, hnot]
  have hparse : parse? line candidates = (count? (folded line)).bind fun number =>
      if 1 ≤ number ∧ number ≤ candidates then some (.select (number - 1)) else none := by
    refine (if_neg hskip).trans ((if_neg hquit).trans ?_)
    cases count? (folded line) <;> rfl
  rw [hparse, Option.bind_eq_some_iff]
  simp only [count?_folded, Option.ite_none_right_eq_some, Option.some.injEq]
  cases decision with
  | skip => simpa [Means] using hskip
  | quit => simpa [Means] using hquit
  | select index =>
    rw [Means]
    constructor
    · rintro ⟨number, hnames, ⟨hpos, hle⟩, heq⟩
      obtain rfl : number = index + 1 := by
        cases heq
        omega
      exact ⟨by omega, hnames⟩
    · rintro ⟨hlt, hnames⟩
      exact ⟨index + 1, hnames, ⟨by omega, by omega⟩, rfl⟩

/-- A line that is not understood means nothing. -/
theorem parse?_eq_none_iff {line : String} {candidates : Nat} :
    parse? line candidates = none ↔ ∀ decision, ¬Means line candidates decision := by
  simp only [← parse?_eq_some_iff, Option.eq_none_iff_forall_ne_some, ne_eq]

/-- A number is named by its digits among blanks. -/
theorem names_toString {number : Nat} (h : number < countLimit) {left right : String}
    (hleft : allBlank left.toList = true) (hright : allBlank right.toList = true) :
    Names (left ++ toString number ++ right) number := by
  have hdigits : (toString number).toList = Nat.toDigits 10 number := by simp
  have hsolid : ∀ c ∈ Nat.toDigits 10 number, isBlank c = false := fun c hc =>
    isBlank_of_isDigit (Json.isDigit_of_mem_toDigits hc)
  have htrim : trim (left ++ toString number ++ right).toList = Nat.toDigits 10 number := by
    rw [String.toList_append, String.toList_append, trim_surrounded hleft hright, hdigits,
      trim_eq_self hsolid]
  exact ⟨h, Nat.toDigits 10 number, Nat.toDigits_ne_nil, fun c => Json.isDigit_of_mem_toDigits,
    Json.digitsValue_toDigits number, .inl htrim⟩

end Answer

namespace InputLine

/-! ## Lines of input -/

/-- The lines of a text with their endings. All but the last end with a line feed, and there is no
line feed before the end of a line. -/
structure Divides (lines : List String) (input : String) : Prop where
  joined : String.join lines = input
  proper : ∀ line ∈ lines, line ≠ ""
  ended : ∀ line ∈ lines.dropLast, line.toList.getLast? = some '\n'
  single : ∀ line ∈ lines, '\n' ∉ line.toList.dropLast

def linesOf (input : String) : List String :=
  (splitChars input.toList).map String.ofList

theorem flatten_splitChars (cs : List Char) : (splitChars cs).flatten = cs := by
  induction cs with
  | nil => rfl
  | cons c cs ih =>
    rw [splitChars]
    split_ifs with hc
    · rw [List.flatten_cons, ih, List.singleton_append]
    · cases hlines : splitChars cs with
      | nil =>
        rw [hlines] at ih
        simp [← ih]
      | cons line rest =>
        rw [hlines] at ih
        simp [← ih]

theorem of_splitChars (cs : List Char) :
    (∀ line ∈ splitChars cs, line ≠ [] ∧ '\n' ∉ line.dropLast) ∧
      ∀ line ∈ (splitChars cs).dropLast, line.getLast? = some '\n' := by
  induction cs with
  | nil => simp [splitChars]
  | cons c cs ih =>
    rw [splitChars]
    split_ifs with hc
    · refine ⟨List.forall_mem_cons.2 ⟨by simp, ih.1⟩, ?_⟩
      cases hlines : splitChars cs with
      | nil => simp
      | cons line rest =>
        rw [hlines] at ih
        rw [List.dropLast_cons_of_ne_nil (by simp)]
        exact List.forall_mem_cons.2 ⟨by simp [hc], ih.2⟩
    · cases hlines : splitChars cs with
      | nil => simp
      | cons line rest =>
        rw [hlines, List.forall_mem_cons] at ih
        obtain ⟨⟨⟨hne, hsingle⟩, hrest⟩, hended⟩ := ih
        refine ⟨List.forall_mem_cons.2 ⟨⟨by simp, ?_⟩, hrest⟩, ?_⟩
        · rw [List.dropLast_cons_of_ne_nil hne]
          simp [hsingle, Ne.symm hc]
        · cases rest with
          | nil => simp
          | cons next rest =>
            rw [List.dropLast_cons_of_ne_nil (by simp), List.forall_mem_cons] at hended ⊢
            refine ⟨?_, hended.2⟩
            rw [List.getLast?_cons, hended.1]
            rfl

theorem linesOf_divides (input : String) : Divides (linesOf input) input := by
  obtain ⟨hlines, hended⟩ := of_splitChars input.toList
  constructor
  · rw [← String.toList_inj, String.toList_join, linesOf, List.flatMap_map]
    simpa [List.flatMap] using flatten_splitChars input.toList
  · simpa [linesOf] using fun line hline => (hlines line hline).1
  · intro line hline
    rw [linesOf, ← List.map_dropLast] at hline
    obtain ⟨cs, hcs, rfl⟩ := List.mem_map.1 hline
    simpa using hended cs hcs
  · simpa [linesOf] using fun line hline => (hlines line hline).2

end InputLine

/-! ## One question after the other -/

/-- A line of the problem as it is shown, with a candidate and its number. -/
def Renderer.row (renderer : Renderer) (number : Nat) (prompt : String) : String :=
  let label := renderer.paint .bold s!"[{number}]"
  s!"\n  {label} {prompt}"

theorem Renderer.prompts_eq (renderer : Renderer) (first : Nat) (prompts : List String) :
    renderer.prompts first prompts =
      String.join (prompts.mapIdx fun index prompt => renderer.row (first + index) prompt) := by
  induction prompts generalizing first with
  | nil => rfl
  | cons prompt prompts ih =>
    rw [Renderer.prompts, ih, List.mapIdx_cons, String.join_cons]
    simp only [Nat.add_assoc, Nat.add_comm 1, Nat.add_zero]
    rfl

namespace Console

/-- A console with lines of text to read, whose screen takes everything. -/
def reading (lines : List String) (shown : String) : Console :=
  ⟨lines.map .text, ⟨shown, none⟩⟩

theorem ofText_eq (input : String) : ofText input = reading (InputLine.linesOf input) "" := by
  simp [ofText, reading, InputLine.ofText, InputLine.linesOf, Screen.unlimited]

def question (candidates : Nat) : String :=
  "Choose " ++ (if candidates = 1 then "1" else "1-" ++ toString candidates) ++
    ", s to skip, q to quit: "

/-- What is written about a line that is turned down. -/
def refusal (line : String) : String :=
  "Unrecognised answer `" ++ String.ofList (trim line.toList) ++ "`\n"

theorem choiceHint_eq (candidates : Nat) : Renderer.choiceHint candidates = question candidates :=
  rfl

theorem complaint_eq (line : String) : Answer.complaint line = refusal line :=
  rfl

/-- What is written below a problem: before each line that is read and before the end of the input
the question, and after each line that is turned down the refusal. -/
def asked (candidates : Nat) (rejected : List String) : List String :=
  rejected.flatMap (fun line => [question candidates, refusal line]) ++
    [question candidates, "\n"]

theorem head?_question (candidates : Nat) : (question candidates).toList.head? = some 'C' := by
  have htext : question candidates =
      "Choose " ++ ((if candidates = 1 then "1" else "1-" ++ toString candidates) ++
        ", s to skip, q to quit: ") :=
    String.append_assoc
  have hhead : "Choose ".toList.head? = some 'C' := by decide +kernel
  rw [htext, String.toList_append, List.head?_append, hhead, Option.some_or]

theorem head?_refusal (line : String) : (refusal line).toList.head? = some 'U' := by
  have htext : refusal line =
      "Unrecognised answer `" ++ (String.ofList (trim line.toList) ++ "`\n") :=
    String.append_assoc
  have hhead : "Unrecognised answer `".toList.head? = some 'U' := by decide +kernel
  rw [htext, String.toList_append, List.head?_append, hhead, Option.some_or]

/-- The question is asked once for each line that is read, and once more at the end of the
input. -/
theorem count_question_asked (candidates : Nat) (rejected : List String)
    (answer : Option String) :
    (asked candidates rejected).count (question candidates) =
      (rejected ++ answer.toList).length + if answer = none then 1 else 0 := by
  have hother {text : String} (h : text.toList.head? ≠ some 'C') :
      text ≠ question candidates := fun heq =>
    h (heq ▸ head?_question candidates)
  have hrefusal (line : String) : refusal line ≠ question candidates :=
    hother (by rw [head?_refusal]; decide)
  have hnewline : "\n" ≠ question candidates := hother (by decide)
  have honce : (asked candidates rejected).count (question candidates) =
      rejected.length + 1 := by
    induction rejected with
    | nil => simp [asked, hnewline]
    | cons line rejected ih => simpa [asked, hrefusal] using ih
  cases answer <;> simp [honce]

/-- One question: the lines that are turned down and the one that is understood are read from the
front of the input, or all lines and none is understood. -/
structure Turn (candidates : Nat) (lines rejected : List String) (answer : Option String)
    (rest : List String) (decision : Decision) : Prop where
  consumed : lines = rejected ++ answer.toList ++ rest
  rejects : ∀ line ∈ rejected, ∀ decision, ¬Answer.Means line candidates decision
  understood : ∀ line ∈ answer, Answer.Means line candidates decision
  exhausted : answer = none → rest = [] ∧ decision = .quit

theorem askOn_reading (candidates : Nat) (lines : List String) (shown : String) :
    ∃ rejected answer rest decision, Turn candidates lines rejected answer rest decision ∧
      askOn candidates (lines.map .text) ⟨shown, none⟩ =
        (decision, reading rest (shown ++ String.join (asked candidates rejected))) := by
  induction lines generalizing shown with
  | nil =>
    refine ⟨[], none, [], .quit, ⟨rfl, by simp, by simp, fun _ => ⟨rfl, rfl⟩⟩, ?_⟩
    simp [askOn, Screen.write, asked, reading, choiceHint_eq, String.append_assoc]
  | cons line lines ih =>
    cases hparse : Answer.parse? line candidates with
    | some decision =>
      refine ⟨[], some line, lines, decision, ⟨rfl, by simp, ?_, by simp⟩, ?_⟩
      · simpa using Answer.parse?_eq_some_iff.1 hparse
      · simp [askOn, Screen.write, hparse, asked, reading, choiceHint_eq, String.append_assoc]
    | none =>
      obtain ⟨rejected, answer, rest, decision, hturn, hasked⟩ :=
        ih (shown ++ question candidates ++ refusal line)
      refine ⟨line :: rejected, answer, rest, decision, ⟨?_, ?_, hturn.understood,
        hturn.exhausted⟩, ?_⟩
      · rw [hturn.consumed]
        rfl
      · exact List.forall_mem_cons.2 ⟨Answer.parse?_eq_none_iff.1 hparse, hturn.rejects⟩
      · rw [List.map_cons, askOn]
        simp only [Screen.write, hparse, choiceHint_eq, complaint_eq]
        rw [hasked]
        simp [asked, String.append_assoc]

def transcript (renderer : Renderer) (view : ProblemView) (rejected : List String) : String :=
  renderer.problem view ++ "\n" ++ String.join (asked view.prompts.length rejected)

/-- Questions about one problem after the other, from the lines that are there before to those that
are left, with all that they show. -/
inductive Dialogue (renderer : Renderer) :
    List ProblemView → List String → List Decision → List String → String → Prop
  | done (lines : List String) : Dialogue renderer [] lines [] lines ""
  | turn {view : ProblemView} {views : List ProblemView} {lines rejected mid rest : List String}
      {answer : Option String} {decision : Decision} {decisions : List Decision}
      {shown : String} (first : Turn view.prompts.length lines rejected answer mid decision)
      (later : Dialogue renderer views mid decisions rest shown) :
      Dialogue renderer (view :: views) lines (decision :: decisions) rest
        (transcript renderer view rejected ++ shown)

variable (renderer : Renderer)

theorem choose_reading (view : ProblemView) (lines : List String) (shown : String) :
    ∃ rejected answer rest decision, Turn view.prompts.length lines rejected answer rest decision ∧
      (interactive renderer).choose view (reading lines shown) =
        (decision, reading rest (shown ++ transcript renderer view rejected)) := by
  obtain ⟨rejected, answer, rest, decision, hturn, hasked⟩ :=
    askOn_reading view.prompts.length lines (shown ++ (renderer.problem view ++ "\n"))
  refine ⟨rejected, answer, rest, decision, hturn, hasked.trans ?_⟩
  rw [transcript, String.append_assoc]

/-- Whatever problems there are to ask about, the answers are read in a dialogue. -/
theorem mapM_choose_reading (views : List ProblemView) (lines : List String) (shown : String) :
    ∃ decisions rest added, Dialogue renderer views lines decisions rest added ∧
      views.mapM (interactive renderer).choose (reading lines shown) =
        (decisions, reading rest (shown ++ added)) := by
  induction views generalizing lines shown with
  | nil => exact ⟨[], lines, "", .done lines, by rw [String.append_empty]; rfl⟩
  | cons view views ih =>
    obtain ⟨rejected, answer, mid, decision, hturn, hchoose⟩ :=
      choose_reading renderer view lines shown
    obtain ⟨decisions, rest, added, hlater, hrun⟩ :=
      ih mid (shown ++ transcript renderer view rejected)
    refine ⟨decision :: decisions, rest, transcript renderer view rejected ++ added,
      .turn hturn hlater, ?_⟩
    rw [← String.append_assoc, List.mapM_cons]
    change ((fun result : Decision × Console =>
      let later := views.mapM (interactive renderer).choose result.2
      (result.1 :: later.1, later.2))
        ((interactive renderer).choose view (reading lines shown))) = _
    rw [hchoose]
    simp only [hrun]

/-- Without input every question is shown once and answered with a quit. -/
theorem Dialogue.of_exhausted {renderer : Renderer} {views : List ProblemView}
    {lines rest : List String} {decisions : List Decision} {shown : String}
    (h : Dialogue renderer views lines decisions rest shown) (hlines : lines = []) :
    decisions = List.replicate views.length .quit ∧ rest = [] ∧
      shown = String.join (views.map fun view => transcript renderer view []) := by
  induction h with
  | done => exact ⟨rfl, hlines, rfl⟩
  | @turn view views lines rejected mid rest answer decision decisions shown first later ih =>
    have hconsumed := first.consumed
    rw [hlines, eq_comm, List.append_eq_nil_iff, List.append_eq_nil_iff] at hconsumed
    obtain ⟨⟨rfl, hanswer⟩, rfl⟩ := hconsumed
    have hnone : answer = none := by simpa using hanswer
    obtain ⟨hdecisions, hrest, hshown⟩ := ih rfl
    refine ⟨by rw [(first.exhausted hnone).2, hdecisions]; rfl, hrest, ?_⟩
    rw [hshown, List.map_cons, String.join_cons]

/-! ## No candidate but those that are there -/

theorem askOn_lt {candidates index : Nat} {lines : List InputLine} {screen : Screen}
    (h : (askOn candidates lines screen).1 = .select index) : index < candidates := by
  induction lines generalizing screen with
  | nil =>
    rw [askOn] at h
    split at h <;> cases h
  | cons line lines ih =>
    rw [askOn] at h
    split at h
    · cases h
    · cases line with
      | unreadable => cases h
      | text line =>
        dsimp only at h
        split at h
        · rename_i hparse
          split at h
          · obtain rfl : _ = Decision.select index := h
            exact (Answer.parse?_eq_some_iff.1 hparse).1
          · cases h
        · split at h
          · exact ih h
          · cases h

/-- Whoever answers, only candidates that are there are selected. -/
theorem choose_lt (autoSelect : AutoSelect) {view : ProblemView} (hprompts : view.prompts ≠ [])
    {world : World} {index : Nat}
    (h : ((World.host.presenter renderer autoSelect).choose view world).1 = .select index) :
    index < view.prompts.length := by
  cases autoSelect with
  | first =>
    obtain rfl : 0 = index := Decision.select.inj h
    exact List.length_pos_of_ne_nil hprompts
  | none =>
    change (world.console.ask renderer view).1 = .select index at h
    rw [ask] at h
    split at h
    · exact askOn_lt h
    · cases h

/-- A selection is carried out with the candidate that it means. -/
theorem present_of_select (autoSelect : AutoSelect) (item : Presentation)
    {resolution : Resolution} (hgoing : resolution.stats.quit = false)
    (hcandidates : item.candidates ≠ []) {world after : World} {index : Nat}
    (h : (World.host.presenter renderer autoSelect).choose
      (item.view (resolution.stats.problems + 1)) world = (.select index, after)) :
    ∃ candidate, item.candidates[index]? = some candidate ∧
      item.present (World.host.presenter renderer autoSelect) resolution world =
        ((.selected index,
          resolution.count.take (resolution.pending.pushAll item.workspace candidate.edits)),
          after) := by
  have hlength : (item.view (resolution.stats.problems + 1)).prompts.length =
      item.candidates.length := List.length_map _
  have hprompts : (item.view (resolution.stats.problems + 1)).prompts ≠ [] := by
    rw [← List.length_pos_iff_ne_nil, hlength]
    exact List.length_pos_of_ne_nil hcandidates
  have hlt : index < item.candidates.length :=
    hlength ▸ choose_lt renderer autoSelect hprompts (by rw [h])
  refine ⟨item.candidates[index], List.getElem?_eq_getElem hlt, ?_⟩
  rw [Presentation.present, Resolution.present, if_neg (by simp [hgoing]),
    if_neg (by simpa using hcandidates)]
  change ((resolution.count.settle item.workspace item.candidates
      ((World.host.presenter renderer autoSelect).choose
        (item.view (resolution.stats.problems + 1)) world).1),
    ((World.host.presenter renderer autoSelect).choose
        (item.view (resolution.stats.problems + 1)) world).2) = _
  rw [h]
  simp [Resolution.settle, List.getElem?_eq_getElem hlt, Resolution.count]

/-- The number that is shown beside a prompt selects it, whatever blanks are around it. -/
theorem choose_of_number {view : ProblemView} (hlimit : view.prompts.length < countLimit)
    {index : Nat} (hindex : index < view.prompts.length) {left right : String}
    (hleft : allBlank left.toList = true) (hright : allBlank right.toList = true)
    (lines : List String) (shown : String) :
    (interactive renderer).choose view
        (reading ((left ++ toString (index + 1) ++ right) :: lines) shown) =
      (.select index, reading lines (shown ++ transcript renderer view [])) := by
  have hmeans : Answer.Means (left ++ toString (index + 1) ++ right) view.prompts.length
      (.select index) :=
    ⟨hindex, Answer.names_toString (lt_of_le_of_lt hindex hlimit) hleft hright⟩
  obtain ⟨rejected, answer, rest, decision, hturn, hchoose⟩ := choose_reading renderer view
    ((left ++ toString (index + 1) ++ right) :: lines) shown
  have hconsumed := hturn.consumed
  cases rejected with
  | cons line rejected =>
    obtain ⟨rfl, -⟩ := List.cons.inj hconsumed
    exact absurd hmeans (hturn.rejects _ List.mem_cons_self _)
  | nil =>
    cases answer with
    | none =>
      obtain ⟨rfl, -⟩ := hturn.exhausted rfl
      cases hconsumed
    | some line =>
      obtain ⟨rfl, rfl⟩ := List.cons.inj hconsumed
      have hdecision := Answer.parse?_eq_some_iff.2 (hturn.understood _ rfl)
      rw [Answer.parse?_eq_some_iff.2 hmeans] at hdecision
      rw [hchoose, ← Option.some.inj hdecision]

/-- Whatever text is typed and whatever problems are asked about, the questions take the lines of
the text in their order, each up to the first line that means something for it, or all that are
left; and when none are left the answer is a quit, then and ever after. The question is shown once
for each line that is read and once at the end of the input. The number that stands beside a prompt
is an answer that selects it. Nobody who answers, at the console or without asking, selects a
candidate that is not there: a selection takes up the candidate that it means. -/
theorem interactive_answers :
    (∀ (input : String) (views : List ProblemView), ∃ lines decisions rest shown,
      InputLine.Divides lines input ∧ Dialogue renderer views lines decisions rest shown ∧
      views.mapM (interactive renderer).choose (ofText input) = (decisions, reading rest shown) ∧
      (rest = [] → ∀ later : List ProblemView,
        later.mapM (interactive renderer).choose (reading rest shown) =
          (List.replicate later.length .quit, reading [] (shown ++
            String.join (later.map fun view => transcript renderer view []))))) ∧
    (∀ candidates rejected answer,
      (asked candidates rejected).count (question candidates) =
        (rejected ++ answer.toList).length + if answer = none then 1 else 0) ∧
    (∀ view : ProblemView, renderer.problem view = renderer.header view ++
        String.join (view.prompts.mapIdx fun index prompt => renderer.row (index + 1) prompt) ∧
      (view.prompts.length < countLimit → ∀ index < view.prompts.length, ∀ left right : String,
        allBlank left.toList = true → allBlank right.toList = true → ∀ lines shown,
        (interactive renderer).choose view
            (reading ((left ++ toString (index + 1) ++ right) :: lines) shown) =
          (.select index, reading lines (shown ++ transcript renderer view [])))) ∧
    ∀ (autoSelect : AutoSelect) (item : Presentation) (resolution : Resolution)
      (world after : World) (index : Nat), resolution.stats.quit = false →
      item.candidates ≠ [] → (World.host.presenter renderer autoSelect).choose
        (item.view (resolution.stats.problems + 1)) world = (.select index, after) →
      ∃ candidate, item.candidates[index]? = some candidate ∧
        item.present (World.host.presenter renderer autoSelect) resolution world =
          ((.selected index,
            resolution.count.take (resolution.pending.pushAll item.workspace candidate.edits)),
            after) := by
  refine ⟨fun input views => ?_, count_question_asked, fun view => ⟨?_, ?_⟩, ?_⟩
  · obtain ⟨decisions, rest, shown, hdialogue, hrun⟩ :=
      mapM_choose_reading renderer views (InputLine.linesOf input) ""
    rw [← ofText_eq, String.empty_append] at hrun
    refine ⟨_, decisions, rest, shown, InputLine.linesOf_divides input, hdialogue, hrun, ?_⟩
    rintro rfl later
    obtain ⟨decisions', rest', added, hdialogue', hrun'⟩ :=
      mapM_choose_reading renderer later [] shown
    obtain ⟨rfl, rfl, rfl⟩ := hdialogue'.of_exhausted rfl
    exact hrun'
  · simp only [Renderer.problem, Renderer.prompts_eq, Nat.add_comm 1]
  · intro hlimit index hindex left right hleft hright lines shown
    exact choose_of_number renderer hlimit hindex hleft hright lines shown
  · intro autoSelect item resolution world after index hgoing hcandidates h
    exact present_of_select renderer autoSelect item hgoing hcandidates h

/-- A problem that is shown with two candidates. -/
def twoPrompts : ProblemView where
  index := 1
  code := 2322
  kind := .mismatch
  source := ⟨"b.ts", 1, 5, "5", "number"⟩
  target := ⟨"a.ts", 1, 5, "x", "string"⟩
  functionName := none
  depth := 1
  suggestions := []
  prompts := ["first", "second"]

def twoPromptsText : String :=
  "Problem 1: TS2322 mismatch\n  source  b.ts:1:5  5: number\n  target  a.ts:1:5  x: string\n" ++
    "  [1] first\n  [2] second\n"

/-- A problem with two candidates, the second of which edits two files. -/
def twoCandidates : Presentation :=
  .betweenNodes [[⟨.convertType, 0, some 1⟩], [⟨.unionType, 0, some 1⟩, ⟨.makeOptional, 1, none⟩]]

/-- Two lines are turned down, the third answers the first of two questions, and the second question
finds the end of the input, as does every later one. -/
theorem interactive_answers_twoPrompts :
    (∃ shown, [twoPrompts, twoPrompts].mapM (interactive ⟨false⟩).choose
        (ofText "maybe\n9\n +2\n") = ([.select 1, .quit], reading [] shown) ∧
      shown = twoPromptsText ++
        "Choose 1-2, s to skip, q to quit: Unrecognised answer `maybe`\n" ++
        "Choose 1-2, s to skip, q to quit: Unrecognised answer `9`\n" ++
        "Choose 1-2, s to skip, q to quit: \n" ++ twoPromptsText ++
        "Choose 1-2, s to skip, q to quit: \n" ∧
      [twoPrompts].mapM (interactive ⟨false⟩).choose (reading [] shown) =
        ([.quit], reading [] (shown ++ twoPromptsText ++
          "Choose 1-2, s to skip, q to quit: \n"))) ∧
    ((interactive ⟨false⟩).choose (twoCandidates.view 1) (reading [" 2\r\n"] "")).1 = .select 1 ∧
    ((twoCandidates.present (World.host.presenter ⟨false⟩ .none) .start
        ⟨⟨∅⟩, reading [" 2\r\n"] ""⟩).1.2.pending.of "b.ts" = [⟨.makeOptional, 1, none⟩]) := by
  obtain ⟨hdialogue, -, hnumber, hselect⟩ := interactive_answers ⟨false⟩
  refine ⟨?_, ?_⟩
  · obtain ⟨lines, decisions, rest, shown, -, -, hrun, hexhausted⟩ :=
      hdialogue "maybe\n9\n +2\n" [twoPrompts, twoPrompts]
    have hvalue : ([twoPrompts, twoPrompts].mapM (interactive ⟨false⟩).choose
          (ofText "maybe\n9\n +2\n")).1 = [.select 1, .quit] ∧
        ([twoPrompts, twoPrompts].mapM (interactive ⟨false⟩).choose
          (ofText "maybe\n9\n +2\n")).2.input = [] ∧
        ([twoPrompts, twoPrompts].mapM (interactive ⟨false⟩).choose
          (ofText "maybe\n9\n +2\n")).2.screen.text = twoPromptsText ++
            "Choose 1-2, s to skip, q to quit: Unrecognised answer `maybe`\n" ++
            "Choose 1-2, s to skip, q to quit: Unrecognised answer `9`\n" ++
            "Choose 1-2, s to skip, q to quit: \n" ++ twoPromptsText ++
            "Choose 1-2, s to skip, q to quit: \n" := by
      decide +kernel
    rw [hrun] at hvalue
    obtain ⟨rfl, hinput, hshown⟩ := hvalue
    obtain rfl : rest = [] := List.map_eq_nil_iff.1 hinput
    have htranscript : transcript ⟨false⟩ twoPrompts [] =
        twoPromptsText ++ "Choose 1-2, s to skip, q to quit: \n" := by decide +kernel
    have hlater := hexhausted rfl [twoPrompts]
    rw [List.map_singleton, htranscript, String.join_cons, String.join_nil, String.append_empty,
      ← String.append_assoc] at hlater
    exact ⟨shown, hrun, hshown, hlater⟩
  · have hchoose := (hnumber (twoCandidates.view 1)).2 (by decide) 1 (by decide) " " "\r\n"
      (by decide) (by decide) [] ""
    have hline : " " ++ toString (1 + 1) ++ "\r\n" = " 2\r\n" := by decide
    rw [hline] at hchoose
    refine ⟨by rw [hchoose], ?_⟩
    obtain ⟨candidate, hcandidate, hpresent⟩ := hselect .none twoCandidates .start
      ⟨⟨∅⟩, reading [" 2\r\n"] ""⟩ _ 1 rfl (by decide)
      (congrArg (fun result : Decision × Console =>
        (result.1, (⟨⟨∅⟩, result.2⟩ : World))) hchoose)
    cases hcandidate
    rw [hpresent]
    decide +kernel

end Console

end TypeMend
