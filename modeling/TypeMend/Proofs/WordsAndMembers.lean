import TypeMend.Proofs.Acceptance

/-!
# Words and members of a type text

A type text is taken apart in two ways: at its blanks into words, and at its top-level bars into the
members of a union. Either way the parts can be joined again, with a space or with a bar between
spaces, and the joined text has the same parts. A normalized text is its words joined, so it stands
for all texts with these words. The two cuts do not get in each other's way: it makes no difference
whether blanks are normalized before a union is split or afterwards, in each member.
-/
namespace TypeMend

namespace Text

theorem isBlank_of_head?_trimStart {cs : List Char} {c : Char}
    (h : (trimStart cs).head? = some c) : isBlank c = false := by
  have hhead := List.head?_dropWhile_not isBlank cs
  rw [← trimStart, h] at hhead
  exact hhead

theorem isBlank_of_head?_trim {cs : List Char} {c : Char} (h : (trim cs).head? = some c) :
    isBlank c = false := by
  obtain ⟨blanks, htrim⟩ := trimEnd_isPrefix (trimStart cs)
  refine @isBlank_of_head?_trimStart cs c ?_
  rw [← htrim, ← trim, List.head?_append, h, Option.some_or]

/-! ## Words -/

/-- The longest stretches of a text without blanks. -/
def wordChars (cs : List Char) : List (List Char) :=
  (cs.splitOnP isBlank).filter fun word => !word.isEmpty

/-- The words of a text: its longest stretches without blanks. -/
def words (text : String) : List String :=
  (wordChars text.toList).map String.ofList

theorem wordChars_append {c : Char} (hc : isBlank c = true) (cs ds : List Char) :
    wordChars (cs ++ c :: ds) = wordChars cs ++ wordChars ds := by
  rw [wordChars, List.splitOnP_append_cons _ _ hc, List.filter_append, ← wordChars, ← wordChars]

theorem wordChars_cons_of_isBlank {c : Char} (hc : isBlank c = true) (cs : List Char) :
    wordChars (c :: cs) = wordChars cs :=
  wordChars_append hc [] cs

theorem wordChars_trimStart (cs : List Char) : wordChars (trimStart cs) = wordChars cs := by
  induction cs with
  | nil => rfl
  | cons c cs ih =>
    rw [trimStart_cons]
    split_ifs with hc
    · rw [ih, wordChars_cons_of_isBlank hc]
    · rfl

theorem isBlank_of_mem_splitOnP {cs piece : List Char} (h : piece ∈ cs.splitOnP isBlank) :
    ∀ c ∈ piece, isBlank c = false := by
  induction cs generalizing piece with
  | nil => simp_all
  | cons d cs ih =>
    rw [List.splitOnP_cons_eq_if_modifyHead] at h
    split_ifs at h with hd
    · rcases List.mem_cons.1 h with rfl | h
      · simp
      · exact ih h
    · obtain ⟨first, rest, hpieces⟩ := List.exists_cons_of_ne_nil (List.splitOnP_ne_nil isBlank cs)
      rw [hpieces, List.modifyHead_cons, List.mem_cons] at h
      rcases h with rfl | h
      · have hfirst : ∀ c ∈ first, isBlank c = false := ih (by simp [hpieces])
        simpa [hd] using hfirst
      · exact ih (by simp [hpieces, h])

/-- A word is not empty and has no blank. -/
theorem of_mem_wordChars {cs word : List Char} (h : word ∈ wordChars cs) :
    word ≠ [] ∧ ∀ c ∈ word, isBlank c = false := by
  obtain ⟨hpiece, hne⟩ := List.mem_filter.1 h
  exact ⟨by simpa using hne, isBlank_of_mem_splitOnP hpiece⟩

/-- Words that are joined with spaces are read back. -/
theorem wordChars_intercalate {ws : List (List Char)}
    (h : ∀ word ∈ ws, word ≠ [] ∧ ∀ c ∈ word, isBlank c = false) :
    wordChars ([' '].intercalate ws) = ws := by
  have hspace : isBlank ' ' = true := by decide
  have hword : ∀ word ∈ ws, wordChars word = [word] := by
    intro word hmem
    rw [wordChars, List.splitOnP_eq_singleton (h word hmem).2]
    simp [(h word hmem).1]
  induction ws with
  | nil => rfl
  | cons word ws ih =>
    rw [List.forall_mem_cons] at h hword
    cases ws with
    | nil => simpa using hword.1
    | cons next ws =>
      rw [List.intercalate_cons_cons, List.append_assoc, List.singleton_append,
        wordChars_append hspace, hword.1, ih h.2 hword.2]
      rfl

theorem intercalate_space_cons (word : List Char) (ws : List (List Char)) :
    [' '].intercalate (word :: ws) = word ++ ws.flatMap (' ' :: ·) := by
  induction ws generalizing word with
  | nil => simp
  | cons next ws ih => simp [List.intercalate_cons_cons, ih]

end Text

namespace TypeText

open Text

/-- Without blanks in front of it, a text collapses to its first stretch and the words behind it,
each with a space before it. After a blank all its words have one. -/
theorem collapse_eq {cs first : List Char} {rest : List (List Char)}
    (h : cs.splitOnP isBlank = first :: rest) :
    collapse false cs = first ++ (rest.filter fun word => !word.isEmpty).flatMap (' ' :: ·) ∧
      collapse true cs = (wordChars cs).flatMap (' ' :: ·) := by
  induction cs generalizing first rest with
  | nil =>
    obtain ⟨rfl, rfl⟩ := List.cons.inj h
    exact ⟨rfl, rfl⟩
  | cons c cs ih =>
    obtain ⟨piece, pieces, hpieces⟩ :=
      List.exists_cons_of_ne_nil (List.splitOnP_ne_nil isBlank cs)
    obtain ⟨hfalse, htrue⟩ := ih hpieces
    rw [List.splitOnP_cons_eq_if_modifyHead] at h
    by_cases hc : isBlank c = true
    · rw [if_pos hc] at h
      obtain ⟨rfl, rfl⟩ := List.cons.inj h
      rw [wordChars_cons_of_isBlank hc]
      simp only [collapse, hc, if_true]
      exact ⟨htrue, htrue⟩
    · rw [if_neg hc, hpieces, List.modifyHead_cons] at h
      obtain ⟨rfl, rfl⟩ := List.cons.inj h
      simp [collapse, hc, hfalse, wordChars, List.splitOnP_cons_eq_if_modifyHead, hpieces]

/-- A normalized text is its words joined with spaces. -/
theorem normalizeChars_eq (cs : List Char) :
    normalizeChars cs = [' '].intercalate (wordChars cs) := by
  rw [normalizeChars, ← wordChars_trimStart]
  cases hcs : trimStart cs with
  | nil => rfl
  | cons c ds =>
    have hc : isBlank c = false := isBlank_of_head?_trimStart (by rw [hcs, List.head?_cons])
    obtain ⟨piece, pieces, hpieces⟩ :=
      List.exists_cons_of_ne_nil (List.splitOnP_ne_nil isBlank ds)
    have hsplit : (c :: ds).splitOnP isBlank = (c :: piece) :: pieces := by
      simp [List.splitOnP_cons_eq_if_modifyHead, hc, hpieces]
    rw [(collapse_eq hsplit).1, wordChars, hsplit, List.filter_cons_of_pos (by simp),
      intercalate_space_cons]

theorem wordChars_normalizeChars (cs : List Char) :
    wordChars (normalizeChars cs) = wordChars cs := by
  rw [normalizeChars_eq, wordChars_intercalate fun _ => of_mem_wordChars]

theorem normalize_eq_intercalate (text : String) :
    normalize text = " ".intercalate (words text) := by
  rw [← String.toList_inj, normalize, String.toList_ofList, normalizeChars_eq,
    String.toList_intercalate, words, List.map_map]
  simp [Function.comp_def]

theorem normalize_eq_normalize_iff (a b : String) :
    normalize a = normalize b ↔ words a = words b := by
  constructor
  · intro h
    rw [normalize_eq_iff] at h
    rw [words, ← wordChars_normalizeChars, h, wordChars_normalizeChars, words]
  · intro h
    rw [normalize_eq_intercalate, h, ← normalize_eq_intercalate]

/-- A normalized text is the words of a text joined with spaces, so that it tells which words a text
has and nothing else. Normalizing again changes nothing, and normalizing before a union is split
comes to normalizing each member. So whether a type is accepted by another, which is decided on
normalized texts, depends on the members as they are written; and whether a written type has a type
as a member already, which is asked of its members one by one, can be asked of its normalized
text. -/
theorem normalize_joins_words :
    (∀ text, normalize text = " ".intercalate (words text)) ∧
      (∀ a b, normalize a = normalize b ↔ words a = words b) ∧
      (∀ text, normalize (normalize text) = normalize text) ∧
      (∀ text, splitUnion (normalize text) = (splitUnion text).map normalize) ∧
      (∀ source target, assignable source target = true ↔
        Outright source target ∨ Memberwise Belongs source target) ∧
      ∀ declared other : Node, Patch.widen declared other = .satisfied ↔
        normalize other.typeText ∈ splitUnion (normalize declared.text) := by
  refine ⟨normalize_eq_intercalate, normalize_eq_normalize_iff, normalize_normalize,
    splitUnion_normalize, assignable_iff_belongs, fun declared other => ?_⟩
  rw [splitUnion_normalize, Patch.widen_eq]
  split_ifs with hmember <;> simp only [hmember]

/-! ## Members joined again -/

theorem depthEnd_append_of_isBlank {c : Char} (hc : isBlank c = true) (depth : Int)
    (afterEquals : Bool) (cs : List Char) :
    depthEnd depth afterEquals (cs ++ [c]) = depthEnd depth afterEquals cs := by
  have hclose : c ≠ '>' := by
    rintro rfl
    exact absurd hc (by decide)
  rw [depthEnd_snoc _ _ _ hclose, depthAfter_of_isBlank hc]

theorem depthEnd_trimEnd (depth : Int) (afterEquals : Bool) (cs : List Char) :
    depthEnd depth afterEquals (trimEnd cs) = depthEnd depth afterEquals cs := by
  induction cs using List.reverseRecOn with
  | nil => rfl
  | append_singleton cs c ih =>
    by_cases hc : isBlank c = true
    · rw [trimEnd_append_of_isBlank hc, depthEnd_append_of_isBlank hc, ih]
    · rw [trimEnd_append_of_not_isBlank (by simpa using hc)]

theorem depthEnd_trim (cs : List Char) : depthEnd 0 false (trim cs) = depthEnd 0 false cs := by
  rw [trim, depthEnd_trimEnd]
  induction cs with
  | nil => rfl
  | cons c cs ih =>
    rw [trimStart_cons]
    split_ifs with hc
    · have hequals : (c == '=') = false := by
        rw [beq_eq_false_iff_ne]
        rintro rfl
        exact absurd hc (by decide)
      rw [ih, depthEnd, depthAfter_of_isBlank hc, hequals]
    · rfl

/-- The scan is at depth zero at the end of each piece but the last: a bar ends the piece there. -/
theorem pieces_closed (depth : Int) (afterEquals : Bool) (cs : List Char) :
    ∃ front last, pieces depth afterEquals cs = front ++ [last] ∧
      ∀ first rest, front = first :: rest → depthEnd depth afterEquals first = 0 ∧
        ∀ piece ∈ rest, depthEnd 0 false piece = 0 := by
  induction cs generalizing depth afterEquals with
  | nil => exact ⟨[], [], rfl, by simp⟩
  | cons c cs ih =>
    rw [pieces_cons]
    split_ifs with hbar
    · obtain ⟨front, last, hpieces, hclosed⟩ := ih 0 false
      refine ⟨[] :: front, last, by rw [hpieces, List.cons_append], ?_⟩
      rintro _ _ ⟨rfl, rfl⟩
      refine ⟨hbar.2, fun piece hpiece => ?_⟩
      cases front with
      | nil => cases hpiece
      | cons first rest =>
        obtain ⟨hfirst, hrest⟩ := hclosed first rest rfl
        rcases List.mem_cons.1 hpiece with rfl | hpiece
        · exact hfirst
        · exact hrest piece hpiece
    · obtain ⟨front, last, hpieces, hclosed⟩ := ih (depthAfter depth afterEquals c) (c == '=')
      rw [hpieces]
      cases front with
      | nil => exact ⟨[], c :: last, rfl, by simp⟩
      | cons first rest =>
        refine ⟨(c :: first) :: rest, last, rfl, ?_⟩
        rintro _ _ ⟨rfl, rfl⟩
        exact hclosed first rest rfl

/-- Each member but the last leaves the scan at depth zero. -/
theorem members_closed {cs member : List Char} (h : member ∈ (members cs).dropLast) :
    depthEnd 0 false member = 0 := by
  obtain ⟨front, last, hpieces, hclosed⟩ := pieces_closed 0 false cs
  have hfront : ∀ piece ∈ front, depthEnd 0 false piece = 0 := by
    cases front with
    | nil => simp
    | cons first rest => exact List.forall_mem_cons.2 (hclosed first rest rfl)
  have hmem : member ∈ front.map trim := by
    rw [members, hpieces, List.map_append, List.filter_append, List.map_singleton] at h
    by_cases hlast : (trim last).isEmpty = true
    · rw [List.filter_cons_of_neg (by simp [hlast]), List.filter_nil, List.append_nil] at h
      exact (List.mem_filter.1 (List.mem_of_mem_dropLast h)).1
    · rw [List.filter_cons_of_pos (by simp [hlast]), List.filter_nil, List.dropLast_concat] at h
      exact (List.mem_filter.1 h).1
  obtain ⟨piece, hpiece, rfl⟩ := List.mem_map.1 hmem
  rw [depthEnd_trim, hfront piece hpiece]

/-- Members that are joined with bars are read back, when each but the last leaves the scan at depth
zero. -/
theorem members_intercalate {ms : List (List Char)}
    (hself : ∀ member ∈ ms, members member = [member])
    (hclosed : ∀ member ∈ ms.dropLast, depthEnd 0 false member = 0) :
    members ([' ', '|', ' '].intercalate ms) = ms := by
  have hspace : isBlank ' ' = true := by decide
  induction ms with
  | nil => rfl
  | cons member ms ih =>
    rw [List.forall_mem_cons] at hself
    cases ms with
    | nil => simpa using hself.1
    | cons next ms =>
      rw [List.dropLast_cons_of_ne_nil (by simp), List.forall_mem_cons] at hclosed
      have hdepth : depthEnd 0 false (member ++ [' ']) = 0 := by
        rw [depthEnd_append_of_isBlank hspace, hclosed.1]
      have hjoin : [' ', '|', ' '].intercalate (member :: next :: ms) =
          member ++ [' '] ++ '|' :: ' ' :: [' ', '|', ' '].intercalate (next :: ms) := by
        simp [List.intercalate_cons_cons]
      rw [hjoin, members_append_bar hdepth, members_append_of_isBlank hspace,
        members_cons_of_isBlank hspace, hself.1, ih hself.2 hclosed.2]
      rfl

theorem splitUnion_intercalate (text : String) :
    splitUnion (" | ".intercalate (splitUnion text)) = splitUnion text := by
  have hread : members ([' ', '|', ' '].intercalate (members text.toList)) = members text.toList :=
    members_intercalate (fun _ => members_of_mem_members) fun _ => members_closed
  rw [splitUnion, String.toList_intercalate, splitUnion, List.map_map]
  simpa [Function.comp_def] using congrArg (List.map String.ofList) hread

theorem splitUnion_append_bar {front : String} (h : depthEnd 0 false front.toList = 0)
    (back : String) : splitUnion (front ++ "|" ++ back) = splitUnion front ++ splitUnion back := by
  have htext : (front ++ "|" ++ back).toList = front.toList ++ '|' :: back.toList := by simp
  rw [splitUnion, htext, members_append_bar h, List.map_append, ← splitUnion, ← splitUnion]

/-- A member has no members but itself, and neither begins nor ends with a blank. -/
theorem of_mem_splitUnion {text member : String} (h : member ∈ splitUnion text) :
    member ≠ "" ∧ (∀ c ∈ member.toList.head?, isBlank c = false) ∧
      (∀ c ∈ member.toList.getLast?, isBlank c = false) ∧ splitUnion member = [member] := by
  have hsplit := splitUnion_of_mem_splitUnion h
  obtain ⟨cs, hcs, rfl⟩ := List.mem_map.1 h
  obtain ⟨htrim, hne⟩ := List.mem_filter.1 hcs
  obtain ⟨piece, -, rfl⟩ := List.mem_map.1 htrim
  rw [String.toList_ofList]
  refine ⟨fun hempty => ?_, fun c hc => isBlank_of_head?_trim hc,
    fun c hc => isBlank_of_getLast?_trimEnd hc, hsplit⟩
  rw [hempty] at hsplit
  exact absurd hsplit (by decide)

/-- Splitting a union gives members that are not empty, have no blanks around them and cannot be
split any further. Joined with bars and split again they are the same. A bar between two texts
separates them if the first leaves the scan at depth zero, where the `>` of an arrow closes
nothing. -/
theorem splitUnion_laws :
    (∀ text, ∀ member ∈ splitUnion text, member ≠ "" ∧
      (∀ c ∈ member.toList.head?, isBlank c = false) ∧
      (∀ c ∈ member.toList.getLast?, isBlank c = false) ∧ splitUnion member = [member]) ∧
    (∀ text, splitUnion (" | ".intercalate (splitUnion text)) = splitUnion text) ∧
    ∀ front back : String, depthEnd 0 false front.toList = 0 →
      splitUnion (front ++ "|" ++ back) = splitUnion front ++ splitUnion back :=
  ⟨fun _ _ => of_mem_splitUnion, splitUnion_intercalate,
    fun _ back h => splitUnion_append_bar h back⟩

/-- A text with an arrow, a bar inside brackets, an empty piece and a bracket that nothing opens. -/
def raggedUnion : String :=
  " (a: A | B)  => C || \x7b k: D \x7d |E>| F "

theorem splitUnion_laws_ragged :
    splitUnion raggedUnion = ["(a: A | B)  => C", "\x7b k: D \x7d", "E>| F"] ∧
      depthEnd 0 false raggedUnion.toList = -1 ∧
      depthEnd 0 false "(a: A | B) => C".toList = 0 ∧
      splitUnion "E>| F" = ["E>| F"] ∧
      splitUnion ("(a: A | B) => C" ++ "|" ++ raggedUnion) =
        ["(a: A | B) => C", "(a: A | B)  => C", "\x7b k: D \x7d", "E>| F"] := by
  have hmembers : splitUnion raggedUnion = ["(a: A | B)  => C", "\x7b k: D \x7d", "E>| F"] := by
    decide +kernel
  have hfirst : splitUnion "(a: A | B) => C" = ["(a: A | B) => C"] := by decide +kernel
  have hdepth : depthEnd 0 false "(a: A | B) => C".toList = 0 := by decide +kernel
  obtain ⟨hself, -, happend⟩ := splitUnion_laws
  refine ⟨hmembers, by decide +kernel, hdepth, (hself raggedUnion "E>| F" ?_).2.2.2, ?_⟩
  · simp [hmembers]
  · rw [happend _ _ hdepth, hfirst, hmembers, List.singleton_append]

end TypeText

end TypeMend
