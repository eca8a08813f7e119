import TypeMend.Proofs.Widening

/-!
# Which type is accepted where another is expected

A union is accepted by another when each of its members belongs to a member of the other. The names
that accept or are accepted outright, such as `any` and `never`, have their effect on a whole text
only, so a union can be refused although each of its members is accepted by a member of the other.

Quotes mean nothing to the scan for members. A string literal is a single type, and one of type
`string`, exactly if no bar in it stands outside its brackets.
-/
namespace TypeMend

namespace Text

theorem trimEnd_isPrefix (cs : List Char) : trimEnd cs <+: cs := by
  induction cs with
  | nil => exact List.prefix_rfl
  | cons c cs ih =>
    by_cases hcs : trimEnd cs = []
    · cases hc : isBlank c <;> simp [trimEnd, hcs, hc]
    · rw [trimEnd_cons_of_ne_nil c hcs]
      exact List.prefix_cons_inj c |>.2 ih

theorem trim_subset (cs : List Char) : trim cs ⊆ cs :=
  fun _ hc => (List.dropWhile_sublist _).subset ((trimEnd_isPrefix _).subset hc)

end Text

namespace TypeText

open Text

/-! ## Members of members -/

/-- The pieces of a text are not cut any further, the first where the scan begins and the others
where it begins anew. -/
theorem pieces_uncut (depth : Int) (afterEquals : Bool) (cs : List Char) :
    ∃ piece rest, pieces depth afterEquals cs = piece :: rest ∧
      pieces depth afterEquals piece = [piece] ∧
      ∀ other ∈ rest, pieces 0 false other = [other] := by
  induction cs generalizing depth afterEquals with
  | nil => exact ⟨[], [], rfl, rfl, by simp⟩
  | cons c cs ih =>
    rw [pieces_cons]
    split_ifs with hbar
    · obtain ⟨piece, rest, hpieces, hpiece, hrest⟩ := ih 0 false
      refine ⟨[], piece :: rest, by rw [hpieces], rfl, ?_⟩
      exact List.forall_mem_cons.2 ⟨hpiece, hrest⟩
    · obtain ⟨piece, rest, hpieces, hpiece, hrest⟩ :=
        ih (depthAfter depth afterEquals c) (c == '=')
      refine ⟨c :: piece, rest, by rw [hpieces, List.modifyHead_cons], ?_, hrest⟩
      rw [pieces_cons, if_neg hbar, hpiece, List.modifyHead_cons]

theorem members_trimEnd (cs : List Char) : members (trimEnd cs) = members cs := by
  induction cs using List.reverseRecOn with
  | nil => rfl
  | append_singleton cs c ih =>
    by_cases hc : isBlank c = true
    · rw [trimEnd_append_of_isBlank hc, members_append_of_isBlank hc, ih]
    · rw [trimEnd_append_of_not_isBlank (by simpa using hc)]

/-- A member has only itself as a member. -/
theorem members_of_mem_members {cs member : List Char} (h : member ∈ members cs) :
    members member = [member] := by
  obtain ⟨htrim, hne⟩ := List.mem_filter.1 h
  obtain ⟨piece, hpiece, rfl⟩ := List.mem_map.1 htrim
  have huncut : pieces 0 false piece = [piece] := by
    obtain ⟨first, rest, hpieces, hfirst, hrest⟩ := pieces_uncut 0 false cs
    rw [hpieces, List.mem_cons] at hpiece
    rcases hpiece with rfl | hpiece
    · exact hfirst
    · exact hrest piece hpiece
  rw [trim, members_trimEnd, members_trimStart, ← trim]
  simpa [members, huncut] using hne

theorem splitUnion_of_mem_splitUnion {text member : String} (h : member ∈ splitUnion text) :
    splitUnion member = [member] := by
  obtain ⟨cs, hcs, rfl⟩ := List.mem_map.1 h
  rw [splitUnion, String.toList_ofList, members_of_mem_members hcs, List.map_singleton]

/-! ## Unions -/

/-- One of the two types is a name that accepts everything or that everything accepts. -/
def Outright (source target : String) : Prop :=
  (normalize target = "any" ∨ normalize target = "unknown") ∨
    normalize source = "any" ∨ normalize source = "never"

instance (source target : String) : Decidable (Outright source target) :=
  inferInstanceAs (Decidable (_ ∨ _))

/-- Each member of the source is related to some member of the target. -/
def Memberwise (r : String → String → Prop) (source target : String) : Prop :=
  ∀ member ∈ splitUnion source, ∃ other ∈ splitUnion target, r member other

instance (r : String → String → Prop) [∀ a b, Decidable (r a b)] (source target : String) :
    Decidable (Memberwise r source target) :=
  inferInstanceAs (Decidable (∀ member ∈ splitUnion source, ∃ other ∈ splitUnion target, _))

theorem splitUnion_normalize (text : String) :
    splitUnion (normalize text) = (splitUnion text).map normalize := by
  rw [normalize, splitUnion, splitUnion, String.toList_ofList, members_normalizeChars]
  simp [normalize, Function.comp_def]

theorem exists_belongs_of_normalize_eq {source target : String}
    (h : normalize source = normalize target) {member : String}
    (hmember : member ∈ splitUnion source) : ∃ other ∈ splitUnion target, Belongs member other := by
  have hsame : normalize member ∈ (splitUnion target).map normalize := by
    rw [← splitUnion_normalize, ← h, splitUnion_normalize]
    exact List.mem_map_of_mem hmember
  obtain ⟨other, hother, heq⟩ := List.mem_map.1 hsame
  exact ⟨other, hother, .inl heq.symm⟩

/-- A type is accepted outright, or when each of its members belongs to a member of the other. -/
theorem assignable_iff_belongs (source target : String) : assignable source target = true ↔
    Outright source target ∨ Memberwise Belongs source target := by
  rw [assignable_iff, or_iff_right_of_imp fun h => .inr (.inr (.inr (.inr fun _ hmember =>
    exists_belongs_of_normalize_eq h hmember))), Outright, Memberwise]
  simp only [or_assoc]

theorem assignable_iff_of_members {source target member other : String}
    (hmember : member ∈ splitUnion source) (hother : other ∈ splitUnion target) :
    assignable member other = true ↔ Outright member other ∨ Belongs member other := by
  rw [assignable_iff_belongs, Memberwise, splitUnion_of_mem_splitUnion hmember,
    splitUnion_of_mem_splitUnion hother]
  simp

/-- A name has no other member than itself, whatever blanks are around it. -/
theorem normalize_of_mem_splitUnion {text name member : String} (h : normalize text = name)
    (hname : splitUnion name = [name]) (hmember : member ∈ splitUnion text) :
    normalize member = name := by
  have hmem := List.mem_map_of_mem (f := normalize) hmember
  rw [← splitUnion_normalize, h, hname] at hmem
  exact List.mem_singleton.1 hmem

/-- What is accepted outright is so member by member. -/
theorem Outright.of_members {source target member other : String} (h : Outright source target)
    (hmember : member ∈ splitUnion source) (hother : other ∈ splitUnion target) :
    Outright member other := by
  have hnames : ∀ name ∈ ["any", "unknown", "never"], splitUnion name = [name] := by
    decide +kernel
  rcases h with (h | h) | h | h
  · exact .inl (.inl (normalize_of_mem_splitUnion h (hnames _ (by simp)) hother))
  · exact .inl (.inr (normalize_of_mem_splitUnion h (hnames _ (by simp)) hother))
  · exact .inr (.inl (normalize_of_mem_splitUnion h (hnames _ (by simp)) hmember))
  · exact .inr (.inr (normalize_of_mem_splitUnion h (hnames _ (by simp)) hmember))

/-- A type is accepted when it is so member by member, and either outright or with each member
belonging to a member of the other. So the names count as whole texts only. Where no name is among
the members, being accepted member by member is all there is to it. -/
theorem assignable_iff_members {source target : String} (htarget : splitUnion target ≠ []) :
    (assignable source target = true ↔ Memberwise (assignable · · = true) source target ∧
        (Outright source target ∨ Memberwise Belongs source target)) ∧
      ((∀ member ∈ splitUnion source, ∀ other ∈ splitUnion target, ¬Outright member other) →
        (assignable source target = true ↔
          Memberwise (assignable · · = true) source target)) ∧
      ∀ member ∈ splitUnion source, ∀ other ∈ splitUnion target,
        (assignable member other = true ↔ Outright member other ∨ Belongs member other) := by
  have hbelongs : Memberwise Belongs source target →
      Memberwise (assignable · · = true) source target := by
    intro h member hmember
    obtain ⟨other, hother, hbelongs⟩ := h member hmember
    exact ⟨other, hother, (assignable_iff_of_members hmember hother).2 (.inr hbelongs)⟩
  have houtright : Outright source target →
      Memberwise (assignable · · = true) source target := by
    intro h member hmember
    obtain ⟨other, hother⟩ := List.exists_mem_of_ne_nil _ htarget
    exact ⟨other, hother,
      (assignable_iff_of_members hmember hother).2 (.inl (h.of_members hmember hother))⟩
  refine ⟨?_, fun hnone => ?_, fun _ hmember _ hother => assignable_iff_of_members hmember hother⟩
  · rw [assignable_iff_belongs]
    exact (and_iff_right_of_imp (Or.rec houtright hbelongs)).symm
  · rw [assignable_iff_belongs]
    refine ⟨Or.rec houtright hbelongs, fun h => .inr fun member hmember => ?_⟩
    obtain ⟨other, hother, haccepted⟩ := h member hmember
    refine ⟨other, hother, ?_⟩
    exact ((assignable_iff_of_members hmember hother).1 haccepted).resolve_left
      (hnone member hmember other hother)

/-- Two literals are accepted together with a type, since each of the three is by a member. -/
theorem assignable_iff_members_switch :
    splitUnion "string | number | null" ≠ [] ∧
      (∀ member ∈ splitUnion "\"on\" | 'off' | number",
        ∀ other ∈ splitUnion "string | number | null", ¬Outright member other) ∧
      Memberwise (assignable · · = true) "\"on\" | 'off' | number" "string | number | null" ∧
      assignable "\"on\" | 'off' | number" "string | number | null" = true := by
  have htarget : splitUnion "string | number | null" ≠ [] := by decide +kernel
  have hnone : ∀ member ∈ splitUnion "\"on\" | 'off' | number",
      ∀ other ∈ splitUnion "string | number | null", ¬Outright member other := by
    decide +kernel
  have hmembers :
      Memberwise (assignable · · = true) "\"on\" | 'off' | number" "string | number | null" := by
    decide +kernel
  exact ⟨htarget, hnone, hmembers, ((assignable_iff_members htarget).2.1 hnone).2 hmembers⟩

/-- Everything accepts `never` and `number` is accepted by itself, but their union is not. -/
theorem assignable_never_in_union :
    splitUnion "number" ≠ [] ∧
      Memberwise (assignable · · = true) "number | never" "number" ∧
      assignable "number | never" "number" = false := by
  decide +kernel

/-! ## String literals -/

/-- Whether a bar of a text stands outside its brackets. -/
def HasTopBar (cs : List Char) : Prop :=
  ∃ front rest, cs = front ++ '|' :: rest ∧ depthEnd 0 false front = 0

instance (cs : List Char) : Decidable (HasTopBar cs) :=
  decidable_of_iff
    (∃ n < cs.length, (cs.drop n).head? = some '|' ∧ depthEnd 0 false (cs.take n) = 0) <| by
    constructor
    · rintro ⟨n, -, hbar, hdepth⟩
      refine ⟨cs.take n, (cs.drop n).tail, ?_, hdepth⟩
      rw [List.cons_head?_tail hbar, List.take_append_drop]
    · rintro ⟨front, rest, rfl, hdepth⟩
      exact ⟨front.length, by simp, by simp, by simpa using hdepth⟩

/-- A text between two quotes. -/
def quoted (quote : Char) (content : String) : String :=
  String.ofList (quote :: content.toList ++ [quote])

theorem subset_of_mem_pieces {depth : Int} {afterEquals : Bool} {cs piece : List Char}
    (h : piece ∈ pieces depth afterEquals cs) : piece ⊆ cs := by
  induction cs generalizing depth afterEquals piece with
  | nil => simp_all [pieces]
  | cons c cs ih =>
    rw [pieces_cons] at h
    split_ifs at h
    · rcases List.mem_cons.1 h with rfl | h
      · simp
      · exact List.subset_cons_of_subset c (ih h)
    · obtain ⟨first, rest, hpieces⟩ := List.exists_cons_of_ne_nil
        (pieces_ne_nil (depthAfter depth afterEquals c) (c == '=') cs)
      rw [hpieces, List.modifyHead_cons, List.mem_cons] at h
      rcases h with rfl | h
      · exact List.cons_subset_cons c (ih (hpieces ▸ List.mem_cons_self))
      · exact List.subset_cons_of_subset c (ih (hpieces ▸ List.mem_cons_of_mem _ h))

theorem subset_of_mem_members {cs member : List Char} (h : member ∈ members cs) : member ⊆ cs := by
  obtain ⟨htrim, -⟩ := List.mem_filter.1 h
  obtain ⟨piece, hpiece, rfl⟩ := List.mem_map.1 htrim
  exact List.Subset.trans (trim_subset piece) (subset_of_mem_pieces hpiece)

theorem collapse_snoc {c : Char} (hc : isBlank c = false) (pending : Bool) (cs : List Char) :
    ∃ front, collapse pending (cs ++ [c]) = front ++ [c] := by
  induction cs generalizing pending with
  | nil =>
    cases pending with
    | false => exact ⟨[], by simp [collapse, hc]⟩
    | true => exact ⟨[' '], by simp [collapse, hc]⟩
  | cons d cs ih =>
    obtain ⟨front, hfront⟩ := ih (isBlank d)
    by_cases hd : isBlank d = true
    · exact ⟨front, by simpa [collapse, hd] using hfront⟩
    · rw [Bool.eq_false_of_not_eq_true hd] at hfront
      cases pending with
      | false => exact ⟨d :: front, by simp [collapse, hd, hfront]⟩
      | true => exact ⟨' ' :: d :: front, by simp [collapse, hd, hfront]⟩

section Literal

variable {quote : Char} (hquote : quote = '"' ∨ quote = '\'')
include hquote

theorem isBlank_quote : isBlank quote = false := by
  rcases hquote with rfl | rfl <;> decide

theorem depthEnd_quote (cs : List Char) :
    depthEnd 0 false (quote :: cs) = depthEnd 0 false cs := by
  rcases hquote with rfl | rfl <;> rfl

/-- Without a bar outside its brackets, a literal is its own only member. -/
theorem members_quoted {content : List Char} (hbar : ¬HasTopBar content) :
    members (quote :: content ++ [quote]) = [quote :: content ++ [quote]] := by
  have hchar : quote ≠ '|' ∧ isBlank quote = false := by
    rcases hquote with rfl | rfl <;> decide
  refine members_enclosed hchar hchar fun front rest heq hdepth => ?_
  rw [← depthEnd, depthEnd_quote hquote] at hdepth
  exact hbar ⟨front, rest, heq, hdepth⟩

/-- With a bar outside its brackets, a literal has a member that begins with its quote and has no
other. -/
theorem exists_mem_members_quoted {content : List Char} (hcontent : quote ∉ content)
    (hbar : HasTopBar content) :
    ∃ rest, quote :: rest ∈ members (quote :: content ++ [quote]) ∧ quote ∉ rest := by
  obtain ⟨front, back, rfl, hdepth⟩ := hbar
  have hne : quote ≠ '|' := by rcases hquote with rfl | rfl <;> decide
  have hfront : quote ∉ front := fun h => hcontent (List.mem_append_left _ h)
  obtain ⟨piece, rest, hpieces⟩ := List.exists_cons_of_ne_nil
    (pieces_ne_nil (depthAfter 0 false quote) (quote == '=') front)
  have hpiece : quote ∉ piece := fun h =>
    hfront (subset_of_mem_pieces (hpieces ▸ List.mem_cons_self) h)
  refine ⟨trimEnd piece, ?_, fun h => hpiece ((trimEnd_isPrefix piece).subset h)⟩
  have hsplit : quote :: (front ++ '|' :: back) ++ [quote] =
      (quote :: front) ++ '|' :: (back ++ [quote]) := by simp
  rw [hsplit, members_append_bar (by rw [depthEnd_quote hquote, hdepth]), List.mem_append]
  left
  rw [members, pieces_cons, if_neg (by simp [hne]), hpieces, List.modifyHead_cons, List.map_cons,
    trim_cons_of_not_isBlank (isBlank_quote hquote)]
  simp

theorem literalWidens_lone_quote {rest : List Char} (hrest : quote ∉ rest)
    (primitive : List Char) : literalWidens (quote :: rest) primitive = false := by
  have hquotedBy (other : Char) : quotedBy other (quote :: rest) = false := by
    by_contra h
    obtain ⟨hhead, hlast, hne⟩ :
        quote = other ∧ (quote :: rest).getLast? = some other ∧ rest ≠ [] := by
      simpa [quotedBy] using h
    subst hhead
    obtain ⟨d, ds, rfl⟩ := List.exists_cons_of_ne_nil hne
    rw [List.getLast?_cons_cons] at hlast
    exact hrest (List.mem_of_getLast? hlast)
  have hlower : quote.toLower = quote := by
    rcases hquote with rfl | rfl <;> decide
  have hnumeric : isNumeric (quote :: rest) = false := by
    rcases hquote with rfl | rfl <;> simp [isNumeric, dropSign, isNonFinite, isDigit, hlower]
  have hword {word : List Char} (hword : quote ∉ word) : (quote :: rest == word) = false := by
    rw [beq_eq_false_iff_ne]
    rintro rfl
    exact hword List.mem_cons_self
  have hletters : quote ∉ "true".toList ∧ quote ∉ "false".toList := by
    rcases hquote with rfl | rfl <;> decide +kernel
  unfold literalWidens
  split_ifs
  · simp only [hquotedBy, Bool.or_self]
  · exact hnumeric
  · rw [hword hletters.1, hword hletters.2, Bool.or_self]
  · rfl

/-- What begins with a quote and has no other is neither a literal nor a text without the quote. -/
theorem not_belongs_of_lone_quote {rest : List Char} (hrest : quote ∉ rest) {other : String}
    (hother : quote ∉ other.toList) : ¬Belongs (String.ofList (quote :: rest)) other := by
  have hblank := isBlank_quote hquote
  have hcollapse : quote ∉ collapse false rest := by
    intro h
    have hmem : quote ∈ solid (collapse false rest) := by simp [solid, h, hblank]
    rw [solid_collapse] at hmem
    exact hrest (List.mem_of_mem_filter hmem)
  rintro (hsame | hliteral)
  · rw [normalize_eq_iff, String.toList_ofList, normalizeChars_cons hblank] at hsame
    exact hother ((mem_normalizeChars_iff hblank _).1 (hsame ▸ List.mem_cons_self))
  · rw [String.toList_ofList, normalizeChars_cons hblank,
      literalWidens_lone_quote hquote hcollapse] at hliteral
    cases hliteral

theorem belongs_quoted_string (content : String) : Belongs (quoted quote content) "string" := by
  have hblank := isBlank_quote hquote
  have hstring : normalizeChars "string".toList = "string".toList := by decide +kernel
  obtain ⟨front, hfront⟩ := collapse_snoc hblank false content.toList
  have hlast : (quote :: (front ++ [quote])).getLast? = some quote := by
    rw [← List.cons_append, List.getLast?_concat]
  right
  rw [quoted, String.toList_ofList, List.cons_append, normalizeChars_cons hblank, hfront, hstring]
  rcases hquote with rfl | rfl <;> simp [literalWidens, quotedBy, hlast]

/-- A literal without a bar outside its brackets, and only such a literal, is accepted by a type
that has `string` as a member. -/
theorem assignable_quoted_iff {content target : String} (hcontent : quote ∉ content.toList)
    (htarget : quote ∉ target.toList) (hstring : "string" ∈ splitUnion target)
    (hname : normalize target ≠ "any" ∧ normalize target ≠ "unknown") :
    assignable (quoted quote content) target = true ↔ ¬HasTopBar content.toList := by
  have hblank := isBlank_quote hquote
  have hmem : quote ∈ (quoted quote content).toList := by simp [quoted]
  have houtright : ¬Outright (quoted quote content) target := by
    have hany : normalize (quoted quote content) ≠ "any" :=
      normalize_ne_of_mem hmem hblank (by rcases hquote with rfl | rfl <;> decide)
    have hnever : normalize (quoted quote content) ≠ "never" :=
      normalize_ne_of_mem hmem hblank (by rcases hquote with rfl | rfl <;> decide)
    simp [Outright, hname, hany, hnever]
  have hsplit : splitUnion (quoted quote content) =
      (members (quote :: content.toList ++ [quote])).map String.ofList := by
    rw [splitUnion, quoted, String.toList_ofList]
  rw [assignable_iff_belongs, or_iff_right houtright]
  constructor
  · intro hbelongs hbar
    obtain ⟨rest, hrest, hlone⟩ := exists_mem_members_quoted hquote hcontent hbar
    obtain ⟨other, hother, hsame⟩ := hbelongs _ (hsplit ▸ List.mem_map_of_mem hrest)
    obtain ⟨cs, hcs, rfl⟩ := List.mem_map.1 hother
    refine not_belongs_of_lone_quote hquote hlone ?_ hsame
    rw [String.toList_ofList]
    exact fun h => htarget (subset_of_mem_members hcs h)
  · intro hbar member hmember
    rw [hsplit, members_quoted hquote hbar, List.map_singleton, List.mem_singleton] at hmember
    exact ⟨"string", hstring, hmember ▸ belongs_quoted_string hquote content⟩

end Literal

theorem string_mem_splitUnion (other : String) : "string" ∈ splitUnion ("string | " ++ other) := by
  have htext : ("string | " ++ other).toList = "string ".toList ++ '|' :: ' ' :: other.toList := by
    simp
  rw [splitUnion, htext, members_append_bar (by decide)]
  have hstring : String.ofList "string".toList = "string" := String.ofList_toList
  exact hstring ▸ List.mem_map_of_mem (List.mem_append_left _ (by decide +kernel))

/-- A string literal is accepted by `string`, and by a union that begins with `string`, exactly if
no bar in it stands outside its brackets. -/
theorem string_accepts_literal_iff {quote : Char} (hquote : quote = '"' ∨ quote = '\'')
    {content other : String} (hcontent : quote ∉ content.toList)
    (hother : quote ∉ other.toList) :
    (assignable (quoted quote content) "string" = true ↔ ¬HasTopBar content.toList) ∧
      (assignable (quoted quote content) ("string | " ++ other) = true ↔
        ¬HasTopBar content.toList) := by
  have hletters : quote ∉ "string | ".toList := by
    rcases hquote with rfl | rfl <;> decide +kernel
  have hbar : '|' ∈ ("string | " ++ other).toList := by simp
  have hblank : isBlank '|' = false := by decide
  constructor
  · refine assignable_quoted_iff hquote hcontent ?_ (by decide +kernel) (by decide +kernel)
    rcases hquote with rfl | rfl <;> decide +kernel
  · refine assignable_quoted_iff hquote hcontent ?_ (string_mem_splitUnion other)
      ⟨normalize_ne_of_mem hbar hblank (by decide), normalize_ne_of_mem hbar hblank (by decide)⟩
    rw [String.toList_append, List.mem_append]
    exact not_or.2 ⟨hletters, hother⟩

/-- A bar in brackets does not keep a literal from being a string. -/
theorem string_accepts_literal_bracketed :
    '"' ∉ "a  => [b | c".toList ∧ '"' ∉ "number".toList ∧
      ¬HasTopBar "a  => [b | c".toList ∧
      assignable (quoted '"' "a  => [b | c") "string" = true ∧
      assignable (quoted '"' "a  => [b | c") ("string | " ++ "number") = true := by
  have hcontent : '"' ∉ "a  => [b | c".toList := by decide +kernel
  have hother : '"' ∉ "number".toList := by decide +kernel
  have hbar : ¬HasTopBar "a  => [b | c".toList := by decide +kernel
  obtain ⟨hstring, hunion⟩ := string_accepts_literal_iff (.inl rfl) hcontent hother
  exact ⟨hcontent, hother, hbar, hstring.2 hbar, hunion.2 hbar⟩

/-- The literal `"a|b"` is not accepted by `string`. -/
theorem string_rejects_literal_bar :
    '"' ∉ "a|b".toList ∧ assignable (quoted '"' "a|b") "string" = false := by
  decide +kernel

end TypeText

end TypeMend
