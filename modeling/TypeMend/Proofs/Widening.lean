import TypeMend.Patch
import TypeMend.Proofs.UnionMembers

/-!
# Widening a written type

`Patch.widen` writes the declared type, a bar and the other type, and puts a type with an arrow into
parentheses. When brackets are balanced, the members of what it writes are those of the two types
as they are written. So each of the two, as written, is accepted by the widened type. But a type in
parentheses is another text than the type itself, to the comparison of types as well as to the test
whether there is anything to widen: a function type is not accepted by the type that was widened
by it, and widens that type again.
-/
namespace TypeMend

namespace TypeText

open Text

theorem normalize_eq_iff (a b : String) :
    normalize a = normalize b ↔ normalizeChars a.toList = normalizeChars b.toList := by
  rw [normalize, normalize, String.ofList_inj]

theorem weight_eq_of_normalize_eq {a b : String} (h : normalize a = normalize b) :
    weight a.toList = weight b.toList := by
  rw [normalize_eq_iff] at h
  rw [← weight_normalizeChars a.toList, h, weight_normalizeChars]

theorem normalize_ne_of_mem {text name : String} {c : Char} (hmem : c ∈ text.toList)
    (hc : isBlank c = false) (hname : c ∉ name.toList) : normalize text ≠ name := by
  rintro rfl
  rw [normalize, String.toList_ofList, mem_normalizeChars_iff hc] at hname
  exact hname hmem

/-- A member of one union belongs to a member of another: it is the same text up to blanks, or a
literal of it. -/
def Belongs (member other : String) : Prop :=
  normalize member = normalize other ∨
    literalWidens (normalizeChars member.toList) (normalizeChars other.toList) = true

/-- What is assignable to what, by members of the texts as they are. -/
theorem assignable_iff (source target : String) : assignable source target = true ↔
    normalize source = normalize target ∨ normalize target = "any" ∨
      normalize target = "unknown" ∨ normalize source = "any" ∨ normalize source = "never" ∨
      ∀ member ∈ splitUnion source, ∃ other ∈ splitUnion target, Belongs member other := by
  have hnormalize (text name : String) :
      normalize text = name ↔ normalizeChars text.toList = name.toList := by
    rw [normalize, ← String.toList_inj, String.toList_ofList]
  have hmembers (member other : List Char) :
      Belongs (String.ofList member) (String.ofList other) ↔
        normalizeChars member = normalizeChars other ∨
          literalWidens (normalizeChars member) (normalizeChars other) = true := by
    simp [Belongs, normalize_eq_iff]
  rw [normalize_eq_iff, hnormalize target, hnormalize target, hnormalize source,
    hnormalize source]
  simp only [splitUnion, List.mem_map, forall_exists_index, and_imp, forall_apply_eq_imp_iff₂,
    exists_exists_and_eq_and, hmembers]
  simp [assignable, assignableChars, members_normalizeChars, or_assoc]

end TypeText

/-- An edit widens a declared type by the type of a source. -/
def Edit.Widens (ws : Workspace) (edit : Edit) (declared source : String) : Prop :=
  edit.kind = .unionType ∧ ∃ other, edit.other = some other ∧
    (ws.node edit.prime).text = declared ∧ (ws.node other).typeText = source

namespace Patch

open Text
open TypeText hiding normalize

/-! ## What widening writes -/

/-- The text of a widened type. -/
def widened (declared other : String) : String :=
  s!"{unionMember declared} | {unionMember other}"

theorem widen_eq (declared other : Node) : widen declared other =
    if TypeText.normalize other.typeText ∈ (splitUnion declared.text).map TypeText.normalize
      then .satisfied
    else .change ⟨declared.start, declared.stop, widened declared.text other.typeText⟩ := by
  simp only [widen, List.any_eq_true, beq_iff_eq, List.mem_map]
  rfl

theorem equals_mem_of_hasArrow {cs : List Char} (h : hasArrow cs = true) : '=' ∈ cs := by
  induction cs using hasArrow.induct with
  | case1 => simp
  | case2 c cs _ ih =>
    rw [hasArrow] at h
    · exact List.mem_cons_of_mem c (ih h)
    · assumption
  | case3 => cases h

/-- A type is written as it is, or in parentheses when it has an arrow. -/
theorem toList_unionMember (typeText : String) : (unionMember typeText).toList =
    if hasArrow typeText.toList then '(' :: typeText.toList ++ [')'] else typeText.toList := by
  unfold unionMember
  split_ifs
  · change ("(" ++ typeText ++ ")").toList = _
    simp
  · rfl

theorem splitUnion_unionMember {typeText : String} (h : Balanced typeText.toList) :
    splitUnion (unionMember typeText) =
      if hasArrow typeText.toList then [unionMember typeText] else splitUnion typeText := by
  by_cases harrow : hasArrow typeText.toList = true
  · have htext := toList_unionMember typeText
    rw [if_pos harrow] at htext ⊢
    rw [splitUnion, htext, members_parenthesized h, List.map_singleton, ← htext,
      String.ofList_toList]
  · rw [if_neg harrow, unionMember, if_neg harrow]

theorem depthEnd_unionMember {typeText : String} (h : Balanced typeText.toList) :
    depthEnd 0 false (unionMember typeText).toList = 0 := by
  rw [toList_unionMember]
  split_ifs
  · rw [depthEnd_snoc _ _ _ (by decide)]
    have hadd := depthEnd_add 0 1 false typeText.toList
    rw [h.closed] at hadd
    simp [depthEnd, depthAfter] at hadd ⊢
    omega
  · exact h.closed

theorem splitUnion_widened {declared : String} (hdeclared : Balanced declared.toList)
    (other : String) : splitUnion (widened declared other) =
      splitUnion (unionMember declared) ++ splitUnion (unionMember other) := by
  have hspace : isBlank ' ' = true := by decide
  have htext : (widened declared other).toList =
      (unionMember declared).toList ++ [' '] ++ '|' :: ' ' :: (unionMember other).toList := by
    change (unionMember declared ++ " | " ++ unionMember other).toList = _
    simp
  have hdepth : depthEnd 0 false ((unionMember declared).toList ++ [' ']) = 0 := by
    rw [depthEnd_snoc _ _ _ (by decide), depthAfter_of_isBlank hspace,
      depthEnd_unionMember hdeclared]
  rw [splitUnion, htext, members_append_bar hdepth, members_append_of_isBlank hspace,
    members_cons_of_isBlank hspace, List.map_append, ← splitUnion, ← splitUnion]

theorem resolve_of_widens {ws : Workspace} {edit : Edit} {declared source : String}
    (hedit : edit.Widens ws declared source) (options : Options) (cs : List Char) :
    resolve ws options edit cs =
      if TypeText.normalize source ∈ (splitUnion declared).map TypeText.normalize then .satisfied
      else confine cs (.change ⟨(ws.node edit.prime).start, (ws.node edit.prime).stop,
        widened declared source⟩) := by
  obtain ⟨hkind, other, hother, rfl, rfl⟩ := hedit
  have hpropose : propose options edit.kind (ws.node edit.prime) (edit.other.map ws.node) cs =
      widen (ws.node edit.prime) (ws.node other) := by
    rw [hkind, hother]
    rfl
  rw [resolve, hpropose, widen_eq]
  split_ifs <;> rfl

/-- A widening edit that comes to a change writes the widened type, and there was something to
widen. -/
theorem text_of_resolve_widens {ws : Workspace} {options : Options} {edit : Edit}
    {declared source : String} {cs : List Char} {change : TextChange}
    (hedit : edit.Widens ws declared source) (h : resolve ws options edit cs = .change change) :
    change.text = widened declared source ∧
      TypeText.normalize source ∉ (splitUnion declared).map TypeText.normalize := by
  rw [resolve_of_widens hedit] at h
  split_ifs at h with hmember
  rw [confine] at h
  split_ifs at h
  cases h
  exact ⟨rfl, hmember⟩

theorem weight_lt_weight_unionMember {typeText : String}
    (harrow : hasArrow typeText.toList = true) :
    weight typeText.toList < weight (unionMember typeText).toList := by
  have hopen : weight ['('] = 1 := by decide
  rw [toList_unionMember, if_pos harrow, List.cons_append, ← List.singleton_append, weight_append,
    weight_append, hopen]
  omega

/-- In parentheses, a type is another text. -/
theorem normalize_ne_unionMember {typeText : String} (harrow : hasArrow typeText.toList = true) :
    TypeText.normalize typeText ≠ TypeText.normalize (unionMember typeText) := by
  intro h
  exact absurd (weight_eq_of_normalize_eq h) (weight_lt_weight_unionMember harrow).ne

/-! ## Widening twice -/

/-- A type is among its own members as written exactly when it has no arrow and no bar. -/
theorem normalize_mem_splitUnion_unionMember_iff {source : String} (h : Balanced source.toList) :
    TypeText.normalize source ∈ (splitUnion (unionMember source)).map TypeText.normalize ↔
      hasArrow source.toList = false ∧
        splitUnion source = [String.ofList (trim source.toList)] := by
  rw [splitUnion_unionMember h]
  split_ifs with harrow
  · simp [harrow, normalize_ne_unionMember harrow]
  · constructor
    · intro hmem
      have hchars : normalizeChars source.toList ∈ (members source.toList).map normalizeChars := by
        simpa [splitUnion, normalize_eq_iff] using hmem
      refine ⟨by simpa using harrow, ?_⟩
      rw [splitUnion, members_eq_of_normalizeChars_mem hchars, List.map_singleton]
    · rintro ⟨-, hsplit⟩
      rw [hsplit, List.map_singleton, List.mem_singleton, normalize_eq_iff, String.toList_ofList,
        normalizeChars_trim]

/-- When a type was widened by another and is to be widened by the same again, there is nothing to
do in two cases only: the other type is a single member and is written as it is, or it is the
declared type in the parentheses that the widening has put around it. In all other cases the type is
widened once more. -/
theorem widen_again {ws : Workspace} {options : Options} {edit : Edit} {declared source : String}
    {cs : List Char} {change : TextChange} (hedit : edit.Widens ws declared source)
    (hdeclared : Balanced declared.toList) (hsource : Balanced source.toList)
    (hchange : resolve ws options edit cs = .change change) {ws' : Workspace} {edit' : Edit}
    (hagain : edit'.Widens ws' change.text source) (options' : Options) (cs' : List Char) :
    resolve ws' options' edit' cs' =
      if hasArrow source.toList = false ∧
            splitUnion source = [String.ofList (trim source.toList)] ∨
          hasArrow declared.toList = true ∧
            TypeText.normalize source = TypeText.normalize (unionMember declared)
        then .satisfied
      else confine cs' (.change ⟨(ws'.node edit'.prime).start, (ws'.node edit'.prime).stop,
        widened change.text source⟩) := by
  obtain ⟨htext, hnew⟩ := text_of_resolve_widens hedit hchange
  have hleft :
      TypeText.normalize source ∈ (splitUnion (unionMember declared)).map TypeText.normalize ↔
        hasArrow declared.toList = true ∧
          TypeText.normalize source = TypeText.normalize (unionMember declared) := by
    rw [splitUnion_unionMember hdeclared]
    split_ifs with harrow <;> simp_all
  have hmember : TypeText.normalize source ∈ (splitUnion change.text).map TypeText.normalize ↔
      hasArrow source.toList = false ∧
          splitUnion source = [String.ofList (trim source.toList)] ∨
        hasArrow declared.toList = true ∧
          TypeText.normalize source = TypeText.normalize (unionMember declared) := by
    rw [htext, splitUnion_widened hdeclared, List.map_append, List.mem_append, hleft,
      normalize_mem_splitUnion_unionMember_iff hsource, or_comm]
  rw [resolve_of_widens hagain, if_congr hmember rfl rfl]

/-- A declaration before and after it was widened, by `number` and by a function type. -/
def callback : Workspace :=
  { (∅ : Workspace) with
    nodes :=
      #[⟨"a.ts", 7, 13, "string", "string", "TypeAnnotation", false, false, none⟩,
        ⟨"a.ts", 16, 17, "g", "number", "Identifier", false, false, none⟩,
        ⟨"a.ts", 7, 22, "string | number", "string | number", "TypeAnnotation", false, false,
          none⟩,
        ⟨"a.ts", 16, 17, "g", "() => void", "Identifier", false, false, none⟩,
        ⟨"a.ts", 7, 28, "string | (() => void)", "string | (() => void)", "TypeAnnotation", false,
          false, none⟩] }

theorem widen_again_number :
    Edit.Widens callback ⟨.unionType, 0, some 1⟩ "string" "number" ∧
      Balanced "string".toList ∧ Balanced "number".toList ∧
      resolve callback .default ⟨.unionType, 0, some 1⟩ "let f: string = g;".toList =
        .change ⟨7, 13, "string | number"⟩ ∧
      Edit.Widens callback ⟨.unionType, 2, some 1⟩ "string | number" "number" ∧
      resolve callback .default ⟨.unionType, 2, some 1⟩ "let f: string | number = g;".toList =
        .satisfied := by
  have hedit : Edit.Widens callback ⟨.unionType, 0, some 1⟩ "string" "number" :=
    ⟨rfl, 1, rfl, rfl, rfl⟩
  have hagain : Edit.Widens callback ⟨.unionType, 2, some 1⟩ "string | number" "number" :=
    ⟨rfl, 1, rfl, rfl, rfl⟩
  have hdeclared : Balanced "string".toList := by decide +kernel
  have hsource : Balanced "number".toList := by decide +kernel
  have hchange : resolve callback .default ⟨.unionType, 0, some 1⟩ "let f: string = g;".toList =
      .change ⟨7, 13, "string | number"⟩ := by
    decide +kernel
  refine ⟨hedit, hdeclared, hsource, hchange, hagain, ?_⟩
  rw [widen_again hedit hdeclared hsource hchange hagain, if_pos (.inl (by decide +kernel))]

/-- A declaration that was widened by a function type is widened by it again. -/
theorem widen_again_function :
    resolve callback .default ⟨.unionType, 0, some 3⟩ "let f: string = g;".toList =
        .change ⟨7, 13, "string | (() => void)"⟩ ∧
      Edit.Widens callback ⟨.unionType, 0, some 3⟩ "string" "() => void" ∧
      Edit.Widens callback ⟨.unionType, 4, some 3⟩ "string | (() => void)" "() => void" ∧
      resolve callback .default ⟨.unionType, 4, some 3⟩
          "let f: string | (() => void) = g;".toList =
        .change ⟨7, 28, "(string | (() => void)) | (() => void)"⟩ := by
  have hedit : Edit.Widens callback ⟨.unionType, 0, some 3⟩ "string" "() => void" :=
    ⟨rfl, 3, rfl, rfl, rfl⟩
  have hagain : Edit.Widens callback ⟨.unionType, 4, some 3⟩ "string | (() => void)"
      "() => void" :=
    ⟨rfl, 3, rfl, rfl, rfl⟩
  exact ⟨by decide +kernel, hedit, hagain, by decide +kernel⟩

/-! ## The widened type accepts -/

/-- A type is accepted, as it stands, by a type to which it was joined with another: it is written
there without parentheses, or each of its members belongs to a member of the other as written. -/
def AcceptedBeside (x y : String) : Prop :=
  hasArrow x.toList = false ∨
    ∀ member ∈ splitUnion x, ∃ other ∈ splitUnion (unionMember y), Belongs member other

/-- No member of a type belongs to the type in parentheses. -/
theorem not_belongs_unionMember {x member : String} (harrow : hasArrow x.toList = true)
    (hmember : member ∈ splitUnion x) : ¬Belongs member (unionMember x) := by
  obtain ⟨cs, hcs, rfl⟩ := List.mem_map.1 hmember
  rintro (hsame | hliteral)
  · have hweight := weight_eq_of_normalize_eq hsame
    rw [String.toList_ofList] at hweight
    have hle := weight_le_of_mem_members hcs
    have hlt := weight_lt_weight_unionMember harrow
    omega
  · have hopen : isBlank '(' = false := by decide
    rw [toList_unionMember, if_pos harrow, List.cons_append, normalizeChars_cons hopen] at hliteral
    simp [literalWidens] at hliteral

/-- What a union of two types as written accepts of one of them. -/
theorem assignable_joined {x y text : String} (hx : Balanced x.toList)
    (hmem : ∀ member, member ∈ splitUnion text ↔
      member ∈ splitUnion (unionMember x) ∨ member ∈ splitUnion (unionMember y))
    (hbar : '|' ∈ text.toList) (hweight : weight (unionMember x).toList ≤ weight text.toList) :
    assignable (unionMember x) text = true ∧
      (assignable x text = true ↔ AcceptedBeside x y) := by
  have hwritten : assignable (unionMember x) text = true := by
    rw [assignable_iff]
    iterate 5 right
    exact fun member hmember => ⟨member, (hmem member).2 (.inl hmember), .inl rfl⟩
  refine ⟨hwritten, ?_⟩
  by_cases harrow : hasArrow x.toList = true
  · have hsame : TypeText.normalize x ≠ TypeText.normalize text := by
      intro h
      have hequal := weight_eq_of_normalize_eq h
      have hlt := weight_lt_weight_unionMember harrow
      omega
    have hequals := equals_mem_of_hasArrow harrow
    have hblank : isBlank '|' = false ∧ isBlank '=' = false := by decide
    have hany : TypeText.normalize text ≠ "any" := normalize_ne_of_mem hbar hblank.1 (by decide)
    have hunknown : TypeText.normalize text ≠ "unknown" :=
      normalize_ne_of_mem hbar hblank.1 (by decide)
    have hany' : TypeText.normalize x ≠ "any" := normalize_ne_of_mem hequals hblank.2 (by decide)
    have hnever : TypeText.normalize x ≠ "never" := normalize_ne_of_mem hequals hblank.2 (by decide)
    rw [assignable_iff, AcceptedBeside]
    simp only [hsame, hany, hunknown, hany', hnever, harrow, false_or, Bool.true_eq_false]
    refine forall₂_congr fun member hmember => ?_
    have hnot := not_belongs_unionMember harrow hmember
    simp only [hmem, splitUnion_unionMember hx, harrow, if_true, List.mem_singleton]
    constructor
    · rintro ⟨other, rfl | hother, hbelongs⟩
      · exact absurd hbelongs hnot
      · exact ⟨other, hother, hbelongs⟩
    · rintro ⟨other, hother, hbelongs⟩
      exact ⟨other, .inr hother, hbelongs⟩
  · have hplain : hasArrow x.toList = false := by simpa using harrow
    have hsame : unionMember x = x := if_neg harrow
    rw [hsame] at hwritten
    exact iff_of_true hwritten (.inl hplain)

/-- The type that a widening writes accepts both types as it writes them. As it stands, a type with
an arrow is accepted only when each of its members belongs to a member of the other type. -/
theorem widened_accepts {ws : Workspace} {options : Options} {edit : Edit}
    {declared source : String} {cs : List Char} {change : TextChange}
    (hedit : edit.Widens ws declared source) (hdeclared : Balanced declared.toList)
    (hsource : Balanced source.toList) (hchange : resolve ws options edit cs = .change change) :
    assignable (unionMember declared) change.text = true ∧
      assignable (unionMember source) change.text = true ∧
      (assignable declared change.text = true ↔ AcceptedBeside declared source) ∧
      (assignable source change.text = true ↔ AcceptedBeside source declared) := by
  rw [(text_of_resolve_widens hedit hchange).1]
  have htext : (widened declared source).toList =
      (unionMember declared).toList ++ " | ".toList ++ (unionMember source).toList := by
    change (unionMember declared ++ " | " ++ unionMember source).toList = _
    simp
  have hsplit := splitUnion_widened hdeclared source
  have hbar : '|' ∈ (widened declared source).toList := by
    rw [htext]
    simp
  have hweight := congrArg weight htext
  rw [weight_append, weight_append] at hweight
  obtain ⟨hwritten, hdeclared'⟩ := assignable_joined (y := source) hdeclared
    (fun member => by rw [hsplit, List.mem_append]) hbar (by omega)
  obtain ⟨hwritten', hsource'⟩ := assignable_joined (y := declared) hsource
    (fun member => by rw [hsplit, List.mem_append, or_comm]) hbar (by omega)
  exact ⟨hwritten, hwritten', hdeclared', hsource'⟩

theorem widened_accepts_function :
    Edit.Widens callback ⟨.unionType, 0, some 3⟩ "string" "() => void" ∧
      Balanced "string".toList ∧ Balanced "() => void".toList ∧
      resolve callback .default ⟨.unionType, 0, some 3⟩ "let f: string = g;".toList =
        .change ⟨7, 13, "string | (() => void)"⟩ ∧
      assignable "string" "string | (() => void)" = true ∧
      assignable "(() => void)" "string | (() => void)" = true := by
  have hedit : Edit.Widens callback ⟨.unionType, 0, some 3⟩ "string" "() => void" :=
    ⟨rfl, 3, rfl, rfl, rfl⟩
  have hdeclared : Balanced "string".toList := by decide +kernel
  have hsource : Balanced "() => void".toList := by decide +kernel
  have hchange : resolve callback .default ⟨.unionType, 0, some 3⟩ "let f: string = g;".toList =
      .change ⟨7, 13, "string | (() => void)"⟩ := by
    decide +kernel
  obtain ⟨-, hwritten, hplain, -⟩ := widened_accepts hedit hdeclared hsource hchange
  exact ⟨hedit, hdeclared, hsource, hchange, hplain.2 (.inl (by decide +kernel)), hwritten⟩

/-- A function type is not accepted by the type that was widened by it. -/
theorem widened_rejects_bare_function :
    Edit.Widens callback ⟨.unionType, 0, some 3⟩ "string" "() => void" ∧
      Balanced "string".toList ∧ Balanced "() => void".toList ∧
      resolve callback .default ⟨.unionType, 0, some 3⟩ "let f: string = g;".toList =
        .change ⟨7, 13, "string | (() => void)"⟩ ∧
      assignable "() => void" "string | (() => void)" = false :=
  ⟨⟨rfl, 3, rfl, rfl, rfl⟩, by decide +kernel, by decide +kernel, by decide +kernel,
    by decide +kernel⟩

end Patch

end TypeMend
