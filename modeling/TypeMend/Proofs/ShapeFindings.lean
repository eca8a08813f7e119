import TypeMend.Proofs.Lookup
import TypeMend.Shape

/-!
# What a comparison of shapes finds

A comparison goes over two tables and fills three lists. What it finds of a key depends on nothing
but the two properties of that name: `Finding.of?` gives it, without tables and without an order. The
lists are the keys of one table with one finding, in the order of that table. So a key is in one list
at most, a comparison the other way round exchanges the two kinds of missing keys and keeps the
mismatches, also if `assignable` is not symmetric, and the order of the properties only shows in the
order of the lists.
-/
namespace TypeMend

/-- What a comparison finds of a key. -/
inductive Finding
  /-- The source requires it and the target lacks it. -/
  | missing
  /-- Both sides have it, with types of which neither accepts the other. -/
  | mismatch
  /-- The target requires it and the source lacks it. -/
  | reversedMissing
  deriving DecidableEq

namespace Finding

/-- The finding as seen from the other side. -/
def flip : Finding → Finding
  | missing => reversedMissing
  | mismatch => mismatch
  | reversedMissing => missing

/-- What is found of a key that has these properties on the two sides. -/
def of? (assignable : String → String → Bool) : Option Property → Option Property → Option Finding
  | none, none => none
  | some source, none => if source.optional then none else some missing
  | none, some target => if target.optional then none else some reversedMissing
  | some source, some target =>
    if assignable source.typeText target.typeText || assignable target.typeText source.typeText then
      none
    else some mismatch

variable (assignable : String → String → Bool)

/-- The two sides can be exchanged, whether or not `assignable` is symmetric. -/
theorem of?_comm (source target : Option Property) :
    of? assignable target source = (of? assignable source target).map flip := by
  cases source with
  | none =>
    cases target with
    | none => rfl
    | some target => by_cases h : target.optional <;> simp [of?, h, flip]
  | some source =>
    cases target with
    | none => by_cases h : source.optional <;> simp [of?, h, flip]
    | some target =>
      simp only [of?, Bool.or_comm (assignable target.typeText source.typeText)]
      split_ifs <;> rfl

end Finding

/-- The keys of a table that pass a test are the names of the entries that do. -/
theorem Table.map_fst_filter {κ α : Type} [DecidableEq κ] (t : Table κ α) {p : κ × α → Bool}
    {q : κ → Bool} (h : ∀ key value, t.get? key = some value → p (key, value) = q key) :
    (t.entries.filter p).map Prod.fst = t.keys.filter q := by
  rw [Table.keys, List.filter_map]
  congr 1
  refine List.filter_congr fun entry hentry => ?_
  exact h entry.1 entry.2 (Table.get?_eq_some_iff.2 hentry)

/-- Tables with the same entries in another order answer alike. -/
theorem Table.get?_of_perm {κ α : Type} [DecidableEq κ] {t t' : Table κ α}
    (h : t.entries.Perm t'.entries) (key : κ) : t.get? key = t'.get? key := by
  refine Option.ext fun value => ?_
  rw [Table.get?_eq_some_iff, Table.get?_eq_some_iff, h.mem_iff]

namespace Shape

variable (assignable : String → String → Bool) (source target : Shape)

/-- What a comparison of two shapes finds of a key. -/
def finding? (key : String) : Option Finding :=
  Finding.of? assignable (source.get? key) (target.get? key)

/-- A key that the first shape requires and the second lacks. -/
def Requires (source target : Shape) (key : String) : Prop :=
  ∃ property, source.get? key = some property ∧ property.optional = false ∧ target.get? key = none

/-- A key of both shapes whose types are unrelated in both directions. -/
def Unrelated (key : String) : Prop :=
  ∃ property other, source.get? key = some property ∧ target.get? key = some other ∧
    assignable property.typeText other.typeText = false ∧
    assignable other.typeText property.typeText = false

variable {assignable source target} {key : String}

theorem finding?_comm :
    target.finding? assignable source key = (source.finding? assignable target key).map .flip :=
  Finding.of?_comm assignable _ _

theorem finding?_eq_missing :
    source.finding? assignable target key = some .missing ↔ source.Requires target key := by
  unfold finding? Requires
  cases source.get? key with
  | none => cases target.get? key <;> simp [Finding.of?]
  | some property => cases target.get? key <;> simp [Finding.of?]

theorem finding?_eq_reversedMissing :
    source.finding? assignable target key = some .reversedMissing ↔ target.Requires source key := by
  have hmissing : target.finding? assignable source key = some .missing ↔
      target.Requires source key := finding?_eq_missing
  rw [← hmissing, finding?_comm]
  cases target.finding? assignable source key with
  | none => simp
  | some finding => cases finding <;> simp [Finding.flip]

theorem finding?_eq_mismatch :
    source.finding? assignable target key = some .mismatch ↔
      source.Unrelated assignable target key := by
  unfold finding? Unrelated
  cases source.get? key with
  | none => cases target.get? key <;> simp [Finding.of?]
  | some property => cases target.get? key <;> simp [Finding.of?]

/-! ## The three lists -/

variable (assignable source target)

theorem requiredBeyond_eq :
    source.requiredBeyond target =
      source.keys.filter fun key => source.finding? assignable target key = some .missing := by
  refine Table.map_fst_filter source fun key property hproperty => ?_
  rw [Bool.eq_iff_iff, decide_eq_true_iff, finding?_eq_missing]
  simp [Requires, hproperty, Table.contains]

theorem missing_eq :
    (source.compare assignable target).missing =
      source.keys.filter fun key => source.finding? assignable target key = some .missing :=
  requiredBeyond_eq assignable source target

theorem mismatch_eq :
    (source.compare assignable target).mismatch =
      source.keys.filter fun key => source.finding? assignable target key = some .mismatch := by
  refine Table.map_fst_filter source fun key property hproperty => ?_
  rw [Bool.eq_iff_iff, decide_eq_true_iff, finding?_eq_mismatch]
  cases hother : target.get? key <;> simp [Unrelated, conflicts, hproperty, hother]

theorem reversedMissing_eq :
    (source.compare assignable target).reversedMissing =
      target.keys.filter fun key =>
        source.finding? assignable target key = some .reversedMissing := by
  change target.requiredBeyond source = _
  rw [requiredBeyond_eq assignable]
  refine List.filter_congr fun key _ => decide_eq_decide.2 ?_
  rw [finding?_eq_missing, finding?_eq_reversedMissing]

variable {assignable source target}

theorem mem_missing_iff :
    key ∈ (source.compare assignable target).missing ↔ source.Requires target key := by
  rw [missing_eq, List.mem_filter, decide_eq_true_iff, finding?_eq_missing]
  refine and_iff_right_of_imp fun ⟨property, hproperty, _⟩ => ?_
  exact Table.mem_keys_iff.2 ⟨property, hproperty⟩

theorem mem_mismatch_iff :
    key ∈ (source.compare assignable target).mismatch ↔
      source.Unrelated assignable target key := by
  rw [mismatch_eq, List.mem_filter, decide_eq_true_iff, finding?_eq_mismatch]
  refine and_iff_right_of_imp fun ⟨property, _, hproperty, _⟩ => ?_
  exact Table.mem_keys_iff.2 ⟨property, hproperty⟩

theorem mem_reversedMissing_iff :
    key ∈ (source.compare assignable target).reversedMissing ↔ target.Requires source key := by
  have hmissing : key ∈ (target.compare assignable source).missing ↔ target.Requires source key :=
    mem_missing_iff
  exact hmissing

/-- Each key is listed once. -/
theorem nodup_compare (assignable : String → String → Bool) (source target : Shape) :
    (source.compare assignable target).missing.Nodup ∧
      (source.compare assignable target).mismatch.Nodup ∧
      (source.compare assignable target).reversedMissing.Nodup := by
  rw [missing_eq, mismatch_eq, reversedMissing_eq]
  exact ⟨source.nodup_keys.filter _, source.nodup_keys.filter _, target.nodup_keys.filter _⟩

/-- A comparison sees of two tables what is read in them and nothing of their order. -/
theorem compare_perm {source' target' : Shape} (hsource : source'.entries.Perm source.entries)
    (htarget : target'.entries.Perm target.entries) :
    (source'.compare assignable target').missing.Perm (source.compare assignable target).missing ∧
      (source'.compare assignable target').mismatch.Perm
        (source.compare assignable target).mismatch ∧
      (source'.compare assignable target').reversedMissing.Perm
        (source.compare assignable target).reversedMissing := by
  have hfinding : source'.finding? assignable target' = source.finding? assignable target := by
    funext key
    rw [finding?, finding?, Table.get?_of_perm hsource, Table.get?_of_perm htarget]
  have hsourceKeys : source'.keys.Perm source.keys := hsource.map Prod.fst
  have htargetKeys : target'.keys.Perm target.keys := htarget.map Prod.fst
  simp only [missing_eq, mismatch_eq, reversedMissing_eq, hfinding]
  exact ⟨hsourceKeys.filter _, hsourceKeys.filter _, htargetKeys.filter _⟩

/-- The mismatches are the same keys from both sides. -/
theorem mismatch_perm (assignable : String → String → Bool) (source target : Shape) :
    (source.compare assignable target).mismatch.Perm
      (target.compare assignable source).mismatch := by
  refine (List.perm_ext_iff_of_nodup (nodup_compare assignable source target).2.1
    (nodup_compare assignable target source).2.1).2 fun key => ?_
  rw [mem_mismatch_iff, mem_mismatch_iff]
  constructor
  · rintro ⟨property, other, hsource, htarget, hforth, hback⟩
    exact ⟨other, property, htarget, hsource, hback, hforth⟩
  · rintro ⟨other, property, htarget, hsource, hback, hforth⟩
    exact ⟨property, other, hsource, htarget, hforth, hback⟩

/-- Shape comparison is dual and does not depend on order. For every `assignable`, symmetric or not,
the keys that one shape misses are those that the other has in excess, in the same order, and the
mismatches are the same keys both ways. The three lists have no key twice and no key in common, and
hold exactly the keys that one side requires and the other lacks or that both have with unrelated
types. Other orders of the properties give the same keys. -/
theorem compare_dual_orderless (assignable : String → String → Bool) (a b : Shape) :
    (a.compare assignable b).missing = (b.compare assignable a).reversedMissing ∧
    (a.compare assignable b).mismatch.Perm (b.compare assignable a).mismatch ∧
    ((a.compare assignable b).missing.Nodup ∧ (a.compare assignable b).mismatch.Nodup ∧
      (a.compare assignable b).reversedMissing.Nodup) ∧
    ((a.compare assignable b).missing.Disjoint (a.compare assignable b).mismatch ∧
      (a.compare assignable b).missing.Disjoint (a.compare assignable b).reversedMissing ∧
      (a.compare assignable b).mismatch.Disjoint (a.compare assignable b).reversedMissing) ∧
    (∀ key, key ∈ (a.compare assignable b).missing ∨ key ∈ (a.compare assignable b).mismatch ∨
        key ∈ (a.compare assignable b).reversedMissing ↔
      a.Requires b key ∨ b.Requires a key ∨ a.Unrelated assignable b key) ∧
    ∀ a' b' : Shape, a'.entries.Perm a.entries → b'.entries.Perm b.entries →
      (a'.compare assignable b').missing.Perm (a.compare assignable b).missing ∧
        (a'.compare assignable b').mismatch.Perm (a.compare assignable b).mismatch ∧
        (a'.compare assignable b').reversedMissing.Perm
          (a.compare assignable b).reversedMissing := by
  have hapart {f g : Finding} {xs ys : List String} (hne : f ≠ g) :
      (xs.filter fun key => a.finding? assignable b key = some f).Disjoint
        (ys.filter fun key => a.finding? assignable b key = some g) := by
    intro key hx hy
    have hf := of_decide_eq_true (List.mem_filter.1 hx).2
    have hg := of_decide_eq_true (List.mem_filter.1 hy).2
    exact hne (Option.some.inj (hf.symm.trans hg))
  refine ⟨?_, mismatch_perm assignable a b, nodup_compare assignable a b, ?_, fun key => ?_,
    fun a' b' ha hb => compare_perm ha hb⟩
  · rw [missing_eq, reversedMissing_eq]
    refine List.filter_congr fun key _ => decide_eq_decide.2 ?_
    rw [finding?_eq_missing, finding?_eq_reversedMissing]
  · rw [missing_eq, mismatch_eq, reversedMissing_eq]
    exact ⟨hapart (by simp), hapart (by simp), hapart (by simp)⟩
  · rw [mem_missing_iff, mem_mismatch_iff, mem_reversedMissing_iff]
    exact or_congr_right or_comm

/-- A cat and a dog, compared by a rule that is not symmetric: any type accepts `number`. -/
theorem compare_dual_orderless_pets :
    let numberFits : String → String → Bool := fun s t => s == t || s == "number"
    let cat : Shape := .ofList [("name", ⟨"string", false⟩), ("age", ⟨"number", false⟩),
      ("purr", ⟨"boolean", false⟩), ("chip", ⟨"string", true⟩)]
    let turned : Shape := .ofList [("purr", ⟨"boolean", false⟩), ("chip", ⟨"string", true⟩),
      ("age", ⟨"number", false⟩), ("name", ⟨"string", false⟩)]
    let dog : Shape := .ofList [("bark", ⟨"boolean", false⟩), ("age", ⟨"string", false⟩),
      ("name", ⟨"boolean", true⟩)]
    turned.entries.Perm cat.entries ∧
      (cat.compare numberFits dog).missing = ["purr"] ∧
      (dog.compare numberFits cat).reversedMissing = ["purr"] ∧
      (cat.compare numberFits dog).mismatch = ["name"] ∧
      (turned.compare numberFits dog).mismatch.Perm ["name"] := by
  intro numberFits cat turned dog
  have hturned : turned.entries.Perm cat.entries := by decide
  have hmissing : (cat.compare numberFits dog).missing = ["purr"] := by decide
  have hmismatch : (cat.compare numberFits dog).mismatch = ["name"] := by decide
  obtain ⟨hdual, -, -, -, -, hperm⟩ := compare_dual_orderless numberFits cat dog
  obtain ⟨-, hsame, -⟩ := hperm turned dog hturned (List.Perm.refl _)
  rw [hmissing] at hdual
  rw [hmismatch] at hsame
  exact ⟨hturned, hmissing, hdual.symm, hmismatch, hsame⟩

end Shape

end TypeMend
