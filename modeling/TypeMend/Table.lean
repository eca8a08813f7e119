/-!
# Tables in insertion order

A `Table` maps keys to values and remembers the order in which its keys first appeared. Writing
to a key that is present keeps the key's place. The keys are distinct, which is part of the type,
so a table is the same thing as its list of entries.
-/
namespace TypeMend

/-- A finite map whose entries stand in the order in which their keys were first written. -/
@[ext] structure Table (κ α : Type) where
  entries : List (κ × α)
  nodup : (entries.map Prod.fst).Nodup
  deriving DecidableEq

namespace Table

variable {κ α : Type}

protected def empty : Table κ α :=
  ⟨[], List.nodup_nil⟩

instance : EmptyCollection (Table κ α) := ⟨Table.empty⟩

instance : Inhabited (Table κ α) := ⟨∅⟩

def keys (t : Table κ α) : List κ :=
  t.entries.map Prod.fst

/-- The values in the order of their keys. -/
def values (t : Table κ α) : List α :=
  t.entries.map Prod.snd

def size (t : Table κ α) : Nat :=
  t.entries.length

def isEmpty (t : Table κ α) : Bool :=
  t.entries.isEmpty

@[simp] theorem keys_empty : (∅ : Table κ α).keys = [] := rfl

@[simp] theorem entries_empty : (∅ : Table κ α).entries = [] := rfl

variable [DecidableEq κ]

/-- The value of the first entry with a key. -/
def find? (key : κ) : List (κ × α) → Option α
  | [] => none
  | (k, v) :: rest => if k = key then some v else find? key rest

/-- The entries with the value of `key` computed from the value it had, if any. A new key goes
to the end. -/
def alterEntries (key : κ) (f : Option α → α) : List (κ × α) → List (κ × α)
  | [] => [(key, f none)]
  | (k, v) :: rest =>
    if k = key then (k, f (some v)) :: rest else (k, v) :: alterEntries key f rest

def get? (t : Table κ α) (key : κ) : Option α :=
  find? key t.entries

def contains (t : Table κ α) (key : κ) : Bool :=
  (t.get? key).isSome

theorem map_fst_alterEntries (key : κ) (f : Option α → α) (entries : List (κ × α)) :
    (alterEntries key f entries).map Prod.fst =
      if key ∈ entries.map Prod.fst then entries.map Prod.fst
      else entries.map Prod.fst ++ [key] := by
  induction entries with
  | nil => simp [alterEntries]
  | cons entry rest ih =>
    obtain ⟨k, v⟩ := entry
    by_cases h : k = key
    · simp [alterEntries, h]
    · have h' : key ≠ k := fun e => h e.symm
      simp only [alterEntries, h, if_false, List.map_cons, ih, List.mem_cons, h', false_or]
      split <;> simp

theorem nodup_alterEntries (key : κ) (f : Option α → α) {entries : List (κ × α)}
    (h : (entries.map Prod.fst).Nodup) : ((alterEntries key f entries).map Prod.fst).Nodup := by
  rw [map_fst_alterEntries]
  split
  · exact h
  · next hk =>
    rw [List.nodup_append]
    refine ⟨h, by simp, ?_⟩
    intro a ha b hb hab
    simp at hb
    exact hk (hb ▸ hab ▸ ha)

/-- Computes the value of a key from the value it had, if any. -/
def alter (t : Table κ α) (key : κ) (f : Option α → α) : Table κ α :=
  ⟨alterEntries key f t.entries, nodup_alterEntries key f t.nodup⟩

/-- Gives a key a value, replacing the one it had. -/
def insert (t : Table κ α) (key : κ) (value : α) : Table κ α :=
  t.alter key fun _ => value

/-- Gives a key a value unless it has one. -/
def insertNew (t : Table κ α) (key : κ) (value : α) : Table κ α :=
  t.alter key fun old => old.getD value

/-- Writes entries one after the other, later ones replacing earlier ones of the same key. -/
def insertAll (t : Table κ α) (entries : List (κ × α)) : Table κ α :=
  entries.foldl (fun t entry => t.insert entry.1 entry.2) t

/-- The table that arises by writing the entries one after the other. -/
def ofList (entries : List (κ × α)) : Table κ α :=
  insertAll ∅ entries

@[simp] theorem get?_empty (key : κ) : (∅ : Table κ α).get? key = none := rfl

theorem keys_alter (t : Table κ α) (key : κ) (f : Option α → α) :
    (t.alter key f).keys = if key ∈ t.keys then t.keys else t.keys ++ [key] :=
  map_fst_alterEntries key f t.entries

theorem find?_alterEntries (key k : κ) (f : Option α → α) (entries : List (κ × α)) :
    find? k (alterEntries key f entries) =
      if k = key then some (f (find? key entries)) else find? k entries := by
  induction entries with
  | nil => by_cases h : key = k <;> simp [alterEntries, find?, h, eq_comm]
  | cons entry rest ih =>
    obtain ⟨a, v⟩ := entry
    by_cases ha : a = key
    · subst ha
      by_cases hk : k = a
      · simp [alterEntries, find?, hk]
      · have hk' : ¬a = k := fun e => hk e.symm
        simp [alterEntries, find?, hk, hk']
    · by_cases hk : a = k
      · have : ¬k = key := fun e => ha (hk.trans e)
        simp [alterEntries, find?, hk, this]
      · simp [alterEntries, find?, ha, hk, ih]

/-- Changing one key changes what is read at that key only. -/
theorem get?_alter (t : Table κ α) (key k : κ) (f : Option α → α) :
    (t.alter key f).get? k = if k = key then some (f (t.get? key)) else t.get? k :=
  find?_alterEntries key k f t.entries

theorem get?_insert (t : Table κ α) (key k : κ) (value : α) :
    (t.insert key value).get? k = if k = key then some value else t.get? k :=
  get?_alter t key k _

end Table

end TypeMend
