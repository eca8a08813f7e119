import Mathlib.Data.List.Basic
import Mathlib.Tactic
import TypeMend.Table

/-!
# Reading tables

The keys of a table are distinct, so looking a key up finds the one entry that it has. A table is
given by the order of its keys and by what is found at them, and keys that are written one after the
other stand where each was written first. Two look-ups are compared by `Option.Rel`: both find
nothing, or both find something and the finds are related.
-/
section Relations

variable {α β γ δ : Type} {r r' : α → β → Prop} {x : Option α} {y : Option β}

theorem Option.Rel.imp (h : Option.Rel r x y) (hr : ∀ a b, r a b → r' a b) : Option.Rel r' x y := by
  cases h with
  | none => exact .none
  | some hab => exact .some (hr _ _ hab)

theorem Option.Rel.of_right {b : β} (h : Option.Rel r x (Option.some b)) :
    ∃ a, x = Option.some a ∧ r a b := by
  cases h with
  | some hab => exact ⟨_, rfl, hab⟩

theorem Option.Rel.of_left {a : α} (h : Option.Rel r (Option.some a) y) :
    ∃ b, y = Option.some b ∧ r a b := by
  cases h with
  | some hab => exact ⟨_, rfl, hab⟩

theorem Option.Rel.isSome_eq (h : Option.Rel r x y) : x.isSome = y.isSome := by
  cases h <;> rfl

/-- Two finds that are related to the same one. -/
theorem Option.Rel.join {s : α → γ → Prop} {z : Option γ} (h : Option.Rel r x y)
    (h' : Option.Rel s x z) : Option.Rel (fun b c => ∃ a, r a b ∧ s a c) y z := by
  cases h with
  | none =>
    cases h'
    exact .none
  | some hab =>
    obtain ⟨c, rfl, hac⟩ := h'.of_left
    exact .some ⟨_, hab, hac⟩

/-- Over a relation that is one to one, finds are equal exactly if those on the other side are. -/
theorem Option.Rel.eq_iff {x' : Option α} {y' : Option β} (h : Option.Rel r x y)
    (h' : Option.Rel r x' y') (hr : ∀ a a' b b', r a b → r a' b' → (a = a' ↔ b = b')) :
    x = x' ↔ y = y' := by
  cases h with
  | none => cases h' <;> simp
  | some hab =>
    cases h' with
    | none => simp
    | some hab' => simpa using hr _ _ _ _ hab hab'

theorem Option.Rel.map {s : γ → δ → Prop} (h : Option.Rel r x y) {f : α → γ} {g : β → δ}
    (hf : ∀ a b, r a b → s (f a) (g b)) : Option.Rel s (x.map f) (y.map g) := by
  cases h with
  | none => exact .none
  | some hab => exact .some (hf _ _ hab)

theorem Option.Rel.map_eq (h : Option.Rel r x y) {f : α → γ} {g : β → γ}
    (hf : ∀ a b, r a b → f a = g b) : x.map f = y.map g := by
  cases h with
  | none => rfl
  | some hab => exact congrArg Option.some (hf _ _ hab)

theorem Option.Rel.bind {s : γ → δ → Prop} (h : Option.Rel r x y) {f : α → Option γ}
    {g : β → Option δ} (hf : ∀ a b, r a b → Option.Rel s (f a) (g b)) :
    Option.Rel s (x.bind f) (y.bind g) := by
  cases h with
  | none => exact .none
  | some hab => exact hf _ _ hab

theorem Option.Rel.forall₂_toList (h : Option.Rel r x y) : List.Forall₂ r x.toList y.toList := by
  cases h with
  | none => exact .nil
  | some hab => exact .cons hab .nil

end Relations

namespace List

variable {α : Type} [DecidableEq α]

theorem eraseDups_filter (p : α → Bool) (xs : List α) :
    (xs.filter p).eraseDups = xs.eraseDups.filter p := by
  match xs with
  | [] => rfl
  | x :: xs =>
    have ih := eraseDups_filter p (xs.filter fun y => !y == x)
    rw [eraseDups_cons, filter_cons, filter_cons]
    split_ifs with hx
    · rw [eraseDups_cons, ← ih, filter_comm]
    · rw [← ih, filter_filter]
      congr 1
      refine filter_congr fun y _ => ?_
      by_cases hy : y = x
      · simp [hy, hx]
      · simp [hy]
termination_by xs.length
decreasing_by exact Nat.lt_succ_of_le (length_filter_le _ _)

theorem nodup_eraseDups (xs : List α) : xs.eraseDups.Nodup := by
  induction xs with
  | nil => exact nodup_nil
  | cons x xs ih =>
    rw [eraseDups_cons, nodup_cons, mem_eraseDups, eraseDups_filter]
    exact ⟨by simp, ih.filter _⟩

theorem Nodup.eraseDups_eq {xs : List α} (h : xs.Nodup) : xs.eraseDups = xs := by
  induction xs with
  | nil => rfl
  | cons x xs ih =>
    obtain ⟨hx, hxs⟩ := nodup_cons.1 h
    rw [eraseDups_cons, filter_eq_self.2, ih hxs]
    intro y hy
    have hne : y ≠ x := by
      rintro rfl
      exact hx hy
    simpa using hne

theorem eraseDups_append_eraseDups (xs ys : List α) :
    (xs.eraseDups ++ ys.eraseDups).eraseDups = (xs ++ ys).eraseDups := by
  have hsame (zs : List α) : zs.removeAll xs.eraseDups = zs.removeAll xs :=
    filter_congr fun z _ => by simp
  rw [eraseDups_append, eraseDups_append, hsame, removeAll, removeAll, ← eraseDups_filter,
    (nodup_eraseDups _).eraseDups_eq, (nodup_eraseDups _).eraseDups_eq]

theorem eraseDups_flatMap_eraseDups {β : Type} (f : β → List α) (xs : List β) :
    (xs.flatMap fun x => (f x).eraseDups).eraseDups = (xs.flatMap f).eraseDups := by
  induction xs with
  | nil => rfl
  | cons x xs ih =>
    rw [flatMap_cons, flatMap_cons, ← eraseDups_append_eraseDups, ih,
      (nodup_eraseDups _).eraseDups_eq, eraseDups_append_eraseDups]

end List

namespace TypeMend.Table

variable {κ α : Type} [DecidableEq κ]

theorem find?_eq_none_iff {key : κ} {entries : List (κ × α)} :
    find? key entries = none ↔ key ∉ entries.map Prod.fst := by
  induction entries with
  | nil => simp [find?]
  | cons entry rest ih =>
    obtain ⟨k, v⟩ := entry
    by_cases h : k = key
    · simp [find?, h]
    · have h' : ¬key = k := fun e => h e.symm
      simp [find?, h, h', ih]

theorem find?_eq_some_iff {key : κ} {value : α} {entries : List (κ × α)}
    (hnodup : (entries.map Prod.fst).Nodup) :
    find? key entries = some value ↔ (key, value) ∈ entries := by
  induction entries with
  | nil => simp [find?]
  | cons entry rest ih =>
    obtain ⟨k, v⟩ := entry
    rw [List.map_cons, List.nodup_cons] at hnodup
    by_cases h : k = key
    · subst h
      have hrest : (k, value) ∉ rest := fun hmem => hnodup.1 (List.mem_map.2 ⟨_, hmem, rfl⟩)
      simp [find?, hrest, eq_comm]
    · have h' : ¬key = k := fun e => h e.symm
      simp [find?, h, h', ih hnodup.2]

theorem get?_eq_some_iff {t : Table κ α} {key : κ} {value : α} :
    t.get? key = some value ↔ (key, value) ∈ t.entries :=
  find?_eq_some_iff t.nodup

theorem get?_eq_none_iff {t : Table κ α} {key : κ} : t.get? key = none ↔ key ∉ t.keys :=
  find?_eq_none_iff

theorem mem_keys_iff {t : Table κ α} {key : κ} :
    key ∈ t.keys ↔ ∃ value, t.get? key = some value := by
  rw [← Option.ne_none_iff_exists', ne_eq, get?_eq_none_iff, not_not]

@[simp] theorem get?_insert_self (t : Table κ α) (key : κ) (value : α) :
    (t.insert key value).get? key = some value := by
  rw [get?_insert, if_pos rfl]

theorem get?_insert_of_ne (t : Table κ α) {key other : κ} (h : other ≠ key) (value : α) :
    (t.insert key value).get? other = t.get? other := by
  rw [get?_insert, if_neg h]

/-- What holds of all values of a table and of one more holds after that one is filed. -/
theorem insert_forall {P : α → Prop} {t : Table κ α} {key : κ} {value : α}
    (ht : ∀ other found, t.get? other = some found → P found) (hvalue : P value) :
    ∀ other found, (t.insert key value).get? other = some found → P found := by
  intro other found hfound
  rw [get?_insert] at hfound
  split_ifs at hfound
  · cases hfound
    exact hvalue
  · exact ht other found hfound

/-- A key that has a value keeps it. -/
theorem insertNew_of_some {t : Table κ α} {key : κ} {old : α} (h : t.get? key = some old)
    (value : α) : t.insertNew key value = t := by
  have hentries (entries : List (κ × α)) (hfind : find? key entries = some old) :
      alterEntries key (fun found => found.getD value) entries = entries := by
    induction entries with
    | nil => cases hfind
    | cons entry rest ih =>
      obtain ⟨k, v⟩ := entry
      by_cases hk : k = key
      · simp [alterEntries, hk]
      · simp only [find?, hk, if_false] at hfind
        simp [alterEntries, hk, ih hfind]
  exact Table.ext (hentries t.entries h)

theorem insertNew_of_none {t : Table κ α} {key : κ} (h : t.get? key = none) (value : α) :
    t.insertNew key value = t.insert key value := by
  have hentries (entries : List (κ × α)) (hfind : find? key entries = none) :
      alterEntries key (fun found => found.getD value) entries =
        alterEntries key (fun _ => value) entries := by
    induction entries with
    | nil => rfl
    | cons entry rest ih =>
      obtain ⟨k, v⟩ := entry
      by_cases hk : k = key
      · simp [find?, hk] at hfind
      · simp only [find?, hk, if_false] at hfind
        simp [alterEntries, hk, ih hfind]
  exact Table.ext (hentries t.entries h)

/-! ## The order of keys -/

omit [DecidableEq κ] in
theorem nodup_keys (t : Table κ α) : t.keys.Nodup :=
  t.nodup

/-- A table is given by the order of its keys and by what is read at them. -/
theorem eq_of_keys_of_get? {t t' : Table κ α} (hkeys : t.keys = t'.keys)
    (hget : ∀ key, t.get? key = t'.get? key) : t = t' := by
  have hentries (u : Table κ α) :
      u.entries.map (fun entry => (entry.1, some entry.2)) =
        u.keys.map fun key => (key, u.get? key) := by
    rw [keys, List.map_map]
    refine List.map_congr_left fun entry hentry => ?_
    simp [get?_eq_some_iff.2 (show (entry.1, entry.2) ∈ u.entries from hentry)]
  have hinjective : Function.Injective fun entry : κ × α => (entry.1, some entry.2) := by
    rintro ⟨key, value⟩ ⟨key', value'⟩ heq
    simpa using heq
  refine Table.ext (List.map_injective_iff.2 hinjective ?_)
  rw [hentries, hentries, hkeys]
  exact List.map_congr_left fun key _ => by rw [hget]

/-- Writing to a key puts it at the end unless it is there. -/
theorem eraseDups_keys_alter (t : Table κ α) (key : κ) (f : Option α → α) (rest : List κ) :
    ((t.alter key f).keys ++ rest).eraseDups = (t.keys ++ key :: rest).eraseDups := by
  rw [keys_alter]
  split_ifs with hkey
  · rw [List.eraseDups_append, List.eraseDups_append, List.removeAll, List.removeAll,
      List.filter_cons_of_neg (by simpa using hkey)]
  · rw [List.append_assoc, List.singleton_append]

/-- Keys that are written one after the other stand where each was written first. -/
theorem keys_foldl_alter {β : Type} (key : β → κ) (f : β → Option α → α) (xs : List β)
    (t : Table κ α) :
    (xs.foldl (fun t x => t.alter (key x) (f x)) t).keys = (t.keys ++ xs.map key).eraseDups := by
  induction xs generalizing t with
  | nil => simpa using t.nodup_keys.eraseDups_eq.symm
  | cons x xs ih => rw [List.foldl_cons, ih, eraseDups_keys_alter, List.map_cons]

theorem keys_ofList (entries : List (κ × α)) :
    (ofList entries).keys = (entries.map Prod.fst).eraseDups :=
  keys_foldl_alter Prod.fst (fun entry _ => entry.2) entries ∅

end TypeMend.Table
