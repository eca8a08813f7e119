import TypeMend.Proofs.Inheritance
import TypeMend.Proofs.Literals
import TypeMend.Snapshot.Document

/-!
# Documents are read back

A format is lawful when what it writes is read as the value that was written, at whatever level of a
document it stands. Lists, tables, optional values and records of lawful formats are lawful: a table
because its keys are distinct, a record because the names of its fields are. Snapshots are records,
so that every snapshot is read back, with its shapes filed under normalized texts. A snapshot that
was read has them filed so already.
-/
namespace TypeMend

namespace Table

variable {κ α : Type} [DecidableEq κ]

theorem alterEntries_of_not_mem {key : κ} {f : Option α → α} {entries : List (κ × α)}
    (h : key ∉ entries.map Prod.fst) : alterEntries key f entries = entries ++ [(key, f none)] := by
  induction entries with
  | nil => rfl
  | cons entry rest ih =>
    obtain ⟨k, v⟩ := entry
    rw [List.map_cons, List.mem_cons, not_or] at h
    have hne : ¬k = key := fun e => h.1 e.symm
    simp [alterEntries, hne, ih h.2]

/-- New keys are written at the end, in their order. -/
theorem entries_insertAll {t : Table κ α} {entries : List (κ × α)}
    (h : ((t.entries ++ entries).map Prod.fst).Nodup) :
    (t.insertAll entries).entries = t.entries ++ entries := by
  induction entries generalizing t with
  | nil => simp [insertAll]
  | cons entry rest ih =>
    have hnew : entry.1 ∉ t.entries.map Prod.fst := by
      rw [List.map_append, List.map_cons, List.nodup_append] at h
      exact fun hmem => h.2.2 _ hmem _ List.mem_cons_self rfl
    have hinsert : (t.insert entry.1 entry.2).entries = t.entries ++ [entry] :=
      alterEntries_of_not_mem hnew
    have hrest := ih (t := t.insert entry.1 entry.2) (by simpa [hinsert] using h)
    simpa [insertAll, hinsert] using hrest

theorem ofList_entries (t : Table κ α) : ofList t.entries = t :=
  Table.ext (entries_insertAll t.nodup)

theorem mem_keys_insertAll {t : Table κ α} {entries : List (κ × α)} {key : κ}
    (h : key ∈ (t.insertAll entries).keys) : key ∈ t.keys ∨ key ∈ entries.map Prod.fst := by
  induction entries generalizing t with
  | nil => exact .inl h
  | cons entry rest ih =>
    rcases ih h with hinsert | hrest
    · have hkeys := keys_alter t entry.1 fun _ => entry.2
      change key ∈ (t.alter entry.1 fun _ => entry.2).keys at hinsert
      rw [hkeys] at hinsert
      split_ifs at hinsert
      · exact .inl hinsert
      · rw [List.mem_append, List.mem_singleton] at hinsert
        exact hinsert.imp_right fun heq => List.mem_cons.2 (.inl heq)
    · exact .inr (List.mem_cons_of_mem _ hrest)

end Table

namespace Json

variable {α β : Type}

/-! ## Lawful formats -/

/-- What a format writes is read as what was written, and blanks before a value do not matter. -/
structure Format.Lawful (format : Format α) : Prop where
  skips : ∀ cs, format.read (skipSpace cs) = format.read cs
  reads : ∀ value level rest, Stops rest →
    format.read ((format.write value).renderAt level ++ rest) = .ok (value, rest)

theorem readBy_skipSpace (read : Char → Reader α) (cs : List Char) :
    readBy read (skipSpace cs) = readBy read cs := by
  simp [readBy]

theorem readBy_cons (read : Char → Reader α) {c : Char} (h : isSpace c = false) (cs : List Char) :
    readBy read (c :: cs) = read c cs := by
  simp [readBy, skipSpace_cons h]

/-! ## Simple values -/

theorem readBounded_toDigits {limit n : Nat} (hlimit : n < limit) (hn : n ≤ maxSignificand)
    (expected : String) {rest : List Char} (hrest : Stops rest) :
    readBounded limit expected (Nat.toDigits 10 n ++ rest) = .ok (n, rest) := by
  have hnumber := readNumber_toDigits hn hrest
  obtain ⟨c, cs, hdigits, hspace, -⟩ := renderAt_eq_cons 0 (.number n)
  rw [renderAt] at hdigits
  have hc := isDigit_of_mem_toDigits (hdigits ▸ List.mem_cons_self : c ∈ Nat.toDigits 10 n)
  have hsign : c ≠ '-' := by
    rintro rfl
    cases hc
  rw [hdigits, List.cons_append] at hnumber ⊢
  simp only [readBounded, readBy_cons _ hspace, hsign, hc, if_true, if_false, hnumber, bind,
    Except.bind, boundedBy]
  simp [hlimit]

theorem word_lawful : Format.word.Lawful where
  skips cs := by simp [Format.word, readBounded, readBy_skipSpace]
  reads value level rest hrest := by
    have hsize : value.toNat < UInt32.size := value.toNat_lt
    have hword : UInt32.size ≤ maxSignificand := by simp [maxSignificand, UInt32.size]
    have hread := readBounded_toDigits hsize (hsize.le.trans hword) "u32" hrest
    simp only [Format.word, renderAt, hread, Except.map, Nat.toUInt32_eq, UInt32.ofNat_toNat]

theorem text_lawful : Format.text.Lawful where
  skips cs := by simp [Format.text, readBy_skipSpace]
  reads value level rest _ := by
    obtain ⟨cs, hcs, hread⟩ := readString_renderString value rest
    simp only [Format.text, renderAt, hcs, readBy_cons _ (show isSpace '\x22' = false by decide)]
    exact hread

theorem bool_lawful : Format.bool.Lawful where
  skips cs := by simp [Format.bool, readBy_skipSpace]
  reads value level rest _ := by
    cases value <;> rw [Format.bool, renderAt] <;> rfl

theorem option_lawful {format : Format α} (h : format.Lawful)
    (hnull : ∀ value, format.write value ≠ .null) : format.option.Lawful where
  skips cs := by simp [Format.option]
  reads value level rest hrest := by
    cases value with
    | none =>
      rw [Format.option, renderAt]
      rfl
    | some value =>
      obtain ⟨c, cs, hvalue, hspace, -, hletter⟩ := renderAt_eq_cons level (format.write value)
      have hread := h.reads value level rest hrest
      simp only [hvalue, List.cons_append] at hread
      simp only [Format.option, hvalue, List.cons_append, skipSpace_cons hspace]
      split
      · next heq =>
        cases heq
        exact absurd rfl (hletter (hnull value))
      · rw [hread]
        rfl

/-! ## Lists -/

theorem length_le_renderItems (level : Nat) (items : List Json) :
    items.length ≤ (renderItems level items).length := by
  induction items with
  | nil => simp
  | cons item items ih =>
    rw [renderItems]
    simp only [List.length_cons, List.length_append]
    omega

theorem length_newline_pos (level : Nat) : 0 < (newline level).length := by
  simp [newline]

theorem nextItem_comma (level : Nat) (value : Json) (rest : List Char) :
    nextItem false (',' :: (newline level ++ (value.renderAt level ++ rest))) =
      .ok (some (value.renderAt level ++ rest)) := by
  obtain ⟨c, cs, hvalue, hspace, hclose, -⟩ := renderAt_eq_cons level value
  simp only [nextItem, skipSpace_cons (show isSpace ',' = false by decide), skipSpace_newline,
    hvalue, List.cons_append, skipSpace_cons hspace, hclose]
  simp

theorem nextItem_first (level : Nat) (value : Json) (rest : List Char) :
    nextItem true (newline level ++ (value.renderAt level ++ rest)) =
      .ok (some (value.renderAt level ++ rest)) := by
  obtain ⟨c, cs, hvalue, hspace, hclose, -⟩ := renderAt_eq_cons level value
  simp [nextItem, skipSpace_newline, hvalue, skipSpace_cons hspace, hclose]

theorem readItems_renderItems {format : Format α} (h : format.Lawful) (level : Nat)
    (items : List α) {fuel : Nat} (hfuel : items.length < fuel) (rest : List Char) :
    readItems format.read fuel false (renderItems level (items.map format.write) ++ rest) =
      .ok (items, rest) := by
  induction items generalizing fuel with
  | nil =>
    obtain ⟨fuel, rfl⟩ : ∃ n, fuel = n + 1 := ⟨fuel - 1, by omega⟩
    have hspace : isSpace ']' = false := by decide
    simp [readItems, renderItems, nextItem, closeList, skipSpace_newline, skipSpace_cons hspace,
      bind, Except.bind]
  | cons item items ih =>
    obtain ⟨fuel, rfl⟩ : ∃ n, fuel = n + 1 := ⟨fuel - 1, by omega⟩
    have hread := h.reads item (level + 1) _
      (stops_renderItems level (items.map format.write) rest)
    have hrest := ih (Nat.lt_of_succ_lt_succ hfuel)
    simp only [List.map_cons, renderItems, List.cons_append, List.append_assoc, readItems,
      nextItem_comma, bind, Except.bind, hread, hrest]

theorem list_lawful {format : Format α} (h : format.Lawful) : format.list.Lawful where
  skips cs := by simp [Format.list, readBy_skipSpace]
  reads items level rest _ := by
    have hspace : isSpace '[' = false := by decide
    cases items with
    | nil =>
      simp only [Format.list, List.map_nil, renderAt, List.cons_append, List.nil_append,
        readBy_cons _ hspace]
      rfl
    | cons item items =>
      have hread := h.reads item (level + 1) _
        (stops_renderItems level (items.map format.write) rest)
      have hlength := length_le_renderItems level (items.map format.write)
      rw [List.length_map] at hlength
      have hnewline := length_newline_pos (level + 1)
      simp only [Format.list, List.map_cons, renderAt, List.cons_append, List.append_assoc,
        readBy_cons _ hspace, if_true, readItems, nextItem_first, bind, Except.bind, hread]
      rw [readItems_renderItems h level items (by simp only [List.length_append]; omega)]

/-! ## Objects -/

theorem length_le_renderMembers (level : Nat) (members : List (String × Json)) :
    members.length ≤ (renderMembers level members).length := by
  induction members with
  | nil => simp
  | cons member members ih =>
    rw [renderMembers]
    simp only [List.length_cons, List.length_append]
    omega

/-- The text of a member after its key. -/
def afterKey (level : Nat) (value : Json) (rest : List Char) : List Char :=
  ':' :: ' ' :: (value.renderAt (level + 1) ++ rest)

theorem nextKey_first (level : Nat) (key : String) (value : Json) (rest : List Char) :
    nextKey true (newline (level + 1) ++ (renderMember level (key, value) ++ rest)) =
      .ok (some (key, afterKey level value rest)) := by
  obtain ⟨cs, hcs, hread⟩ := readString_renderString key (afterKey level value rest)
  have hquote : isSpace '\x22' = false := by decide
  have hmember : renderMember level (key, value) ++ rest =
      renderString key ++ afterKey level value rest := by
    simp [renderMember, afterKey]
  rw [hmember, hcs]
  simp [nextKey, skipSpace_newline, skipSpace_cons hquote, hread, Except.map]

theorem nextKey_comma (level : Nat) (key : String) (value : Json) (rest : List Char) :
    nextKey false (',' :: (newline (level + 1) ++ (renderMember level (key, value) ++ rest))) =
      .ok (some (key, afterKey level value rest)) := by
  obtain ⟨cs, hcs, hread⟩ := readString_renderString key (afterKey level value rest)
  have hquote : isSpace '\x22' = false := by decide
  have hcomma : isSpace ',' = false := by decide
  have hmember : renderMember level (key, value) ++ rest =
      renderString key ++ afterKey level value rest := by
    simp [renderMember, afterKey]
  rw [hmember, hcs]
  simp [nextKey, skipSpace_newline, skipSpace_cons hquote, skipSpace_cons hcomma, hread, Except.map]

theorem nextKey_close (first : Bool) (level : Nat) (rest : List Char) :
    nextKey first (newline level ++ '\x7d' :: rest) = .ok none := by
  have hspace : isSpace '\x7d' = false := by decide
  simp [nextKey, skipSpace_newline, skipSpace_cons hspace]

theorem closeObject_newline (level : Nat) (rest : List Char) :
    closeObject (newline level ++ '\x7d' :: rest) = .ok rest := by
  have hspace : isSpace '\x7d' = false := by decide
  simp [closeObject, skipSpace_newline, skipSpace_cons hspace]

theorem colon_afterKey (level : Nat) (value : Json) (rest : List Char) :
    colon (afterKey level value rest) = .ok (' ' :: (value.renderAt (level + 1) ++ rest)) := by
  have hspace : isSpace ':' = false := by decide
  simp [colon, afterKey, skipSpace_cons hspace]

theorem Format.Lawful.reads_afterColon {format : Format α} (h : format.Lawful) (value : α)
    (level : Nat) {rest : List Char} (hrest : Stops rest) :
    format.read (' ' :: ((format.write value).renderAt level ++ rest)) = .ok (value, rest) := by
  rw [← h.skips, ← h.reads value level rest hrest, ← h.skips (_ ++ _)]
  rfl

/-! ## Tables -/

theorem readEntries_renderMembers {format : Format α} (h : format.Lawful) (level : Nat)
    (entries : List (String × α)) {fuel : Nat} (hfuel : entries.length < fuel)
    (table : Table String α) (rest : List Char) :
    readEntries format.read fuel false table
        (renderMembers level (entries.map fun entry => (entry.1, format.write entry.2)) ++ rest) =
      .ok (table.insertAll entries, rest) := by
  induction entries generalizing fuel table with
  | nil =>
    obtain ⟨fuel, rfl⟩ : ∃ n, fuel = n + 1 := ⟨fuel - 1, by omega⟩
    simp [readEntries, renderMembers, nextKey_close, closeObject_newline, bind, Except.bind,
      Table.insertAll]
  | cons entry entries ih =>
    obtain ⟨fuel, rfl⟩ : ∃ n, fuel = n + 1 := ⟨fuel - 1, by omega⟩
    have hread := h.reads_afterColon entry.2 (level + 1) (stops_renderMembers level
      (entries.map fun entry => (entry.1, format.write entry.2)) rest)
    have hrest := ih (Nat.lt_of_succ_lt_succ hfuel) (table.insert entry.1 entry.2)
    simp only [List.map_cons, renderMembers, List.cons_append, List.append_assoc, readEntries,
      nextKey_comma, colon_afterKey, bind, Except.bind, hread, hrest]
    rfl

theorem table_lawful {format : Format α} (h : format.Lawful) : format.table.Lawful where
  skips cs := by simp [Format.table, readBy_skipSpace]
  reads table level rest _ := by
    have hspace : isSpace '\x7b' = false := by decide
    have hentries := Table.ofList_entries table
    cases htable : table.entries with
    | nil =>
      rw [htable] at hentries
      simp only [Format.table, htable, List.map_nil, renderAt, List.cons_append, List.nil_append,
        readBy_cons _ hspace]
      rw [← hentries]
      rfl
    | cons entry entries =>
      rw [htable] at hentries
      have hread := h.reads_afterColon entry.2 (level + 1) (stops_renderMembers level
        (entries.map fun entry => (entry.1, format.write entry.2)) rest)
      have hlength := length_le_renderMembers level
        (entries.map fun entry => (entry.1, format.write entry.2))
      rw [List.length_map] at hlength
      have hnewline := length_newline_pos (level + 1)
      simp only [Format.table, htable, List.map_cons, renderAt, List.cons_append,
        List.append_assoc, readBy_cons _ hspace, if_true, readEntries, nextKey_first,
        colon_afterKey, bind, Except.bind, hread]
      rw [readEntries_renderMembers h level entries (by simp only [List.length_append]; omega)]
      exact congrArg (fun table => Except.ok (table, rest)) hentries

/-! ## Records -/

namespace Fields

/-- Every field has a lawful format. -/
def Lawful : {τ : Type} → Fields τ → Prop
  | _, nil => True
  | _, cons field rest => field.format.Lawful ∧ rest.Lawful

/-- The draft after the first fields have been read. -/
def drafted : {τ : Type} → (fields : Fields τ) → Nat → τ → fields.Draft
  | _, nil, _, _ => ()
  | _, cons _ rest, 0, _ => (none, rest.unset)
  | _, cons _ rest, count + 1, (value, values) => (some value, rest.drafted count values)

theorem drafted_zero {τ : Type} (fields : Fields τ) (values : τ) :
    fields.drafted 0 values = fields.unset := by
  cases fields <;> rfl

theorem map_fst_write {τ : Type} (fields : Fields τ) (values : τ) :
    (fields.write values).map Prod.fst = fields.names := by
  induction fields with
  | nil => rfl
  | cons field rest ih => simp [write, names, ih]

/-- When all fields have been read, the draft has the values. -/
theorem complete_drafted {τ : Type} (fields : Fields τ) (values : τ) :
    fields.complete (fields.drafted fields.names.length values) = .ok values := by
  induction fields with
  | nil => rfl
  | cons field rest ih =>
    obtain ⟨value, values⟩ := values
    simp only [names, List.length_cons, drafted, complete, Option.some_or, ih]
    rfl

/-- Reading the member of the next field. -/
theorem readMember_drafted {τ : Type} {fields : Fields τ} (h : fields.Lawful)
    (hnodup : fields.names.Nodup) (values : τ) {count : Nat} {key : String} {value : Json}
    (hmember : (fields.write values)[count]? = some (key, value)) (level : Nat) {rest : List Char}
    (hrest : Stops rest) :
    fields.readMember (fields.drafted count values) key (afterKey level value rest) =
      some (.ok (fields.drafted (count + 1) values, rest)) := by
  induction fields generalizing count with
  | nil => simp [write] at hmember
  | cons field others ih =>
    obtain ⟨first, values⟩ := values
    rw [names, List.nodup_cons] at hnodup
    cases count with
    | zero =>
      cases hmember
      have hread := h.1.reads_afterColon first (level + 1) hrest
      simp only [readMember, drafted, if_true, colon_afterKey, bind, Except.bind, hread,
        drafted_zero]
    | succ count =>
      have hmember : (others.write values)[count]? = some (key, value) := by
        simpa [write] using hmember
      have hkey : key ∈ others.names := by
        rw [← others.map_fst_write values]
        exact List.mem_map_of_mem (f := Prod.fst) (List.mem_of_getElem? hmember)
      -- The first field with the name takes the member, so that the names have to differ.
      have hne : key ≠ field.name := fun heq => hnodup.1 (heq ▸ hkey)
      simp only [readMember, drafted, hne, if_false, ih h.2 hnodup.2 values hmember]
      rfl

end Fields

namespace Record

/-- A record whose fields have lawful formats and distinct names, and whose values make it up. -/
structure Lawful (record : Record α) : Prop where
  fields : record.fields.Lawful
  nodup : record.fields.names.Nodup
  make_values : ∀ value, record.make (record.values value) = value

variable {record : Record α}

theorem readMembers_renderMembers (h : record.Lawful) (values : record.Values) (level : Nat)
    {count : Nat} {members : List (String × Json)}
    (hmembers : (record.fields.write values).drop count = members) {fuel : Nat}
    (hfuel : members.length < fuel) (rest : List Char) :
    record.readMembers fuel false (record.fields.drafted count values)
        (renderMembers level members ++ rest) =
      .ok (record.fields.drafted (count + members.length) values,
        newline level ++ '\x7d' :: rest) := by
  induction members generalizing count fuel with
  | nil =>
    obtain ⟨fuel, rfl⟩ : ∃ n, fuel = n + 1 := ⟨fuel - 1, by omega⟩
    simp [readMembers, renderMembers, nextKey_close, bind, Except.bind]
  | cons member members ih =>
    obtain ⟨fuel, rfl⟩ : ∃ n, fuel = n + 1 := ⟨fuel - 1, by omega⟩
    obtain ⟨key, value⟩ := member
    have hmember : (record.fields.write values)[count]? = some (key, value) := by
      rw [← List.head?_drop, hmembers]
      rfl
    have hothers : (record.fields.write values).drop (count + 1) = members := by
      rw [← List.tail_drop, hmembers]
      rfl
    have hread := Fields.readMember_drafted h.fields h.nodup values hmember level
      (stops_renderMembers level members rest)
    have hrest := ih hothers (Nat.lt_of_succ_lt_succ hfuel)
    simp only [renderMembers, List.cons_append, List.append_assoc, readMembers, nextKey_comma,
      bind, Except.bind, hread, hrest]
    rw [List.length_cons, Nat.add_assoc, Nat.add_comm 1]

theorem readMembers_write (h : record.Lawful) (values : record.Values) (level : Nat)
    (rest : List Char) :
    ∃ cs last, (Json.object (record.fields.write values)).renderAt level ++ rest = '\x7b' :: cs ∧
      record.readMembers (cs.length + 1) true record.fields.unset cs =
        .ok (record.fields.drafted record.fields.names.length values, last) ∧
      closeObject last = .ok rest := by
  have hnames := record.fields.map_fst_write values
  cases hmembers : record.fields.write values with
  | nil =>
    rw [hmembers] at hnames
    refine ⟨'\x7d' :: rest, '\x7d' :: rest, by rw [renderAt]; rfl, ?_, rfl⟩
    rw [← hnames, ← record.fields.drafted_zero values]
    rfl
  | cons member members =>
    obtain ⟨key, value⟩ := member
    have hmember : (record.fields.write values)[0]? = some (key, value) := by
      rw [hmembers]
      rfl
    have hothers : (record.fields.write values).drop 1 = members := by
      rw [hmembers]
      rfl
    have hread := Fields.readMember_drafted h.fields h.nodup values hmember level
      (stops_renderMembers level members rest)
    have hlength := length_le_renderMembers level members
    have hnewline := length_newline_pos (level + 1)
    refine ⟨newline (level + 1) ++ (renderMember level (key, value) ++
      (renderMembers level members ++ rest)), newline level ++ '\x7d' :: rest, ?_, ?_,
      closeObject_newline level rest⟩
    · rw [renderAt]
      simp
    · have hfuel : members.length < (newline (level + 1) ++ (renderMember level (key, value) ++
          (renderMembers level members ++ rest))).length := by
        simp only [List.length_append]
        omega
      have hrest := readMembers_renderMembers h values level hothers hfuel rest
      rw [Fields.drafted_zero] at hread
      simp only [readMembers, nextKey_first, bind, Except.bind, hread, hrest]
      rw [← hnames, hmembers]
      simp [Nat.add_comm]

theorem Lawful.format (h : record.Lawful) : record.format.Lawful where
  skips cs := by simp [Record.format, readBy_skipSpace]
  reads value level rest _ := by
    have hspace : isSpace '\x7b' = false := by decide
    obtain ⟨cs, last, hcs, hread, hclose⟩ :=
      readMembers_write h (record.values value) level rest
    simp only [Record.format, hcs, readBy_cons _ hspace, bind, Except.bind, hread, hclose,
      Fields.complete_drafted, h.make_values]
    rfl

theorem format_ne_null (record : Record α) (value : α) : record.format.write value ≠ .null :=
  fun h => by cases h

end Record

/-- A document that was written is read back. -/
theorem Format.Lawful.parse_print {format : Format α} (h : format.Lawful) (value : α) :
    format.parse (format.print value) = .ok value := by
  have hread := h.reads value 0 [] stops_nil
  rw [List.append_nil] at hread
  simp only [Format.parse, Format.print, render, String.toList_ofList, hread, bind, Except.bind]
  rfl

end Json

/-! ## Snapshots -/

namespace Snapshot

open Json

theorem diagnosticRecord_lawful : diagnosticRecord.Lawful where
  fields := ⟨word_lawful, text_lawful, word_lawful, word_lawful, text_lawful, trivial⟩
  nodup := by decide
  make_values _ := rfl

theorem spanRecord_lawful : spanRecord.Lawful where
  fields := ⟨text_lawful, word_lawful, word_lawful, text_lawful, trivial⟩
  nodup := by decide
  make_values _ := rfl

theorem optionText_lawful : (Format.option .text).Lawful :=
  option_lawful text_lawful fun _ h => by cases h

theorem slotRecord_lawful : slotRecord.Lawful where
  fields := ⟨text_lawful, text_lawful, optionText_lawful, trivial⟩
  nodup := by decide
  make_values _ := rfl

theorem nodeRecord_lawful : nodeRecord.Lawful where
  fields := ⟨text_lawful, word_lawful, word_lawful, text_lawful, text_lawful, text_lawful,
    bool_lawful, option_lawful slotRecord_lawful.format slotRecord.format_ne_null,
    option_lawful spanRecord_lawful.format spanRecord.format_ne_null, trivial⟩
  nodup := by decide
  make_values _ := rfl

theorem pairRecord_lawful : pairRecord.Lawful where
  fields := ⟨nodeRecord_lawful.format, nodeRecord_lawful.format, optionText_lawful,
    trivial⟩
  nodup := by decide
  make_values _ := rfl

theorem propertyRecord_lawful : propertyRecord.Lawful where
  fields := ⟨text_lawful, bool_lawful, trivial⟩
  nodup := by decide
  make_values _ := rfl

theorem memberRecord_lawful : memberRecord.Lawful where
  fields := ⟨text_lawful, word_lawful, word_lawful, word_lawful, word_lawful, text_lawful,
    bool_lawful, trivial⟩
  nodup := by decide
  make_values _ := rfl

theorem declarationRecord_lawful : declarationRecord.Lawful where
  fields := ⟨text_lawful, text_lawful, word_lawful, word_lawful,
    list_lawful memberRecord_lawful.format, list_lawful text_lawful, trivial⟩
  nodup := by decide
  make_values _ := rfl

theorem layerRecord_lawful : layerRecord.Lawful where
  fields := ⟨text_lawful, word_lawful, pairRecord_lawful.format, trivial⟩
  nodup := by decide
  make_values _ := rfl

theorem snapshotRecord_lawful : snapshotRecord.Lawful where
  fields := ⟨list_lawful diagnosticRecord_lawful.format,
    list_lawful pairRecord_lawful.format,
    table_lawful (table_lawful propertyRecord_lawful.format),
    list_lawful declarationRecord_lawful.format,
    list_lawful layerRecord_lawful.format, trivial⟩
  nodup := by decide
  make_values _ := rfl

/-- Every snapshot is read back with its shapes filed under normalized texts. -/
theorem parse_print (snapshot : Snapshot) :
    parse (print snapshot) = .ok snapshot.normalizeShapeKeys := by
  have hread := snapshotRecord_lawful.format.parse_print snapshot
  simp only [parse, print, hread]
  rfl

theorem normalizeShapeKeys_of_normalized {snapshot : Snapshot}
    (h : ∀ key ∈ snapshot.shapes.keys, TypeText.normalize key = key) :
    snapshot.normalizeShapeKeys = snapshot := by
  have hshapes : snapshot.normalizeShapeKeys.shapes = snapshot.shapes := by
    refine (congrArg Table.ofList ?_).trans (Table.ofList_entries _)
    refine (List.map_congr_left fun entry hentry => ?_).trans (List.map_id _)
    exact Prod.ext (h entry.1 (List.mem_map_of_mem (f := Prod.fst) hentry)) rfl
  change { snapshot with shapes := snapshot.normalizeShapeKeys.shapes } = snapshot
  rw [hshapes]

/-- Filing shapes under normalized texts once is enough. -/
theorem normalizeShapeKeys_normalizeShapeKeys (snapshot : Snapshot) :
    snapshot.normalizeShapeKeys.normalizeShapeKeys = snapshot.normalizeShapeKeys := by
  refine normalizeShapeKeys_of_normalized fun key hkey => ?_
  rcases Table.mem_keys_insertAll hkey with hempty | hlist
  · cases hempty
  · obtain ⟨entry, hentry, rfl⟩ := List.mem_map.1 hlist
    obtain ⟨old, -, rfl⟩ := List.mem_map.1 hentry
    exact TypeText.normalize_normalize old.1

/-- A snapshot that was read from a document is written as a document from which it is read again:
every list, every table with its order, every optional field and every text is as before. -/
theorem parse_print_of_parse {document : String} {snapshot : Snapshot}
    (h : parse document = .ok snapshot) : parse (print snapshot) = .ok snapshot := by
  unfold parse at h
  cases hread : snapshotRecord.format.parse document with
  | error fault =>
    rw [hread] at h
    cases h
  | ok found =>
    rw [hread] at h
    cases h
    rw [parse_print, normalizeShapeKeys_normalizeShapeKeys]

/-- A document with a diagnostic given by position, escapes, and two spellings of one type text. -/
def spelledTwice : String :=
  "\x7b \"diagnostics\": [[7, \"a\\u00e9\\n\\\"\\\\\\ud83d\\ude00\\u0001\", 3]],\n" ++
  "\"shapes\": \x7b\"x | y\": \x7b\x7d, \"z\": \x7b\x7d, \" x  | y\": \x7b\"k\": \x7b\"typeText\": \"number\"\x7d\x7d\x7d\x7d"

theorem spelledTwice_parse_print :
    ∃ snapshot, parse spelledTwice = .ok snapshot ∧
      snapshot.diagnostics = [⟨7, "aé\n\"\\😀\x01", 3, 0, ""⟩] ∧
      snapshot.shapes = .ofList [("x | y", .ofList [("k", ⟨"number", false⟩)]), ("z", ∅)] ∧
      parse (print snapshot) = .ok snapshot := by
  have hparse : parse spelledTwice = .ok
      ⟨[⟨7, "aé\n\"\\😀\x01", 3, 0, ""⟩], [],
        .ofList [("x | y", .ofList [("k", ⟨"number", false⟩)]), ("z", ∅)], [], []⟩ := by
    decide +kernel
  exact ⟨_, hparse, rfl, rfl, parse_print_of_parse hparse⟩

end Snapshot

end TypeMend
