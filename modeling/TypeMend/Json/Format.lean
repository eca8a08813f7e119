import TypeMend.Json.Skip
import TypeMend.Json.Value
import TypeMend.Table

/-!
# Formats: reading and writing as one

A `Format` says how a value stands in a document: how it is read, streaming from left to right,
and which document is written for it. Formats of simple values are combined into formats of
lists, tables and records. A record may be given as an object or, in the order of its fields, as
a list.
-/
namespace TypeMend.Json

open Text (isDigit)

variable {α β : Type}

/-- How a value stands in a document. -/
structure Format (α : Type) where
  read : Reader α
  write : α → Json

/-! ## Simple values -/

/-- Names the value at the front of a text. -/
def found : List Char → Except Error Found
  | [] => .error .expectedValue
  | c :: cs =>
    if c = 'n' then (readWord ['u', 'l', 'l'] cs).map fun _ => .null
    else if c = 't' then (readWord ['r', 'u', 'e'] cs).map fun _ => .boolean true
    else if c = 'f' then (readWord ['a', 'l', 's', 'e'] cs).map fun _ => .boolean false
    else if c = '-' then (readNumber false cs).map fun (n, _) => n.found
    else if isDigit c then (readNumber true (c :: cs)).map fun (n, _) => n.found
    else if c = '\x22' then (readString cs).map fun (s, _) => .string s
    else if c = '[' then .ok .sequence
    else if c = '\x7b' then .ok .map
    else .error .expectedValue

/-- The fault of a value that is not of the expected kind, or of the value itself. -/
def unexpected (expected : String) (cs : List Char) : Error :=
  match found cs with
  | .ok value => .invalidType value expected
  | .error e => e

/-- Reads a value by its first character, once blanks before it have been dropped. -/
def readBy (read : Char → Reader α) : Reader α := fun cs =>
  match skipSpace cs with
  | [] => .error .endInValue
  | c :: cs => read c cs

def boundedBy (limit : Nat) (expected : String) : Number × List Char → Except Error (Nat × List Char)
  | (.integer value, rest) =>
    if 0 ≤ value ∧ value < limit then .ok (value.toNat, rest)
    else .error (.invalidValue value expected)
  | (.float value, _) => .error (.invalidType (Number.float value).found expected)

/-- Reads a natural number below a limit. -/
def readBounded (limit : Nat) (expected : String) : Reader Nat :=
  readBy fun c cs =>
    if c = '-' then readNumber false cs >>= boundedBy limit expected
    else if isDigit c then readNumber true (c :: cs) >>= boundedBy limit expected
    else .error (unexpected expected (c :: cs))

/-- An offset, a code or a length: a natural number of 32 bits. -/
def Format.word : Format UInt32 where
  read := fun cs => (readBounded UInt32.size "u32" cs).map fun (n, rest) => (n.toUInt32, rest)
  write := fun value => .number value.toNat

/-- A count: a natural number of 64 bits. -/
def Format.count : Format Nat where
  read := readBounded UInt64.size "usize"
  write := .number

def Format.text : Format String where
  read := readBy fun c cs =>
    if c = '\x22' then readString cs else .error (unexpected "a string" (c :: cs))
  write := .string

def Format.bool : Format Bool where
  read := readBy fun c cs =>
    if c = 't' then (readWord ['r', 'u', 'e'] cs).map fun rest => (true, rest)
    else if c = 'f' then (readWord ['a', 'l', 's', 'e'] cs).map fun rest => (false, rest)
    else .error (unexpected "a boolean" (c :: cs))
  write := .bool

def Format.option (format : Format α) : Format (Option α) where
  read := fun cs =>
    match skipSpace cs with
    | 'n' :: rest => (readWord ['u', 'l', 'l'] rest).map fun rest => (none, rest)
    | rest => (format.read rest).map fun (value, rest) => (some value, rest)
  write
    | some value => format.write value
    | none => .null

/-! ## Lists -/

/-- Goes to the next item of a list: the text at which it begins, or none before the closing
bracket. -/
def nextItem (first : Bool) (cs : List Char) : Except Error (Option (List Char)) :=
  match skipSpace cs with
  | [] => .error .endInList
  | c :: rest =>
    if c = ']' then .ok none
    else if first then .ok (some (c :: rest))
    else if c = ',' then
      match skipSpace rest with
      | [] => .error .endInValue
      | d :: rest => if d = ']' then .error .trailingComma else .ok (some (d :: rest))
    else .error .expectedListComma

/-- The text after the closing bracket of a list. -/
def closeList (cs : List Char) : Except Error (List Char) :=
  match skipSpace cs with
  | [] => .error .endInList
  | c :: rest =>
    if c = ']' then .ok rest
    else if c = ',' then
      match skipSpace rest with
      | ']' :: _ => .error .trailingComma
      | _ => .error .trailingCharacters
    else .error .trailingCharacters

/-- The items of a list up to its closing bracket. Each item takes at least one character, so
the number of characters bounds the number of items. -/
def readItems (read : Reader α) : Nat → Bool → Reader (List α)
  | 0, _, _ => .error .endInList
  | fuel + 1, first, cs => do
    match ← nextItem first cs with
    | none => .ok ([], ← closeList cs)
    | some cs =>
      let (item, cs) ← read cs
      let (items, cs) ← readItems read fuel false cs
      .ok (item :: items, cs)

def Format.list (format : Format α) : Format (List α) where
  read := readBy fun c cs =>
    if c = '[' then readItems format.read (cs.length + 1) true cs
    else .error (unexpected "a sequence" (c :: cs))
  write := fun items => .array (items.map format.write)

/-! ## Tables -/

/-- Goes to the next member of an object: its key and the text after it, or none before the
closing brace. -/
def nextKey (first : Bool) (cs : List Char) : Except Error (Option (String × List Char)) :=
  match skipSpace cs with
  | [] => .error .endInObject
  | c :: rest =>
    if c = '\x7d' then .ok none
    else if first then
      if c = '\x22' then (readString rest).map some else .error .keyNotString
    else if c = ',' then
      match skipSpace rest with
      | [] => .error .endInValue
      | d :: rest =>
        if d = '\x22' then (readString rest).map some
        else if d = '\x7d' then .error .trailingComma
        else .error .keyNotString
    else .error .expectedObjectComma

/-- The text after the colon of a member. -/
def colon (cs : List Char) : Except Error (List Char) :=
  match skipSpace cs with
  | [] => .error .endInObject
  | c :: rest => if c = ':' then .ok rest else .error .expectedColon

/-- The text after the closing brace of an object. -/
def closeObject (cs : List Char) : Except Error (List Char) :=
  match skipSpace cs with
  | [] => .error .endInObject
  | c :: rest =>
    if c = '\x7d' then .ok rest
    else if c = ',' then .error .trailingComma
    else .error .trailingCharacters

/-- The members of an object, written into a table one after the other. -/
def readEntries (read : Reader α) : Nat → Bool → Table String α → Reader (Table String α)
  | 0, _, _, _ => .error .endInObject
  | fuel + 1, first, table, cs => do
    match ← nextKey first cs with
    | none => .ok (table, ← closeObject cs)
    | some (key, cs) =>
      let (value, cs) ← read (← colon cs)
      readEntries read fuel false (table.insert key value) cs

/-- An object whose keys are data. A repeated key replaces the value and keeps its place. -/
def Format.table (format : Format α) : Format (Table String α) where
  read := readBy fun c cs =>
    if c = '\x7b' then readEntries format.read (cs.length + 1) true ∅ cs
    else .error (unexpected "a map" (c :: cs))
  write := fun table => .object (table.entries.map fun (key, value) => (key, format.write value))

/-! ## Records -/

/-- One field of a record. A field with a fallback may be left out. -/
structure Field (α : Type) where
  name : String
  format : Format α
  fallback : Option α

/-- The fields of a record, whose values form a tuple. -/
inductive Fields : Type → Type 1
  | nil : Fields Unit
  | cons {α β : Type} (field : Field α) (rest : Fields β) : Fields (α × β)

/-- Puts a field that has to be present in front. -/
def need (name : String) (format : Format α) (rest : Fields β) : Fields (α × β) :=
  .cons ⟨name, format, none⟩ rest

/-- Puts a field that may be left out in front. -/
def may (name : String) (format : Format α) (fallback : α) (rest : Fields β) : Fields (α × β) :=
  .cons ⟨name, format, some fallback⟩ rest

namespace Fields

/-- The values read so far, one place for each field. -/
def Draft : {τ : Type} → Fields τ → Type
  | _, nil => Unit
  | _, @cons α _ _ rest => Option α × rest.Draft

/-- The draft in which nothing has been read. -/
def unset : {τ : Type} → (fields : Fields τ) → fields.Draft
  | _, nil => ()
  | _, cons _ rest => (none, rest.unset)

def names : {τ : Type} → Fields τ → List String
  | _, nil => []
  | _, cons field rest => field.name :: rest.names

/-- Reads the member with a key into the draft. There is no result when no field has this key.
A field that was read before is a fault, met before the colon. -/
def readMember : {τ : Type} → (fields : Fields τ) → fields.Draft → String → List Char →
    Option (Except Error (fields.Draft × List Char))
  | _, nil, _, _, _ => none
  | _, @cons α _ field rest, draft, key, cs =>
    let slot : Option α := draft.1
    let others : rest.Draft := draft.2
    if key = field.name then
      some (match slot with
        | some _ => .error (.duplicateField key)
        | none => do
          let (value, cs) ← field.format.read (← colon cs)
          .ok ((some value, others), cs))
    else
      (rest.readMember others key cs).map fun result =>
        result.map fun (others, cs) => ((slot, others), cs)

/-- The values of a draft, with fallbacks for the fields that were left out. -/
def complete : {τ : Type} → (fields : Fields τ) → fields.Draft → Except Error τ
  | _, nil, _ => .ok ()
  | _, @cons α _ field rest, draft =>
    let slot : Option α := draft.1
    let others : rest.Draft := draft.2
    match slot.or field.fallback with
    | none => .error (.missingField field.name)
    | some value => (rest.complete others).map fun values => (value, values)

/-- Reads the fields as the items of a list. `title` and `total` name the record in the fault
of a list that is too short, and `index` counts the fields before. -/
def readItems (title : String) (total : Nat) :
    {τ : Type} → (fields : Fields τ) → Nat → Bool → Reader τ
  | _, nil, _, _, cs => .ok ((), cs)
  | _, cons field rest, index, first, cs => do
    match ← nextItem first cs with
    | some cs =>
      let (value, cs) ← field.format.read cs
      let (values, cs) ← rest.readItems title total (index + 1) false cs
      .ok ((value, values), cs)
    | none =>
      match field.fallback with
      | none => .error (.invalidLength index title total)
      | some value =>
        let (values, cs) ← rest.readItems title total (index + 1) first cs
        .ok ((value, values), cs)

def write : {τ : Type} → Fields τ → τ → List (String × Json)
  | _, nil, _ => []
  | _, cons field rest, (value, values) => (field.name, field.format.write value) :: rest.write values

end Fields

/-- A record of a document. -/
structure Record (α : Type) where
  title : String
  {Values : Type}
  fields : Fields Values
  /-- Whether a member that is no field is a fault. -/
  strict : Bool
  make : Values → α
  values : α → Values

namespace Record

/-- Reads the members of an object into a draft up to the closing brace. -/
def readMembers (record : Record α) :
    Nat → Bool → record.fields.Draft → Reader record.fields.Draft
  | 0, _, _, _ => .error .endInObject
  | fuel + 1, first, draft, cs => do
    match ← nextKey first cs with
    | none => .ok (draft, cs)
    | some (key, cs) =>
      match record.fields.readMember draft key cs with
      | some result =>
        let (draft, cs) ← result
        record.readMembers fuel false draft cs
      | none =>
        if record.strict then .error (.unknownField key record.fields.names)
        else
          let cs ← skipValue (← colon cs)
          record.readMembers fuel false draft cs

def format (record : Record α) : Format α where
  read := readBy fun c cs =>
    if c = '[' then do
      let (values, cs) ←
        record.fields.readItems record.title record.fields.names.length 0 true cs
      .ok (record.make values, ← closeList cs)
    else if c = '\x7b' then do
      let (draft, cs) ← record.readMembers (cs.length + 1) true record.fields.unset cs
      let values ← record.fields.complete draft
      .ok (record.make values, ← closeObject cs)
    else .error (unexpected s!"struct {record.title}" (c :: cs))
  write := fun value => .object (record.fields.write (record.values value))

end Record

/-! ## Whole documents -/

/-- Reads a document that consists of one value. -/
def Format.parse (format : Format α) (document : String) : Except Error α := do
  let (value, rest) ← format.read document.toList
  if (skipSpace rest).isEmpty then .ok value else .error .trailingCharacters

def Format.print (format : Format α) (value : α) : String :=
  (format.write value).render

end TypeMend.Json
