import TypeMend.Text.Numeral

/-!
# Command-line arguments

Arguments are read from left to right. What an option does happens when its value is complete,
which is when the next argument that is understood begins, or at the end; an argument that is not
understood ends reading at once, whatever was still to be done.
-/
namespace TypeMend

structure Arguments where
  snapshot : String
  project : Option String
  config : Option String
  yes : Bool
  dryRun : Bool
  reportJson : Option String
  indentUnit : Option String
  maxLayerDepth : Option Nat
  noOuterCandidates : Bool
  noColor : Bool
  deriving DecidableEq

/-- Why arguments were not accepted, or which text was asked for instead of a run. -/
inductive ArgumentsFault
  | unknownArgument
  | missingRequired
  | tooManyValues
  | conflict
  | valueValidation
  | invalidValue
  | displayHelp
  | displayVersion
  deriving DecidableEq

namespace Arguments

/-- The options that take no value. -/
inductive Switch
  | yes
  | dryRun
  | noOuterCandidates
  | noColor
  | help
  | version
  deriving DecidableEq

/-- What takes a value: the options, and the argument without a name. -/
inductive Slot
  | snapshot
  | project
  | config
  | reportJson
  | indentUnit
  | maxLayerDepth
  deriving DecidableEq

inductive Opt
  | switch (switch : Switch)
  | slot (slot : Slot)
  deriving DecidableEq

def long? (name : String) : Option Opt :=
  [("project", .slot .project), ("config", .slot .config), ("yes", .switch .yes),
    ("dryRun", .switch .dryRun), ("dry-run", .switch .dryRun),
    ("reportJson", .slot .reportJson), ("report-json", .slot .reportJson),
    ("indentUnit", .slot .indentUnit), ("indent-unit", .slot .indentUnit),
    ("maxLayerDepth", .slot .maxLayerDepth), ("max-layer-depth", .slot .maxLayerDepth),
    ("noOuterCandidates", .switch .noOuterCandidates),
    ("no-outer-candidates", .switch .noOuterCandidates),
    ("noColor", .switch .noColor), ("no-color", .switch .noColor),
    ("help", .switch .help), ("version", .switch .version)].lookup name

def short? (letter : Char) : Option Opt :=
  [('p', Opt.slot .project), ('c', .slot .config), ('y', .switch .yes), ('h', .switch .help),
    ('V', .switch .version)].lookup letter

/-- What has been read so far. -/
structure Draft where
  switches : List Switch
  values : List (Slot × String)
  /-- The slot whose value is not complete yet, with its value if it has come. -/
  pending : Option (Slot × Option String)
  deriving DecidableEq

/-- What a value has to be: a path is not empty, a depth is a count. -/
def checkValue (slot : Slot) (value : String) : Except ArgumentsFault Unit :=
  match slot with
  | .indentUnit => .ok ()
  | .maxLayerDepth =>
    if (Text.count? value.toList).isSome then .ok () else .error .valueValidation
  | _ => if value.isEmpty then .error .invalidValue else .ok ()

/-- Gives a slot its value. A slot has one value at most. -/
def Draft.assign (draft : Draft) (slot : Slot) (value : String) :
    Except ArgumentsFault Draft := do
  if (draft.values.lookup slot).isSome then throw .conflict
  checkValue slot value
  return { draft with values := draft.values ++ [(slot, value)] }

/-- Completes the slot that is pending. -/
def Draft.settle (draft : Draft) : Except ArgumentsFault Draft :=
  match draft.pending with
  | none => .ok draft
  | some (_, none) => .error .invalidValue
  | some (slot, some value) => { draft with pending := none }.assign slot value

/-- Turns a switch on. A switch is turned on once at most. -/
def Draft.turnOn (draft : Draft) (switch : Switch) : Except ArgumentsFault Draft := do
  let draft ← draft.settle
  match switch with
  | .help => throw .displayHelp
  | .version => throw .displayVersion
  | switch =>
    if draft.switches.contains switch then throw .conflict
    return { draft with switches := switch :: draft.switches }

/-- Gives a slot the value attached to its name, or lets it wait for one. -/
def Draft.begin (draft : Draft) (slot : Slot) (attached : Option String) :
    Except ArgumentsFault Draft := do
  let draft ← draft.settle
  match attached with
  | some value => draft.assign slot value
  | none => return { draft with pending := some (slot, none) }

/-- A text before and after its first equals sign. -/
def splitEquals : List Char → List Char × Option (List Char)
  | [] => ([], none)
  | '=' :: cs => ([], some cs)
  | c :: cs =>
    let (name, value) := splitEquals cs
    (c :: name, value)

def readLong (draft : Draft) (cs : List Char) : Except ArgumentsFault Draft :=
  let (name, attached) := splitEquals cs
  match long? (String.ofList name), attached with
  | none, _ => .error .unknownArgument
  | some (.switch _), some _ => .error .tooManyValues
  | some (.switch switch), none => draft.turnOn switch
  | some (.slot slot), attached => draft.begin slot (attached.map String.ofList)

/-- Reads letters. The first that takes a value takes the rest of the letters as its value. -/
def readShort (draft : Draft) : List Char → Except ArgumentsFault Draft
  | [] => .ok draft
  | c :: cs =>
    match short? c with
    | none => .error .unknownArgument
    | some (.switch switch) => do readShort (← draft.turnOn switch) cs
    | some (.slot slot) =>
      let attached := match cs with
        | [] => none
        | '=' :: value => some value
        | value => some value
      draft.begin slot (attached.map String.ofList)

def readPlain (draft : Draft) (value : String) : Except ArgumentsFault Draft :=
  let seen := (draft.values.lookup .snapshot).isSome || match draft.pending with
    | some (.snapshot, _) => true
    | _ => false
  if seen then .error .unknownArgument
  else do
    let draft ← draft.settle
    return { draft with pending := some (.snapshot, some value) }

/-- Reads arguments. After `--` none is an option. -/
def readAll : Bool → Draft → List String → Except ArgumentsFault Draft
  | _, draft, [] => draft.settle
  | plain, draft, argument :: rest => do
    let cs := argument.toList
    if plain then readAll plain (← readPlain draft argument) rest
    else
      match cs with
      | ['-', '-'] => readAll true draft rest
      | '-' :: '-' :: name => readAll plain (← readLong draft name) rest
      | '-' :: c :: letters => readAll plain (← readShort draft (c :: letters)) rest
      | _ =>
        match draft.pending with
        | some (slot, none) =>
          readAll plain { draft with pending := some (slot, some argument) } rest
        | _ => readAll plain (← readPlain draft argument) rest

def parse (argv : List String) : Except ArgumentsFault Arguments := do
  let draft ← readAll false ⟨[], [], none⟩ argv
  let value (slot : Slot) : Option String := draft.values.lookup slot
  let isOn (switch : Switch) : Bool := draft.switches.contains switch
  match value .snapshot with
  | none => throw .missingRequired
  | some snapshot =>
    return {
      snapshot := snapshot
      project := value .project
      config := value .config
      yes := isOn .yes
      dryRun := isOn .dryRun
      reportJson := value .reportJson
      indentUnit := value .indentUnit
      maxLayerDepth := (value .maxLayerDepth).bind fun text => Text.count? text.toList
      noOuterCandidates := isOn .noOuterCandidates
      noColor := isOn .noColor }

end Arguments

end TypeMend
