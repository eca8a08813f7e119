import TypeMend.Command.Arguments
import TypeMend.Json.Format
import TypeMend.Options
import TypeMend.Text.Blank

/-!
# Configuration

A configuration file may set what the command line leaves open. What the command line says wins.
-/
namespace TypeMend

/-- Who answers. -/
inductive AutoSelect
  /-- The user is asked. -/
  | none
  /-- The first candidate is taken. -/
  | first
  deriving DecidableEq

def AutoSelect.name : AutoSelect → String
  | none => "none"
  | first => "first"

structure Config where
  indentUnit : Option String
  maxLayerDepth : Option Nat
  outerCandidates : Option Bool
  autoSelect : Option AutoSelect
  dryRun : Option Bool
  deriving DecidableEq

/-- What is wrong with a configuration file. -/
inductive ConfigFault
  | document (error : Json.Error)
  /-- The indentation has characters that are not blank. -/
  | visibleIndent
  deriving DecidableEq

def ConfigFault.message : ConfigFault → String
  | document error => error.message
  | visibleIndent => "indentUnit must contain only whitespace"

/-- All that a run goes by. -/
structure Settings where
  options : Options
  autoSelect : AutoSelect
  dryRun : Bool
  deriving DecidableEq

namespace AutoSelect

open Json

/-- The way to answer that a name stands for. -/
def ofName (name : String) : Except Json.Error AutoSelect :=
  match [none, first].find? fun choice => choice.name == name with
  | some choice => .ok choice
  | Option.none => .error (.unknownVariant name ["none", "first"])

/-- Reads `null`. -/
def readNull : Reader Unit :=
  readBy fun c cs =>
    if c = 'n' then (readWord ['u', 'l', 'l'] cs).map fun rest => ((), rest)
    else .error (unexpected "unit" (c :: cs))

/-- Reads the name of a way to answer as the only key of an object, with `null` as its value. -/
def readTagged : Reader AutoSelect := fun cs => do
  match ← nextKey true cs with
  | Option.none => .error .expectedValue
  | some (name, cs) =>
    let choice ← ofName name
    let ((), cs) ← readNull (← colon cs)
    match skipSpace cs with
    | [] => .error .endInObject
    | c :: cs => if c = '\x7d' then .ok (choice, cs) else .error .expectedValue

/-- Ways to answer in a document: by name, or by name in an object. -/
def format : Format AutoSelect where
  read := readBy fun c cs =>
    if c = '\x22' then do
      let (name, cs) ← readString cs
      .ok (← ofName name, cs)
    else if c = '\x7b' then readTagged cs
    else .error .expectedValue
  write := fun choice => .string choice.name

end AutoSelect

namespace Config

open Json

/-- The configuration that sets nothing. -/
protected def empty : Config :=
  ⟨none, none, none, none, none⟩

instance : EmptyCollection Config := ⟨Config.empty⟩

def record : Record Config where
  title := "FixConfig"
  fields :=
    may "indentUnit" (.option .text) none <| may "maxLayerDepth" (.option .count) none <|
    may "outerCandidates" (.option .bool) none <|
    may "autoSelect" (.option AutoSelect.format) none <| may "dryRun" (.option .bool) none .nil
  strict := true
  make := fun (indentUnit, maxLayerDepth, outerCandidates, autoSelect, dryRun, ()) =>
    ⟨indentUnit, maxLayerDepth, outerCandidates, autoSelect, dryRun⟩
  values := fun c =>
    (c.indentUnit, c.maxLayerDepth, c.outerCandidates, c.autoSelect, c.dryRun, ())

/-- Reads a configuration. Its indentation has to be blank. -/
def parse (document : String) : Except ConfigFault Config :=
  match record.format.parse document with
  | .error error => .error (.document error)
  | .ok config =>
    if (config.indentUnit.getD "").toList.all Text.isBlank then .ok config
    else .error .visibleIndent

/-- Puts a configuration and the arguments together. -/
def resolve (config : Config) (args : Arguments) : Settings where
  options :=
    { maxLayerDepth := (args.maxLayerDepth.or config.maxLayerDepth).getD Options.default.maxLayerDepth
      indentUnit := (args.indentUnit.or config.indentUnit).getD Options.default.indentUnit
      outerCandidates :=
        !args.noOuterCandidates && config.outerCandidates.getD Options.default.outerCandidates }
  autoSelect := if args.yes then .first else config.autoSelect.getD .none
  dryRun := args.dryRun || config.dryRun.getD false

end Config

end TypeMend
