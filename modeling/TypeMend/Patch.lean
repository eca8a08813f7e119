import TypeMend.Candidate
import TypeMend.Insertion

/-!
# Patches

The edits that were chosen are turned into text changes of their files and applied. All changes
refer to the text as it was loaded. They are accepted in the order in which they were chosen: one
that touches a change accepted before it is dropped and reported.
-/
namespace TypeMend

/-- Why an edit was not applied. -/
inductive UnappliedReason
  /-- It touches an edit accepted before, whose range is given. -/
  | overlap (start stop : Nat)
  /-- Its range does not fit the text. -/
  | outOfBounds
  /-- The declaration has no braces to insert between. -/
  | noInsertionPoint
  deriving DecidableEq

def UnappliedReason.message : UnappliedReason → String
  | overlap start stop => s!"overlaps the edit at {start}..{stop}"
  | outOfBounds => "range is outside the file"
  | noInsertionPoint => "no closing delimiter to insert before"

structure UnappliedEdit where
  file : String
  kind : EditKind
  start : Nat
  stop : Nat
  text : String
  reason : UnappliedReason
  deriving DecidableEq

/-- Chosen edits by the file they write to, each list in the order of choice. -/
abbrev PendingEdits := Table String (List Edit)

namespace PendingEdits

def push (pending : PendingEdits) (file : String) (edit : Edit) : PendingEdits :=
  pending.alter file fun edits => edits.getD [] ++ [edit]

def of (pending : PendingEdits) (file : String) : List Edit :=
  (pending.get? file).getD []

def total (pending : PendingEdits) : Nat :=
  pending.values.foldl (fun n edits => n + edits.length) 0

/-- Adds edits, each under the file of the node it writes to. -/
def pushAll (ws : Workspace) (pending : PendingEdits) (edits : List Edit) : PendingEdits :=
  edits.foldl (fun pending edit => pending.push (ws.node edit.writtenNode).file edit) pending

end PendingEdits

/-- What an edit comes to. -/
inductive Resolved
  | change (change : TextChange)
  /-- The text is already as the edit wants it. -/
  | satisfied
  | refused (reason : UnappliedReason) (start stop : Nat)
  deriving DecidableEq

/-- What applying edits produced. -/
structure PatchOutcome where
  /-- The new text of each file that changed. -/
  files : Table String String
  unapplied : List UnappliedEdit
  deriving DecidableEq

namespace Patch

def hasArrow : List Char → Bool
  | '=' :: '>' :: _ => true
  | _ :: cs => hasArrow cs
  | [] => false

/-- A type as a member of a union. A function type is put into parentheses. -/
def unionMember (typeText : String) : String :=
  if hasArrow typeText.toList then s!"({typeText})" else typeText

/-- Widens a written type by another, unless that is a member of it already. -/
def widen (declared other : Node) : Resolved :=
  let addition := TypeText.normalize other.typeText
  if (TypeText.splitUnion declared.text).any fun member =>
      TypeText.normalize member == addition then
    .satisfied
  else
    .change ⟨declared.start, declared.stop,
      s!"{unionMember declared.text} | {unionMember other.typeText}"⟩

def insertMember (unit : String) (declaration : Node) (property : String) (cs : List Char) :
    Resolved :=
  match Insertion.change? unit declaration.start declaration.stop property cs with
  | some change => .change change
  | none => .refused .noInsertionPoint declaration.start declaration.stop

/-- Marks a member as optional, unless it is. -/
def markOptional (name : Node) (cs : List Char) : Resolved :=
  match Text.cut? name.stop cs with
  | some (_, '?' :: _) => .satisfied
  | _ => .change (.insertion name.stop "?")

/-- What an edit comes to in the text of its file, before its range is checked. `prime` and
`other` are the nodes of the edit. -/
def propose (options : Options) (kind : EditKind) (prime : Node) (other : Option Node)
    (cs : List Char) : Resolved :=
  match kind, other with
  | .makeOptional, _ => markOptional prime cs
  | _, none => .refused .noInsertionPoint prime.start prime.stop
  | .convertType, some other => .change ⟨other.start, other.stop, prime.typeText⟩
  | .unionType, some other => widen prime other
  | .insertProperty, some declaration =>
    insertMember options.indentUnit declaration s!"{prime.text}: {prime.typeText}" cs
  | .insertOptionalProperty, some declaration =>
    insertMember options.indentUnit declaration s!"{prime.text}?: {prime.typeText}" cs

/-- Refuses a change whose range does not fit the text. -/
def confine (cs : List Char) : Resolved → Resolved
  | .change change =>
    if change.fits cs then .change change
    else .refused .outOfBounds change.start change.stop
  | resolved => resolved

/-- What an edit comes to in the text of its file. -/
def resolve (ws : Workspace) (options : Options) (edit : Edit) (cs : List Char) : Resolved :=
  confine cs <|
    propose options edit.kind (ws.node edit.prime) (edit.other.map ws.node) cs

def change? (ws : Workspace) (options : Options) (edit : Edit) : Option TextChange := do
  let text ← ws.fileText? (ws.node edit.writtenNode).file
  match resolve ws options edit text.toList with
  | .change change => some change
  | _ => none

/-- The changes accepted for a file and the edits that were not. -/
structure Selection where
  accepted : List TextChange
  unapplied : List UnappliedEdit
  deriving DecidableEq

/-- Takes one more edit into a selection. A change that is there already is not taken again, and
one that touches an accepted change is reported with the earliest such. -/
def Selection.add (file : String) (selection : Selection) (edit : Edit) :
    Resolved → Selection
  | .satisfied => selection
  | .refused reason start stop =>
    { selection with
      unapplied := selection.unapplied ++ [⟨file, edit.kind, start, stop, "", reason⟩] }
  | .change change =>
    if change ∈ selection.accepted then selection
    else
      match selection.accepted.find? fun earlier => earlier.intersects change with
      | some earlier =>
        { selection with
          unapplied := selection.unapplied ++
            [⟨file, edit.kind, change.start, change.stop, change.text,
              .overlap earlier.start earlier.stop⟩] }
      | none => { selection with accepted := selection.accepted ++ [change] }

def select (ws : Workspace) (options : Options) (file : String) (cs : List Char)
    (edits : List Edit) : Selection :=
  edits.foldl (fun selection edit => selection.add file edit (resolve ws options edit cs)) ⟨[], []⟩

/-- Applies the edits of further files to an outcome. -/
def applyFiles (ws : Workspace) (options : Options) :
    List (String × List Edit) → PatchOutcome → Except Failure PatchOutcome
  | [], outcome => .ok outcome
  | (file, edits) :: rest, outcome =>
    match ws.fileText? file with
    | none => .error (.unknownFile file)
    | some text =>
      let selection := select ws options file text.toList edits
      match TextChange.applyAll? text selection.accepted with
      | none => .error (.misplacedChange file)
      | some patched =>
        applyFiles ws options rest
          { files := if patched = text then outcome.files else outcome.files.insert file patched
            unapplied := outcome.unapplied ++ selection.unapplied }

/-- Applies all chosen edits. Files whose text does not change are left out. -/
def apply (ws : Workspace) (options : Options) (pending : PendingEdits) :
    Except Failure PatchOutcome :=
  applyFiles ws options pending.entries ⟨∅, []⟩

end Patch

end TypeMend
