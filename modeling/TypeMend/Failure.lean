import TypeMend.Json.Error
import TypeMend.Table

/-!
# Failures

What can stop a run. Diagnostics that are not understood and edits that do not fit are not
failures: they are reported.
-/
namespace TypeMend

/-- Why a file could not be read or written. -/
inductive FileFault
  /-- The file is not in a store that is kept in memory. -/
  | notInStore
  | notFound
  | notDirectory
  | isDirectory
  | notUtf8
  | nullInName
  | nameTooLong
  /-- A fault of the system, in its own words. -/
  | other (message : String)
  deriving DecidableEq

def FileFault.message : FileFault → String
  | notInStore => "not in memory store"
  | notFound => "No such file or directory (os error 2)"
  | notDirectory => "Not a directory (os error 20)"
  | isDirectory => "Is a directory (os error 21)"
  | notUtf8 => "stream did not contain valid UTF-8"
  | nullInName => "file name contained an unexpected NUL byte"
  | nameTooLong => "File name too long (os error 36)"
  | other message => message

/-- What stops a run. -/
inductive Failure
  /-- A source file could not be read. -/
  | unreadable (file : String) (fault : FileFault)
  /-- The snapshot is no snapshot. -/
  | badSnapshot (error : Json.Error)
  /-- An edit writes to a file that was never loaded. -/
  | unknownFile (file : String)
  /-- The changes accepted for a file do not fit its text. -/
  | misplacedChange (file : String)
  deriving DecidableEq

namespace Failure

def message : Failure → String
  | unreadable file fault => s!"failed to read source file '{file}': {fault.message}"
  | badSnapshot error => s!"invalid checker snapshot: {error.message}"
  | unknownFile file => s!"edit references file '{file}' which has no loaded buffer"
  | misplacedChange file => s!"accepted changes do not fit file '{file}'"

def cause? : Failure → Option String
  | unreadable _ fault => some fault.message
  | badSnapshot error => some error.message
  | unknownFile _ => none
  | misplacedChange _ => none

end Failure

/-- Where source files come from. -/
abbrev Store := String → Except FileFault String

/-- The store that holds the files of a table. -/
def Store.ofTable (files : Table String String) : Store := fun file =>
  match files.get? file with
  | some text => .ok text
  | none => .error .notInStore

end TypeMend
