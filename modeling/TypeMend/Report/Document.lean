import TypeMend.Json.Value
import TypeMend.Session

/-!
# Reports as documents
-/
namespace TypeMend.Report

def unsupportedJson (entry : Unsupported) : Json :=
  .object [("code", .number entry.code.toNat), ("kindName", .string entry.kindName),
    ("file", .string entry.file), ("offset", .number entry.offset)]

def suggestionJson (suggestion : Suggestion) : Json :=
  .object [("file", .string suggestion.file), ("start", .number suggestion.start),
    ("message", .string suggestion.message)]

/-- The members for the reason why an edit was not applied. -/
def reasonMembers : UnappliedReason → List (String × Json)
  | .overlap start stop =>
    [("reason", .string "overlap"), ("withStart", .number start), ("withEnd", .number stop)]
  | .outOfBounds => [("reason", .string "outOfBounds")]
  | .noInsertionPoint => [("reason", .string "noInsertionPoint")]

def unappliedJson (edit : UnappliedEdit) : Json :=
  .object ([("file", .string edit.file), ("kind", .string edit.kind.name),
    ("start", .number edit.start), ("end", .number edit.stop), ("text", .string edit.text)] ++
    reasonMembers edit.reason)

def toJson (report : Report) : Json :=
  .object [
    ("files", .object (report.files.entries.map fun (file, text) => (file, .string text))),
    ("unsupported", .array (report.unsupported.map unsupportedJson)),
    ("suggestions", .array (report.suggestions.map suggestionJson)),
    ("unapplied", .array (report.unapplied.map unappliedJson)),
    ("duplicates", .number report.duplicates),
    ("problems", .number report.stats.problems),
    ("selected", .number report.stats.selected),
    ("skipped", .number report.stats.skipped),
    ("withoutCandidates", .number report.stats.withoutCandidates),
    ("quit", .bool report.stats.quit)]

end TypeMend.Report
