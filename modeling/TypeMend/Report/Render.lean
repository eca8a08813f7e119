import TypeMend.LineDiff
import TypeMend.Session

/-!
# What the user sees

Problems with their numbered candidates, advice, diffs and the summary at the end, with or
without colours.
-/
namespace TypeMend

/-- Styles of the terminal, by the number that switches them on. -/
inductive Style
  | bold
  | dimmed
  | red
  | green
  | yellow
  | cyan
  deriving DecidableEq

/-- The sequence that switches a style on. -/
def Style.start : Style → List Char
  | bold => "\x1b[1m".toList
  | dimmed => "\x1b[2m".toList
  | red => "\x1b[31m".toList
  | green => "\x1b[32m".toList
  | yellow => "\x1b[33m".toList
  | cyan => "\x1b[36m".toList

/-- The sequence that switches all styles off. -/
def Style.reset : List Char :=
  "\x1b[0m".toList

/-- A text in which a style is switched on again after everything that switches styles off. -/
def Style.resume (start : List Char) : List Char → List Char
  | '\x1b' :: '[' :: '0' :: 'm' :: cs => '\x1b' :: '[' :: '0' :: 'm' :: (start ++ resume start cs)
  | c :: cs => c :: resume start cs
  | [] => []

/-- Writes what the user sees. -/
structure Renderer where
  color : Bool
  deriving DecidableEq

namespace Renderer

/-- A text in a style, if colours are on. -/
def paint (renderer : Renderer) (style : Style) (text : String) : String :=
  if renderer.color then
    String.ofList (style.start ++ Style.resume style.start text.toList ++ Style.reset)
  else text

def side (renderer : Renderer) (label : String) (view : SideView) : String :=
  let label := renderer.paint .dimmed label
  let place := renderer.paint .cyan s!"{view.file}:{view.line}:{view.column}"
  s!"\n  {label}  {place}  {view.text}: {view.typeText}"

/-- The head of a problem: its kind, both sides and the hints. -/
def header (renderer : Renderer) (view : ProblemView) : String :=
  let title := renderer.paint .bold s!"Problem {view.index}"
  let code := renderer.paint .red s!"TS{view.code.toNat}"
  let call := match view.functionName with
    | some name => s!" (argument to `{name}`)"
    | none => ""
  let depth := if 1 < view.depth then s!"\n  nested {view.depth} levels deep" else ""
  let hint := renderer.paint .yellow "hint"
  let hints := view.suggestions.map fun suggestion => s!"\n  {hint}: {suggestion.message}"
  s!"{title}: {code} {view.kind.name}{call}" ++ renderer.side "source" view.source ++
    renderer.side "target" view.target ++ depth ++ String.join hints

/-- The candidates, numbered from `number`. -/
def prompts (renderer : Renderer) : Nat → List String → String
  | _, [] => ""
  | number, prompt :: rest =>
    let label := renderer.paint .bold s!"[{number}]"
    s!"\n  {label} {prompt}" ++ renderer.prompts (number + 1) rest

/-- A problem with its candidates. -/
def problem (renderer : Renderer) (view : ProblemView) : String :=
  renderer.header view ++ renderer.prompts 1 view.prompts

/-- A problem without candidates. -/
def advice (renderer : Renderer) (view : ProblemView) : String :=
  renderer.header view ++
    if view.suggestions.isEmpty then "\n  no automatic fix available" else ""

def choiceHint (candidates : Nat) : String :=
  let range := if candidates = 1 then "1" else s!"1-{candidates}"
  s!"Choose {range}, s to skip, q to quit: "

/-- One line of a diff. -/
def diffLine (renderer : Renderer) : LineOp (List Char) → String
  | .keep line => String.ofList (' ' :: line)
  | .remove line => renderer.paint .red (String.ofList ('-' :: line))
  | .add line => renderer.paint .green (String.ofList ('+' :: line))

/-- A hunk of a diff with its head, which counts lines from one. -/
def hunk (renderer : Renderer) (hunk : LineDiff.Hunk (List Char)) : List String :=
  renderer.paint .cyan
    s!"@@ -{hunk.oldBefore + 1},{hunk.oldLength} +{hunk.newBefore + 1},{hunk.newLength} @@" ::
    hunk.ops.map renderer.diffLine

def diff (renderer : Renderer) (file before after : String) : String :=
  let ops := LineDiff.script (Text.lines before.toList) (Text.lines after.toList)
  "\n".intercalate <|
    renderer.paint .bold s!"--- {file}" :: renderer.paint .bold s!"+++ {file}" ::
      (LineDiff.hunks ops).flatMap renderer.hunk

/-- The warning about an edit that was not applied. -/
def warning (renderer : Renderer) (edit : UnappliedEdit) : String :=
  renderer.paint .yellow
    s!"warning: {edit.kind.name} edit at {edit.file}:{edit.start}..{edit.stop} was not applied ({edit.reason.message})"

def summary (renderer : Renderer) (report : Report) (dryRun : Bool) : String :=
  let stats := report.stats
  let verb := if dryRun then "would change" else "changed"
  let early := if stats.quit then " (stopped early)" else ""
  let head :=
    s!"{stats.problems} problem(s): {stats.selected} fixed, {stats.skipped} skipped; {verb} {report.files.size} file(s){early}"
  let unsupported :=
    if report.unsupported.isEmpty then []
    else [s!"{report.unsupported.length} diagnostic(s) not supported"]
  "\n".intercalate (head :: (unsupported ++ report.unapplied.map renderer.warning))

end Renderer

end TypeMend
