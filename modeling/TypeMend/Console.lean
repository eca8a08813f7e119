import TypeMend.Answer
import TypeMend.Report.Render

/-!
# The console

A console gives lines of input and takes output. Its presenters ask the user about each problem,
or take the first candidate without asking. A console whose output fails makes the user's part in
a run end: the question counts as answered with a quit.
-/
namespace TypeMend

/-- A line of input with its ending, or one that is not text. -/
inductive InputLine
  | text (line : String)
  | unreadable
  deriving DecidableEq

namespace InputLine

/-- The lines of a text, each with the line feed that ends it. -/
def splitChars : List Char → List (List Char)
  | [] => []
  | c :: cs =>
    if c = '\n' then [c] :: splitChars cs
    else
      match splitChars cs with
      | [] => [[c]]
      | line :: rest => (c :: line) :: rest

def ofText (text : String) : List InputLine :=
  (splitChars text.toList).map fun line => .text (String.ofList line)

end InputLine

structure Screen where
  /-- What was written so far. -/
  text : String
  /-- How many more bytes can be written, if there is a limit. -/
  room : Option Nat
  deriving DecidableEq

namespace Screen

/-- A screen that takes everything. -/
def unlimited : Screen :=
  ⟨"", none⟩

/-- The part of a text that fits into some bytes. A character of which only a part fits shows as
the replacement character. -/
def fitting : Nat → List Char → List Char
  | _, [] => []
  | 0, _ :: _ => []
  | n + 1, c :: cs =>
    if c.utf8Size ≤ n + 1 then c :: fitting (n + 1 - c.utf8Size) cs else ['\ufffd']

/-- Writes a text as far as it fits, and says whether all of it did. -/
def write (screen : Screen) (text : String) : Bool × Screen :=
  match screen.room with
  | none => (true, { screen with text := screen.text ++ text })
  | some room =>
    let length := Text.byteLength text.toList
    if length ≤ room then (true, ⟨screen.text ++ text, some (room - length)⟩)
    else (false, ⟨screen.text ++ String.ofList (fitting room text.toList), some 0⟩)

end Screen

/-- Lines that are still to be read, and the screen. -/
structure Console where
  input : List InputLine
  screen : Screen
  deriving DecidableEq

namespace Console

/-- A console with a text as input. -/
def ofText (input : String) : Console :=
  ⟨InputLine.ofText input, .unlimited⟩

def print (text : String) (console : Console) : Console :=
  { console with screen := (console.screen.write text).2 }

/-- Asks until a line is understood. The end of the input, a line that is not text and output
that fails all count as a quit. -/
def askOn (candidates : Nat) : List InputLine → Screen → Decision × Console
  | lines, screen =>
    match screen.write (Renderer.choiceHint candidates) with
    | (false, screen) => (.quit, ⟨lines, screen⟩)
    | (true, screen) =>
      match lines with
      | [] => (.quit, ⟨[], (screen.write "\n").2⟩)
      | .unreadable :: rest => (.quit, ⟨rest, screen⟩)
      | .text line :: rest =>
        match Answer.parse? line candidates with
        | some decision =>
          match screen.write "\n" with
          | (true, screen) => (decision, ⟨rest, screen⟩)
          | (false, screen) => (.quit, ⟨rest, screen⟩)
        | none =>
          match screen.write (Answer.complaint line) with
          | (true, screen) => askOn candidates rest screen
          | (false, screen) => (.quit, ⟨rest, screen⟩)

/-- Shows a problem and asks about it. -/
def ask (renderer : Renderer) (view : ProblemView) (console : Console) : Decision × Console :=
  match console.screen.write (renderer.problem view ++ "\n") with
  | (true, screen) => askOn view.prompts.length console.input screen
  | (false, screen) => (.quit, { console with screen := screen })

/-- Shows a problem without candidates. -/
def advise (renderer : Renderer) (view : ProblemView) (console : Console) : Console :=
  console.print (renderer.advice view ++ "\n\n")

/-- What is shown of a problem whose first candidate is taken. -/
def autoText (renderer : Renderer) (view : ProblemView) : String :=
  renderer.problem view ++ "\n  -> applying [1]\n\n"

/-- Asks the user about each problem. -/
def interactive (renderer : Renderer) : Presenter (StateM Console) where
  choose view := fun console => console.ask renderer view
  advise view := fun console => ((), console.advise renderer view)

/-- Takes the first candidate of each problem. -/
def automatic (renderer : Renderer) : Presenter (StateM Console) where
  choose view := fun console => (.select 0, console.print (autoText renderer view))
  advise view := fun console => ((), console.advise renderer view)

end Console

end TypeMend
