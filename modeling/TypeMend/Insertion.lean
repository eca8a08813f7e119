import TypeMend.Change
import TypeMend.Text.Blank
import TypeMend.Text.Line

/-!
# Inserting a member into a declaration

A new member goes before the closing brace of its declaration, after everything that is written
there. When the brace stands on a line of its own the member gets a line too, with the indentation
of the last member; otherwise it joins the line.
-/
namespace TypeMend.Insertion

open Text

/-- The inside of a declaration: what stands between its first opening brace and its closing
brace. -/
structure Body where
  /-- Offset of the closing brace. -/
  close : Nat
  inside : List Char
  deriving DecidableEq

/-- The text after the first opening brace. -/
def afterBrace? : List Char → Option (List Char)
  | [] => none
  | c :: cs => if c = '\x7b' then some cs else afterBrace? cs

/-- The inside of the declaration from `start` to `stop`, if it ends with a closing brace and has
an opening one. -/
def body? (start stop : Nat) (cs : List Char) : Option Body := do
  guard (0 < stop)
  let (before, after) ← cut? (stop - 1) cs
  guard (after.head? = some '\x7d')
  let (_, region) ← cut? start before
  let inside ← afterBrace? region
  return ⟨stop - 1, inside⟩

/-- A text split after its last line feed, if it has one. -/
def splitLastLine? : List Char → Option (List Char × List Char)
  | [] => none
  | c :: cs =>
    match splitLastLine? cs with
    | some (before, last) => some (c :: before, last)
    | none => if c = '\n' then some ([c], cs) else none

/-- The blanks at the front of the last line that is not blank. -/
def lastIndent? (cs : List Char) : Option (List Char) :=
  ((lines cs).reverse.find? fun line => !allBlank line).map fun line => line.takeWhile isBlank

/-- The indentation of a new member: that of the last member, or one unit more than that of the
closing brace. -/
def memberIndent (unit : String) (members closing : List Char) : List Char :=
  (lastIndent? members).getD (closing ++ unit.toList)

/-- The blanks at the end of a text. -/
def trailingBlanks (cs : List Char) : List Char :=
  cs.drop (trimEnd cs).length

/-- The text of a new member on the line of what stands before it. `touching` says that nothing
stands between that and the closing brace. -/
def inlineText (before : List Char) (touching : Bool) (property : List Char) : List Char :=
  match before.getLast? with
  | some ';' | some ',' => ' ' :: (property ++ [';'])
  | some '\x7b' => if touching then ' ' :: (property ++ [';', ' ']) else ' ' :: (property ++ [';'])
  | _ => ';' :: ' ' :: property

/-- The insertion of a member before the closing brace. -/
def inBody (unit : String) (property : String) (body : Body) : TextChange :=
  let ownLine := match splitLastLine? body.inside with
    | some (members, closing) => if allBlank closing then some (members, closing) else none
    | none => none
  match ownLine with
  | some (members, closing) =>
    .insertion (body.close - byteLength closing)
      (String.ofList (memberIndent unit members closing ++ property.toList ++ [';', '\n']))
  | none =>
    let blanks := trailingBlanks body.inside
    .insertion (body.close - byteLength blanks)
      (String.ofList
        (inlineText ('\x7b' :: trimEnd body.inside) blanks.isEmpty property.toList))

/-- The insertion of a member into the declaration from `start` to `stop`, if it has braces. -/
def change? (unit : String) (start stop : Nat) (property : String) (cs : List Char) :
    Option TextChange :=
  (body? start stop cs).map (inBody unit property)

end TypeMend.Insertion
