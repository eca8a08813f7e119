import TypeMend.Text.Numeral

/-!
# Documents as written

A `Json` value is what the program writes: its numbers are natural numbers and the members of an
object keep their order. `render` lays a value out over several lines with two spaces for each
level; an empty array or object stays on its line.
-/
namespace TypeMend

inductive Json
  | null
  | bool (value : Bool)
  | number (value : Nat)
  | string (value : String)
  | array (items : List Json)
  | object (members : List (String × Json))
  deriving Inhabited

namespace Json

/-- The digits of a number below sixteen. -/
def hexDigit (n : Nat) : Char :=
  if n < 10 then Char.ofNat (n + 48) else Char.ofNat (n + 87)

/-- One character of a string. Quotes, backslashes and control characters are escaped. -/
def escapeChar (c : Char) : List Char :=
  if c = '\x22' then ['\\', '\x22']
  else if c = '\\' then ['\\', '\\']
  else if c = '\x08' then ['\\', 'b']
  else if c = '\x0c' then ['\\', 'f']
  else if c = '\n' then ['\\', 'n']
  else if c = '\r' then ['\\', 'r']
  else if c = '\t' then ['\\', 't']
  else if c.toNat < 0x20 then
    ['\\', 'u', '0', '0', hexDigit (c.toNat / 16), hexDigit (c.toNat % 16)]
  else [c]

/-- A string between its quotes. -/
def renderString (text : String) : List Char :=
  '\x22' :: (text.toList.flatMap escapeChar ++ ['\x22'])

/-- A line break and the indentation of a level. -/
def newline (level : Nat) : List Char :=
  '\n' :: List.replicate (2 * level) ' '

mutual

/-- The text of a value whose first line stands at a level. -/
def renderAt (level : Nat) : Json → List Char
  | null => "null".toList
  | bool value => if value then "true".toList else "false".toList
  | number value => Nat.toDigits 10 value
  | string value => renderString value
  | array [] => ['[', ']']
  | array (item :: items) =>
    '[' :: (newline (level + 1) ++ renderAt (level + 1) item ++ renderItems level items)
  | object [] => ['\x7b', '\x7d']
  | object (member :: members) =>
    '\x7b' :: (newline (level + 1) ++ renderMember level member ++ renderMembers level members)

/-- The further items of an array and its closing bracket. -/
def renderItems (level : Nat) : List Json → List Char
  | [] => newline level ++ [']']
  | item :: items =>
    ',' :: (newline (level + 1) ++ renderAt (level + 1) item ++ renderItems level items)

/-- One member of an object. -/
def renderMember (level : Nat) : String × Json → List Char
  | (key, value) => renderString key ++ ':' :: ' ' :: renderAt (level + 1) value

/-- The further members of an object and its closing brace. -/
def renderMembers (level : Nat) : List (String × Json) → List Char
  | [] => newline level ++ ['\x7d']
  | member :: members =>
    ',' :: (newline (level + 1) ++ renderMember level member ++ renderMembers level members)

end

def render (value : Json) : String :=
  String.ofList (renderAt 0 value)

end Json

end TypeMend
