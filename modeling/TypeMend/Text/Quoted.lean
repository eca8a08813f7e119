import TypeMend.Text.Hidden

/-!
# Text in double quotes for messages

A message shows a text between double quotes and escapes what would not be seen: quotes and
backslashes get a backslash, line feed, carriage return, tab and the null character have short
forms, and other characters that are not printed are given by their code point.
-/
namespace TypeMend.Text

def quotedChar (c : Char) : List Char :=
  if c = '\x22' then ['\\', '\x22']
  else if c = '\\' then ['\\', '\\']
  else if c = '\n' then ['\\', 'n']
  else if c = '\r' then ['\\', 'r']
  else if c = '\t' then ['\\', 't']
  else if c.toNat = 0 then ['\\', '0']
  else if isShown c then [c]
  else ['\\', 'u', '\x7b'] ++ Nat.toDigits 16 c.toNat ++ ['\x7d']

def quoted (text : String) : String :=
  String.ofList ('\x22' :: (text.toList.flatMap quotedChar ++ ['\x22']))

end TypeMend.Text
