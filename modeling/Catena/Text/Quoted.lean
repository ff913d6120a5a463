import Catena.Text.Unprintable

/-!
# Quoted text

A text between double quotes, on one line and with every character visible: tab, line feed, carriage
return, the double quote, the backslash and the null character have short escapes, and characters
that cannot be seen are written by their number in hexadecimal.
-/

namespace Catena.Text.Quoted

/-- `c` as its number in hexadecimal. -/
def numbered (c : Char) : List Char :=
  ['\\', 'u', '\x7b'] ++ Nat.toDigits 16 c.toNat ++ ['\x7d']

/-- How `c` is written between the quotes. -/
def encodeChar (c : Char) : List Char :=
  if c = '\t' then ['\\', 't']
  else if c = '\n' then ['\\', 'n']
  else if c = '\r' then ['\\', 'r']
  else if c = '"' then ['\\', '"']
  else if c = '\\' then ['\\', '\\']
  else if c.toNat = 0 then ['\\', '0']
  else if isUnprintable c then numbered c
  else [c]

/-- `s` between double quotes, with the characters that need it escaped. -/
def encode (s : String) : String :=
  String.ofList ('"' :: s.toList.flatMap encodeChar ++ ['"'])

end Catena.Text.Quoted
