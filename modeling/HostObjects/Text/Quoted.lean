import HostObjects.Text.Unprintable

/-!
# Quoted texts

A quoted text stands between double quotes. Quotes and backslashes are escaped by a backslash, four
control characters have short names, and every other character that would not show by itself is
written by its code in hexadecimal.
-/

namespace HostObjects.Quoted

/-- The hexadecimal numeral of a number, in small letters. -/
def hex (n : Nat) : List Char := Nat.toDigits 16 n

/-- A character written by its code. -/
def byCode (c : Char) : List Char := "\\u\x7b".toList ++ hex c.toNat ++ ['\x7d']

/-- One character within quotes. -/
def escape (c : Char) : List Char :=
  if c = '\x00' then ['\\', '0']
  else if c = '\t' then ['\\', 't']
  else if c = '\n' then ['\\', 'n']
  else if c = '\r' then ['\\', 'r']
  else if c = '"' then ['\\', '"']
  else if c = '\\' then ['\\', '\\']
  else if Unprintable.contains c then byCode c
  else [c]

/-- The characters between double quotes. -/
def quote (cs : List Char) : String := String.ofList ('"' :: cs.flatMap escape ++ ['"'])

end HostObjects.Quoted
