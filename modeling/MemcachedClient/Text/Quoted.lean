import MemcachedClient.Text.Blank
import MemcachedClient.Text.Escaped

/-!
# Quoted text

How a text is shown inside a description of a value: between double quotes, with a backslash before
a double quote or a backslash, the short escapes for tab, line feed, carriage return and NUL, and
the code point in hexadecimal for every other character of the table `escapedRanges`.
-/

namespace MemcachedClient.Text

/-- A character as it stands between double quotes. -/
def quotedChar (c : Char) : List Char :=
  match c with
  | '"' => ['\\', '"']
  | '\\' => ['\\', '\\']
  | '\n' => ['\\', 'n']
  | '\r' => ['\\', 'r']
  | '\t' => ['\\', 't']
  | '\x00' => ['\\', '0']
  | c =>
    if inRanges escapedRanges c.toNat then
      ['\\', 'u', '\x7b'] ++ Nat.toDigits 16 c.toNat ++ ['\x7d']
    else [c]

/-- The text between double quotes. -/
def quoted (s : String) : String :=
  String.ofList ('"' :: s.toList.flatMap quotedChar ++ ['"'])

end MemcachedClient.Text
