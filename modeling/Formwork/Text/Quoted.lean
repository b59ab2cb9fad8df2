-- Quoted texts. A quoted text stands between double quotes; the quote itself, the backslash, line
-- ends, tabs and NUL have two-character forms, and a hidden character is written as its code point.
import Formwork.Text.Hidden

namespace Formwork.Text

/-- A code point in hexadecimal, in small letters and without padding. -/
def hex (n : Nat) : String := String.ofList (Nat.toDigits 16 n)

/-- The form of a character inside quotes. -/
def quotedChar (c : Char) : String :=
  match c with
  | '"' => "\\\""
  | '\\' => "\\\\"
  | '\n' => "\\n"
  | '\r' => "\\r"
  | '\t' => "\\t"
  | '\x00' => "\\0"
  | c => if isHidden c then "\\u\x7b" ++ hex c.toNat ++ "\x7d" else String.singleton c

/-- The text between double quotes. -/
def quoted (s : String) : String :=
  "\"" ++ String.join (s.toList.map quotedChar) ++ "\""

/-- The texts with a comma and a blank between each two. -/
def listed (texts : List String) : String := ", ".intercalate texts

end Formwork.Text
