-- Writing documents, without blanks. Quotes, backslashes and controls are escaped in texts; every
-- other character stands as it is.
import Formwork.Json.Basic
import Formwork.Text.Quoted
import Formwork.Decimal.Layout

namespace Formwork.Json

/-- The form of a character in a text. -/
def writtenChar (c : Char) : String :=
  match c with
  | '"' => "\\\""
  | '\\' => "\\\\"
  | '\n' => "\\n"
  | '\r' => "\\r"
  | '\t' => "\\t"
  | '\x08' => "\\b"
  | '\x0c' => "\\f"
  | c =>
    if c.toNat < 0x20 then
      "\\u00" ++ (if c.toNat < 0x10 then "0" else "") ++ Text.hex c.toNat
    else String.singleton c

/-- A text between quotes. -/
def writtenText (s : String) : String :=
  "\"" ++ String.join (s.toList.map writtenChar) ++ "\""

mutual

/-- The document without blanks. -/
def write : Json → String
  | .null => "null"
  | .bool b => if b then "true" else "false"
  | .integer n => toString n
  | .number x => Decimal.Layout.document.write x
  | .text s => writtenText s
  | .array items => "[" ++ ",".intercalate (writeItems items) ++ "]"
  | .object members => "\x7b" ++ ",".intercalate (writeMembers members) ++ "\x7d"

/-- The items of an array, each without blanks. -/
def writeItems : List Json → List String
  | [] => []
  | item :: rest => item.write :: writeItems rest

/-- The members of an object, each without blanks. -/
def writeMembers : List (String × Json) → List String
  | [] => []
  | (key, value) :: rest => (writtenText key ++ ":" ++ value.write) :: writeMembers rest

end

end Formwork.Json
