-- The written forms of data: the plain form, which expressions and messages use, and the tagged
-- form, which names the kind of every part.
import Formwork.Value.Basic
import Formwork.Decimal.Layout

namespace Formwork.Value

mutual

/-- The plain form. -/
def text : Value → String
  | .null => "None"
  | .boolean b => if b then "True" else "False"
  | .integer n => toString n.toInt
  | .float x => Decimal.Layout.plain.write x
  | .string s => Text.quoted s
  | .list items => "[" ++ Text.listed (itemTexts items) ++ "]"
  | .record fields => "\x7b" ++ Text.listed (fieldTexts fields) ++ "\x7d"
  | .function _ => "<function>"

/-- The plain forms of the items of a list. -/
def itemTexts : List Value → List String
  | [] => []
  | item :: rest => item.text :: itemTexts rest

/-- The plain forms of the fields of a record, with bare names. -/
def fieldTexts : List (String × Value) → List String
  | [] => []
  | (key, value) :: rest => (key ++ ": " ++ value.text) :: fieldTexts rest

end

mutual

/-- The tagged form. -/
def tagged : Value → String
  | .null => "Null"
  | .boolean b => "Boolean(" ++ (if b then "true" else "false") ++ ")"
  | .integer n => "Integer(" ++ toString n.toInt ++ ")"
  | .float x => "Float(" ++ Decimal.Layout.exact.write x ++ ")"
  | .string s => "String(" ++ Text.quoted s ++ ")"
  | .list items => "List([" ++ Text.listed (taggedItems items) ++ "])"
  | .record fields => "Record(\x7b" ++ Text.listed (taggedFields fields) ++ "\x7d)"
  | .function _ => "Function(..)"

/-- The tagged forms of the items of a list. -/
def taggedItems : List Value → List String
  | [] => []
  | item :: rest => item.tagged :: taggedItems rest

/-- The tagged forms of the fields of a record, with quoted names. -/
def taggedFields : List (String × Value) → List String
  | [] => []
  | (key, value) :: rest => (Text.quoted key ++ ": " ++ value.tagged) :: taggedFields rest

end

end Formwork.Value
