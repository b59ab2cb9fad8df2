-- The tagged forms of types and signatures, which name the kind of every part and show record
-- models with all their fields.
import Formwork.Types.Signature

namespace Formwork

/-- The tagged form of something that may be missing. -/
def taggedOption (text : Option String) : String :=
  match text with
  | some s => "Some(" ++ s ++ ")"
  | none => "None"

/-- Text between braces, with blanks inside if there is any. -/
def braced (parts : List String) : String := "\x7b " ++ Text.listed parts ++ " \x7d"

/-- The tagged form of an enum. -/
def EnumType.tagged (e : EnumType) : String :=
  "EnumType " ++ braced ["name: " ++ Text.quoted e.name, "value_type: " ++ e.valueType.tagged,
    "members: \x7b" ++ Text.listed (Value.taggedFields e.members) ++ "\x7d"]

/-- The name of a model form in the tagged form of a model. -/
def ModelForm.tagged : ModelForm → String
  | .struct => "StructModel"
  | .schema => "SchemaModel"

namespace DeclaredType

mutual

/-- The tagged form of a type. -/
def tagged : DeclaredType → String
  | .plain p => taggedPlain p
  | .list item => "List(" ++ item.tagged ++ ")"
  | .union members => "Union([" ++ Text.listed (taggedMembers members) ++ "])"
  | .absent => "Absent"

/-- The tagged form of a plain type. -/
def taggedPlain : PlainOf DeclaredType → String
  | .scalar s => "Scalar(" ++ s.tagged ++ ")"
  | .enum e => "Enum(" ++ e.tagged ++ ")"
  | .model m => "Model(" ++ taggedModel m ++ ")"

/-- The tagged form of a record model. -/
def taggedModel : ModelOf DeclaredType → String
  | ⟨name, form, fields⟩ => form.tagged ++ " " ++ braced ["name: " ++ Text.quoted name,
      "fields: \x7b" ++ Text.listed (taggedFields fields) ++ "\x7d"]

/-- The tagged forms of the fields of a record model. -/
def taggedFields : List (FieldOf DeclaredType) → List String
  | [] => []
  | field :: rest => taggedField field :: taggedFields rest

/-- The tagged form of a field. -/
def taggedField : FieldOf DeclaredType → String
  | ⟨name, declared, required, description⟩ =>
    Text.quoted name ++ ": FieldDescriptor " ++ braced ["name: " ++ Text.quoted name,
      "annotation: " ++ declared.tagged, "required: " ++ toString required,
      "description: " ++ taggedOption (description.map Text.quoted)]

/-- The tagged forms of the members of a union. -/
def taggedMembers : List DeclaredType → List String
  | [] => []
  | member :: rest => member.tagged :: taggedMembers rest

end

end DeclaredType

namespace Signature

/-- The tagged form of a parameter. -/
def taggedParameter (p : Parameter) : String :=
  "Param " ++ braced ["name: " ++ Text.quoted p.name,
    "annotation: " ++ taggedOption (p.declared.map DeclaredType.tagged)]

/-- The tagged form. -/
def tagged (f : Signature) : String :=
  "FunctionDecl " ++ braced ["name: " ++ Text.quoted f.name,
    "params: [" ++ Text.listed (f.parameters.map taggedParameter) ++ "]",
    "returns: " ++ taggedOption (f.returns.map DeclaredType.tagged),
    "has_body: " ++ toString f.body.isSome]

end Signature

end Formwork
