-- Record models that are declared field by field. Every field has a name, and no name comes twice.
import Formwork.Types.Declared

namespace Formwork.RecordModel

/-- A field that must be there. -/
def fieldOf (name : String) (declared : DeclaredType) : ModelField :=
  ⟨name, declared, true, none⟩

/-- Checks the fields one after the other against those before them. -/
def checkFields (model : String) (before : List String) : List ModelField → Except Error Unit
  | [] => .ok ()
  | field :: rest =>
    if field.name.isEmpty then
      .error (.ofKind .name s!"Model {model} has a field without a name")
    else if before.contains field.name then
      .error (.ofKind .name s!"Model {model} declares field '{field.name}' twice")
    else checkFields model (field.name :: before) rest

/-- A record model with the given fields. -/
def declare (name : String) (fields : List ModelField) : Except Error RecordModel := do
  checkFields name [] fields
  return ⟨name, .struct, fields⟩

end Formwork.RecordModel
