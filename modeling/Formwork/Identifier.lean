-- Names of components. A name is a letter followed by letters, digits and underscores, all of
-- ASCII.
import Formwork.Error

namespace Formwork

/-- Whether a text is a letter followed by letters, digits and underscores. Only ASCII counts. -/
def isIdentifier (name : String) : Bool :=
  match name.toList with
  | [] => false
  | first :: rest => first.isAlpha && rest.all fun c => c.isAlphanum || c == '_'

/-- Refuses a text that is no name. -/
def checkIdentifier (name : String) : Except Error Unit :=
  if isIdentifier name then .ok ()
  else .error (.ofKind .name
    s!"'{name}' is not a valid name, use letters, digits and '_' starting with a letter")

end Formwork
