-- What can go wrong. Errors of setup and of the library itself carry the name of the component,
-- container or expression that met them; the innermost owner that names itself is kept.
import Formwork.Text.Quoted

namespace Formwork

/-- What kind of thing was wrong with a declaration. -/
inductive SetupKind where
  | general
  | value
  | name
  | type
  | unsupported
deriving DecidableEq, Repr

/-- An error met while rules are declared, set up, read or checked. -/
inductive Error where
  /-- A declaration is wrong. -/
  | setup (kind : SetupKind) (owner : Option String) (message : String)
  /-- A declaration uses a name that is not there. -/
  | unknownName (owner : Option String) (message : String) (candidates : List String)
  /-- Data breaks a rule. -/
  | validation (owner message : String)
  /-- A component was asked for by a name that is not there. -/
  | notFound (message : String) (candidates : List String)
  /-- An expression has no value for the data. -/
  | evaluation (expression message : String)
  /-- A configuration can not be used. -/
  | config (message : String)
  /-- The library was used out of order. -/
  | internal (owner : Option String) (message : String)
  /-- Evaluation stopped without a report: the quotient of a floor division does not fit 64 bits. -/
  | aborted
deriving DecidableEq, Repr

namespace Error

/-- An error of setup without an owner. -/
def ofKind (kind : SetupKind) (message : String) : Error := .setup kind none message

/-- Names the owner of an error of setup or of the library, unless it has one. -/
def withOwner (name : String) : Error → Error
  | .setup kind none message => .setup kind (some name) message
  | .unknownName none message candidates => .unknownName (some name) message candidates
  | .internal none message => .internal (some name) message
  | e => e

/-- The message without its kind, owner and candidates. -/
def message : Error → String
  | .setup _ _ message => message
  | .unknownName _ message _ => message
  | .validation _ message => message
  | .notFound message _ => message
  | .evaluation _ message => message
  | .config message => message
  | .internal _ message => message
  | .aborted => "evaluation was aborted"

/-- The name of the kind of an error. -/
def kindName : Error → String
  | .setup .general _ _ => "Setup"
  | .setup .value _ _ => "SetupValue"
  | .setup .name _ _ => "SetupName"
  | .setup .type _ _ => "SetupType"
  | .setup .unsupported _ _ => "SetupUnsupported"
  | .unknownName .. => "SetupNameNotFound"
  | .validation .. => "Validation"
  | .notFound .. => "NameNotFound"
  | .evaluation .. => "Evaluation"
  | .config .. => "Config"
  | .internal .. => "Internal"
  | .aborted => "Aborted"

/-- Whether a declaration is at fault. -/
def isSetup : Error → Bool
  | .setup .. => true
  | .unknownName .. => true
  | _ => false

/-- Whether the library was used out of order. -/
def isInternal : Error → Bool
  | .internal .. => true
  | _ => false

/-! ## Text -/

/-- What an error of setup begins with. -/
def heading : SetupKind → String
  | .general => "Setup error: "
  | .value => "Setup value error: "
  | .name => "Setup name error: "
  | .type => "Setup type error: "
  | .unsupported => "Unsupported during setup: "

/-- The message after its owner. -/
def owned (owner : Option String) (message : String) : String :=
  match owner with
  | some name => name ++ " => " ++ message
  | none => message

/-- The names shown after a message, if there are any. -/
def shown (candidates : List String) : String :=
  if candidates.isEmpty then "" else " (available: " ++ Text.listed candidates ++ ")"

/-- The whole text of an error. -/
def text : Error → String
  | .setup kind owner message => heading kind ++ owned owner message
  | .unknownName owner message candidates =>
    "Name not found during setup: " ++ owned owner message ++ shown candidates
  | .validation owner message => s!"Validation failed for {owner}: {message}"
  | .notFound message candidates => "Name not found: " ++ message ++ shown candidates
  | .evaluation expression message => s!"Evaluation error in {expression}: {message}"
  | .config message => "Config error: " ++ message
  | .internal owner message => "Internal error: " ++ owned owner message
  | .aborted => "Evaluation was aborted"

/-- The innermost owner is kept. -/
theorem withOwner_withOwner (inner outer : String) (e : Error) :
    (e.withOwner inner).withOwner outer = e.withOwner inner := by
  cases e with
  | setup _ owner _ => cases owner <;> rfl
  | unknownName owner _ _ => cases owner <;> rfl
  | internal owner _ => cases owner <;> rfl
  | _ => rfl

end Error

/-- Names the owner of whatever error a computation ends in. -/
def ownedBy {α : Type} (name : String) (result : Except Error α) : Except Error α :=
  result.mapError (Error.withOwner name)

end Formwork
