-- Bound models. A model gets its type from a declaration, from an expression, or from the function
-- that loads it; models can be nested. Loading and saving call the two functions with parameters
-- that are read from data.
import Formwork.Expression.Read
import Formwork.Identifier
import Formwork.Types.Signature

namespace Formwork

/-- A function bound to a model, with expressions for some of its parameters. -/
structure Handler where
  signature : Signature
  inject : Ordered Expression
  /-- The parameter that takes the model, for saving. -/
  modelParameter : Option String

/-- Where a model gets its type from. -/
inductive ModelSource where
  | type (declared : DeclaredType)
  | expression (e : Expression)
  | handlers (load save : Handler)

/-- A model under a name. -/
structure BoundModel where
  name : String
  source : ModelSource

/-- A model with the models nested in it. -/
inductive ModelTree where
  | node (model : BoundModel) (nested : List ModelTree)

namespace ModelTree

/-- The model at the top. -/
def model : ModelTree → BoundModel
  | .node model _ => model

/-- The models nested in the top one. -/
def nested : ModelTree → List ModelTree
  | .node _ nested => nested

end ModelTree

namespace Handler

/-- Refuses expressions for parameters that the function does not have. -/
def checkInjected (h : Handler) : Except Error Unit :=
  match h.inject.keys.find? fun key => (h.signature.parameter? key).isNone with
  | some key => .error (.ofKind .value
      s!"Function {h.signature.name} has no parameter '{key}' to inject")
  | none => .ok ()

/-- The values of the parameters that come from expressions. -/
def injected (h : Handler) (data : Data) : Except Error (Ordered Value) :=
  h.inject.mapM fun (key, e) => do return (key, ← e.read data)

end Handler

namespace BoundModel

/-- A model of a declared type. -/
def ofType (name : String) (declared : DeclaredType) : Except Error BoundModel := do
  checkIdentifier name
  return ⟨name, .type declared⟩

/-- A model that an expression leads to. -/
def ofExpression (name : String) (e : Expression) : Except Error BoundModel := do
  checkIdentifier name
  return ⟨name, .expression e⟩

/-- Checks the functions of a model. Only the saving one takes the model, and it must. -/
def checkHandlers (load save : Handler) : Except Error Unit := do
  let _ ← load.signature.result
  load.checkInjected
  save.checkInjected
  if load.modelParameter.isSome then
    throw (.ofKind .value
      s!"Read handler {load.signature.name} can not receive the model instance")
  match save.modelParameter with
  | none => throw (.ofKind .value
      s!"Save handler {save.signature.name} must name the parameter receiving the model")
  | some key =>
    if (save.signature.parameter? key).isNone then
      throw (.ofKind .value s!"Save handler {save.signature.name} has no parameter '{key}'")

/-- A model that functions load and save. -/
def ofHandlers (name : String) (load save : Handler) : Except Error BoundModel := do
  checkIdentifier name
  ownedBy name (checkHandlers load save)
  return ⟨name, .handlers load save⟩

/-- Whether an expression leads to the model. -/
def isExpression (m : BoundModel) : Bool :=
  match m.source with
  | .expression _ => true
  | _ => false

/-- Refuses shapes that are neither record models nor lists of a plain type. -/
def checkShape (name : String) (d : Descriptor) : Except Error Unit :=
  match d.underlying with
  | .model _ => .ok ()
  | other =>
    if d.isList then .ok ()
    else .error (.ofKind .name (s!"Model {name} needs to be a record model or a list of a plain "
      ++ s!"type, got {other.text}"))

/-- The shape of a model by its own declaration. A model that an expression leads to has none. -/
def declared (m : BoundModel) : Except Error (Option Descriptor) := do
  let descriptor ← match m.source with
    | .type declared => declared.describe .direct
    | .handlers load _ => load.signature.result
    | .expression _ => return none
  checkShape m.name descriptor
  return some descriptor

/-- Loads the model. -/
def load (m : BoundModel) (data : Data) : Except Error Value :=
  match m.source with
  | .handlers load _ => do
    let named ← load.injected data
    load.signature.call data.functions [] named
  | _ => .error (.evaluation m.name "model has no read handler")

/-- Saves a model. -/
def save (m : BoundModel) (data : Data) (edited : Value) : Except Error Value :=
  match m.source with
  | .handlers _ save => do
    let named ← save.injected data
    let named := match save.modelParameter with
      | some key => Ordered.put key edited named
      | none => named
    save.signature.call data.functions [] named
  | _ => .error (.evaluation m.name "model has no save handler")

/-- The written form. -/
def text (m : BoundModel) : String :=
  match m.source with
  | .type declared => m.name ++ ": " ++ declared.text
  | .expression e => m.name ++ " = " ++ e.text
  | .handlers load _ => m.name ++ " via " ++ load.signature.text

end BoundModel

end Formwork
