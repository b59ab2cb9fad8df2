-- Declaring containers. A rule set has a main model with a type of its own, an extension one that
-- an expression leads to in the container around it.
import Formwork.Component.Basic

namespace Formwork.Container

/-- What is known of a container at first. -/
def newProfile (name : String) (role : Role) (model : ModelTree)
    (cardinality : Option CardinalityCheck) : Profile :=
  { name
    role
    mainModel := model.model.name
    cardinality := cardinality.map fun check => check.ownedBy name
    uniques := []
    config := .standard
    models := []
    boundVariable := none
    unresolved := [] }

/-- A rule set with its main model. -/
def ruleSet (name : String) (model : ModelTree) : Except Error Container := do
  if model.model.isExpression then
    throw (.ofKind .value
      s!"Main model {model.model.name} of rule set {name} can not be an expression")
  checkIdentifier name
  return .mk (newProfile name .ruleSet model none) (.declared model [] [] [])

/-- An extension with its main model and the number of its items. -/
def extension (name : String) (model : ModelTree) (cardinality : CardinalityCheck) :
    Except Error Container := do
  if !model.model.isExpression then
    throw (.ofKind .value (s!"Main model {model.model.name} of extension {name} must be an "
      ++ "expression into the parent models"))
  checkIdentifier name
  return .mk (newProfile name (.extension none) model (some cardinality))
    (.declared model [] [] [])

/-- The container with another configuration. -/
def withConfig (config : Config) : Container → Container
  | .mk p phase => .mk { p with config } phase

/-- The container with one check of its items more. -/
def withUnique (check : UniqueCheck) : Container → Container
  | .mk p phase => .mk { p with uniques := p.uniques ++ [check.ownedBy p.name] } phase

/-- The container with more declarations. A container that was set up stays as it is. -/
def declaring (contents : List Component) (providers : List DataVar)
    (validations : List Validation) : Container → Container
  | .mk p (.declared model oldContents oldProviders oldValidations) =>
    .mk p (.declared model (oldContents ++ contents) (oldProviders ++ providers)
      (oldValidations ++ validations))
  | c => c

/-- Adds a group to a container that was not set up yet. -/
def addGroup (group : Group) (inside : List Component) (rules : List Validation) :
    Container → Except Error Container
  | .mk p (.declared model contents providers validations) =>
    if contents.any fun c => c.part.declaredName? == some group.name then
      .error (.ofKind .name s!"Container {p.name} already contains {group.name}")
    else
      .ok (.mk p (.declared model (contents ++ [.ofGroup group inside rules]) providers
        validations))
  | c => .error (.ofKind .general
      s!"Container {c.name} is {c.phase.text}, sections can not be added")

end Formwork.Container
