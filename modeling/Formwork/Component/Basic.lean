-- Components and containers. A component is a part together with the components declared inside it,
-- in the order in which they are laid out. A container is declared first and then set up; setup
-- turns its declarations into a finished heap and a tree, or fails for good. An extension is a
-- container inside another one.
import Formwork.Component.Field
import Formwork.Component.Parts
import Formwork.Component.Tree
import Formwork.Config
import Formwork.Model.Basic
import Formwork.Validation.Cardinality
import Formwork.Validation.Unique

namespace Formwork

/-- A model of a container: its shape and its variable. -/
structure ModelInfo where
  descriptor : Descriptor
  id : VarId

/-- An expression that setup did not resolve. -/
structure Unresolved where
  owner : String
  expression : String
  status : String
  reason : String
deriving DecidableEq, Repr

/-- The written form. -/
def Unresolved.text (u : Unresolved) : String :=
  s!"{u.owner}: {u.expression} ({u.status}) {u.reason}"

/-- What a container is. -/
inductive Role where
  | ruleSet
  /-- A container inside another one, and the component that owns it there, once that is known. -/
  | extension (owner : Option String)
deriving DecidableEq, Repr

/-- The kind of the component that stands for a container. -/
def Role.kind : Role → ComponentKind
  | .ruleSet => .ruleSet
  | .extension _ => .extension

/-- Who owns the container. An extension has no owner before it is laid out. -/
def Role.owner : Role → Owner
  | .ruleSet => .top
  | .extension none => .unset
  | .extension (some name) => .parent name

/-- The name of the owner. -/
def Role.ownerName : Role → Option String
  | .ruleSet => none
  | .extension owner => owner

/-- What is known of a container whether it is set up or not. -/
structure Profile where
  name : String
  role : Role
  mainModel : String
  cardinality : Option CardinalityCheck
  uniques : List UniqueCheck
  config : Config
  /-- The models that setup registered. -/
  models : Ordered ModelInfo
  /-- The variable of the container around that an extension is bound to. -/
  boundVariable : Option BoundVar
  unresolved : List Unresolved

mutual

/-- A component without those declared inside it. -/
inductive Part where
  | field (field : Field)
  | group (group : Group)
  | dataVar (dataVar : DataVar)
  | validation (validation : Validation)
  | model (model : BoundModel)
  | extension (container : Container)
  | cardinality (check : CardinalityCheck)
  | unique (check : UniqueCheck)

/-- A part with the components declared inside it. -/
inductive Component where
  | node (part : Part) (contents : List Component)

/-- A rule set or an extension. -/
inductive Container where
  | mk (profile : Profile) (phase : Phase)

/-- How far a container has come. -/
inductive Phase where
  | declared (model : ModelTree) (contents : List Component) (providers : List DataVar)
      (validations : List Validation)
  | finished (heap : Heap) (tree : TreeOf Part)
  | failed

end

/-- The components of a container. -/
abbrev Tree := TreeOf Part

/-- A component in a tree. -/
abbrev Node := NodeOf Part

namespace Phase

/-- The written name. -/
def text : Phase → String
  | .declared .. => "Declared"
  | .finished .. => "Finished"
  | .failed => "Failed"

end Phase

namespace Container

/-- What is known of the container whether it is set up or not. -/
def profile : Container → Profile
  | .mk profile _ => profile

/-- How far the container has come. -/
def phase : Container → Phase
  | .mk _ phase => phase

/-- The name. -/
def name (c : Container) : String := c.profile.name

/-- Whether setup has succeeded. -/
def isFinished (c : Container) : Bool :=
  match c.phase with
  | .finished .. => true
  | _ => false

/-- The finished heap. -/
def heap? (c : Container) : Option Heap :=
  match c.phase with
  | .finished heap _ => some heap
  | _ => none

/-- The components, the container's own node first. -/
def tree? (c : Container) : Option Tree :=
  match c.phase with
  | .finished _ tree => some tree
  | _ => none

/-- The written form. -/
def text (c : Container) : String :=
  s!"{c.profile.role.kind.text}({c.name}, {c.phase.text})"

end Container

namespace Part

/-- The kind of the component. -/
def kind : Part → ComponentKind
  | .field _ => .field
  | .group _ => .group
  | .dataVar _ => .dataVar
  | .validation _ => .validation
  | .model _ => .model
  | .extension _ => .extension
  | .cardinality _ => .cardinality
  | .unique _ => .unique

/-- The name given by the declaration. Only checks of the items can go without one. -/
def declaredName? : Part → Option String
  | .field f => some f.name
  | .group g => some g.name
  | .dataVar d => some d.name
  | .validation v => some v.name
  | .model m => some m.name
  | .extension c => some c.name
  | .cardinality check => check.name
  | .unique check => check.name

/-- The name in a tree: the declared one, or the owner's name and the kind. -/
def nameIn (owner : String) (part : Part) : String :=
  part.declaredName?.getD (owner ++ "__" ++ part.kind.suffix)

/-- The written form. -/
def text (part : Part) : String :=
  part.kind.text ++ "(" ++ part.declaredName?.getD "<unnamed>" ++ ")"

end Part

namespace Component

/-- The part at the top. -/
def part : Component → Part
  | .node part _ => part

/-- The components declared inside. -/
def contents : Component → List Component
  | .node _ contents => contents

/-- A component with nothing inside. -/
def leaf (part : Part) : Component := .node part []

/-- A rule as a component. -/
def ofValidation (v : Validation) : Component := leaf (.validation v)

/-- A group with its contents and its rules, which come after them. -/
def ofGroup (group : Group) (contents : List Component) (validations : List Validation) :
    Component :=
  .node (.group group) (contents ++ validations.map ofValidation)

/-- A field with its rules and with the components that are shown only when it is set. -/
def ofField (field : Field) (validations : List Validation) (enables : List Component) :
    Component :=
  .node (.field field) (validations.map ofValidation ++ enables)

mutual

/-- A model as a component, with its nested models inside. -/
def ofModel : ModelTree → Component
  | .node model nested => .node (.model model) (ofModels nested)

/-- Models as components, in order. -/
def ofModels : List ModelTree → List Component
  | [] => []
  | model :: rest => ofModel model :: ofModels rest

end

end Component

end Formwork
