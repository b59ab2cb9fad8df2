-- Asking a container about its components, and checking the items of an extension.
import Formwork.Component.Basic

namespace Formwork

namespace Container

/-- The components, or an error for a container that is not set up. -/
def components (c : Container) : Except Error Tree :=
  match c.phase with
  | .finished _ tree => .ok tree
  | phase => .error (.ofKind .general s!"Container {c.name} is {phase.text}, not set up")

/-- The component with a name. -/
def component (c : Container) (name : String) : Except Error Node := do
  (← c.components).named name c.profile.config.maxSuggestions

/-- The extension with a name. -/
def extensionNamed (c : Container) (name : String) : Except Error Container := do
  let node ← c.component name
  match node.part with
  | some (.extension inner) => return inner
  | _ => throw (.ofKind .value s!"Component {name} is a {node.kind.text}, not an extension")

/-- The extensions, in order. -/
def extensions (c : Container) : List Container :=
  match c.phase with
  | .finished _ tree => tree.nodes.filterMap fun node =>
      match node.part with
      | some (.extension inner) => some inner
      | _ => none
  | _ => []

mutual

/-- The name of the container that holds a component: this one, or the first of its extensions
that does. -/
def holder? (name : String) : Container → Option String
  | .mk p (.finished _ ⟨nodes, byName⟩) =>
    let tree : Tree := ⟨nodes, byName⟩
    if (tree.find? name).isSome then some p.name else holderAmong? name nodes
  | .mk _ _ => none

/-- The name of the container that holds a component, among the extensions at some nodes. -/
def holderAmong? (name : String) : List (NodeOf Part) → Option String
  | [] => none
  | ⟨_, _, _, _, _, _, some (.extension inner), _⟩ :: rest =>
    (holder? name inner).or (holderAmong? name rest)
  | _ :: rest => holderAmong? name rest

end

/-- The name of the container that holds a component, nested extensions included. -/
def holder (c : Container) (name : String) : Except Error String :=
  match c.holder? name with
  | some found => .ok found
  | none => .error (.notFound s!"Component '{name}' not found in {c.name} or its extensions"
      (Hint.closest name ((c.tree?.map TreeOf.names).getD []) c.profile.config.maxSuggestions))

/-- Checks the items of an extension: first their number, then the combinations that no two of them
may share. -/
def validateChildren (c : Container) (items : List Value) : Except Error Unit := do
  let _ ← c.components
  match c.profile.cardinality with
  | some check =>
    let _ ← check.validate items.length true
  | none => pure ()
  c.profile.uniques.forM fun check => do
    let _ ← check.validate items true

end Container

end Formwork
