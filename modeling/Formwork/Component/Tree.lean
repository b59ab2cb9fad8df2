-- Trees of components, laid out flat. The first node is the container itself; every other node is
-- owned by a node that is there already. A node keeps its position, its owner and the positions of
-- the nodes that it owns, and an index leads from each name to a position.
import Formwork.Component.Kind
import Formwork.Hint
import Formwork.Error
import Formwork.Ordered
import Formwork.Text.Quoted

namespace Formwork

/-- Who owns a component. -/
inductive Owner where
  /-- It is not known yet. -/
  | unset
  /-- Nobody: the component is a rule set. -/
  | top
  /-- Another node of the same tree, by its position. -/
  | component (id : Nat)
  /-- A component of the container around the one that this node stands for. -/
  | parent (name : String)
deriving DecidableEq, Repr

/-- The written form. -/
def Owner.text : Owner → String
  | .unset => "Unset"
  | .top => "Top"
  | .component id => s!"Component(ComponentId({id}))"
  | .parent name => s!"Parent({Text.quoted name})"

/-- A component in a tree. -/
structure NodeOf (α : Type) where
  id : Nat
  name : String
  kind : ComponentKind
  owner : Owner
  ownerName : Option String
  /-- The positions of the nodes that this one owns, in order. -/
  children : List Nat
  /-- What was declared. The container's own node has nothing. -/
  part : Option α
  /-- Whether the node was set up. -/
  finished : Bool

/-- The components of a container, in the order of their declaration. -/
structure TreeOf (α : Type) where
  nodes : List (NodeOf α)
  /-- The position of each name. -/
  byName : Ordered Nat

/-- The node with more children, after those that it has. -/
def NodeOf.adopting {α : Type} (children : List Nat) (node : NodeOf α) : NodeOf α :=
  { node with children := node.children ++ children }

namespace TreeOf

variable {α : Type}

/-! ## Views -/

/-- A tree without nodes. -/
def empty : TreeOf α := ⟨[], []⟩

/-- The number of nodes. -/
def size (t : TreeOf α) : Nat := t.nodes.length

/-- The node at a position. -/
def get? (t : TreeOf α) (id : Nat) : Option (NodeOf α) := t.nodes[id]?

/-- The node at a position, or an error. -/
def node (t : TreeOf α) (id : Nat) : Except Error (NodeOf α) :=
  match t.get? id with
  | some node => .ok node
  | none => .error (.internal none s!"No component #{id}")

/-- The names of all nodes, in order. -/
def names (t : TreeOf α) : List String := t.byName.keys

/-- The node with a name. -/
def find? (t : TreeOf α) (name : String) : Option (NodeOf α) :=
  (t.byName.find? name).bind t.get?

/-- The node with a name, or an error with close names. -/
def named (t : TreeOf α) (name : String) (maxSuggestions : Nat) : Except Error (NodeOf α) :=
  match t.find? name with
  | some node => .ok node
  | none => .error (.notFound s!"Component '{name}' not found"
      (Hint.closest name t.names maxSuggestions))

/-- The positions of the nodes that a node owns, in order. -/
def children (t : TreeOf α) (id : Nat) : List Nat := ((t.get? id).map NodeOf.children).getD []

/-- One round of the search for owners: those that were found, and the node whose owner is next. -/
def climb (t : TreeOf α) :
    List Nat × Option (NodeOf α) → (List Nat × Option (NodeOf α)) ⊕ List Nat
  | (owners, current) =>
    match current.map NodeOf.owner with
    | some (.component owner) => .inl (owners ++ [owner], t.get? owner)
    | _ => .inr owners

/-- The owners of a node, nearest first, ending with the container's own node. -/
def ownerChain (t : TreeOf α) (id : Nat) : List Nat :=
  Id.run (repeatM (fun state => pure (t.climb state)) ([], t.get? id))

/-! ## Adding nodes -/

/-- The error for a name that is in the tree already. -/
def taken (name : String) (kind : ComponentKind) (ownerName : Option String)
    (existing : NodeOf α) : Error :=
  let place := ownerName.getD "top"
  let other := existing.ownerName.getD "top"
  .ofKind .name (s!"Component name '{name}' ({kind.text} in {place}) is already used by "
    ++ s!"{existing.kind.text} in {other}")

/-- Adds a node without children at the end, and its name to the index. It must have an owner and
its name must be new. -/
def insert (t : TreeOf α) (name : String) (kind : ComponentKind) (owner : Owner)
    (ownerName : Option String) (part : Option α) : Except Error (Nat × TreeOf α) := do
  if owner = .unset then
    throw (.internal none s!"Component {name} registered without an owner")
  match t.find? name with
  | some existing => throw (taken name kind ownerName existing)
  | none =>
    let id := t.size
    return (id, ⟨t.nodes ++ [⟨id, name, kind, owner, ownerName, [], part, false⟩],
      t.byName.put name id⟩)

/-- Adds the container's own node, before all others. -/
def insertRoot (t : TreeOf α) (name : String) (kind : ComponentKind) (owner : Owner)
    (ownerName : Option String) : Except Error (Nat × TreeOf α) := do
  if !t.nodes.isEmpty then
    throw (.internal none s!"Root {name} inserted into a non-empty tree")
  t.insert name kind owner ownerName none

/-- Notes that a node owns another one. -/
def adopt (t : TreeOf α) (owner child : Nat) : Except Error (TreeOf α) := do
  let _ ← t.node owner
  return { t with nodes := t.nodes.modify owner (NodeOf.adopting [child]) }

/-! ## Setup -/

/-- Refuses trees with a node that was not set up. -/
def ensureFinished (t : TreeOf α) : Except Error Unit :=
  match t.nodes.find? fun node => !node.finished with
  | some node => .error (.internal none
      s!"Component {node.name} ({node.kind.text}) did not finish setup")
  | none => .ok ()

end TreeOf

end Formwork
