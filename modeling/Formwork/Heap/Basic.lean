-- The heap of a container: its variables, and the names under which they are found in each
-- namespace. Attributes of a variable get variables of their own the first time an expression asks
-- for them. A finished heap does not change any more.
--
-- An action on a heap ends in a result or an error, and leaves a heap in both cases.
import Formwork.Heap.Variable

namespace Formwork

/-- Variables, and the names they are registered under, oldest first. -/
structure Heap where
  name : String
  arena : Array Variable
  /-- The namespaces that names can be registered in, in the order in which they are listed. -/
  namespaces : List Namespace
  names : List ((Namespace × String) × VarId)
  /-- How many names were registered. -/
  count : Nat
  maxSuggestions : Nat
  finished : Bool
  /-- No namespace is missing. -/
  complete : ∀ ns, ns ∈ namespaces

/-- An action on a heap. What was done before an error stays done. -/
abbrev HeapAction := ExceptT Error (StateM Heap)

namespace Heap

/-! ## Views -/

/-- A heap without variables. -/
def empty (name : String) (maxSuggestions : Nat) : Heap :=
  ⟨name, #[], Namespace.all, [], 0, maxSuggestions, false, Namespace.mem_all⟩

/-- The number of registered names, aliases included. -/
def size (h : Heap) : Nat := h.count

/-- The variable registered under a name. -/
def lookup (h : Heap) (ns : Namespace) (name : String) : Option VarId :=
  List.lookup (ns, name) h.names

/-- The variable with an id. -/
def find? (h : Heap) (id : VarId) : Option Variable := h.arena[id.index]?

/-- The variable registered under a name. -/
def get? (h : Heap) (ns : Namespace) (name : String) : Option Variable :=
  (h.lookup ns name).bind h.find?

/-- The variable registered under a name, or an error. -/
def named (h : Heap) (ns : Namespace) (name : String) : Except Error Variable :=
  match h.get? ns name with
  | some v => .ok v
  | none => .error (.ofKind .name s!"Variable '{name}' not found in {h.name}.{ns.text}")

/-- The names of a namespace with their variables, oldest first. -/
def entries (h : Heap) (ns : Namespace) : List (String × VarId) :=
  h.names.filterMap fun ((space, name), id) => if space = ns then some (name, id) else none

/-- The names of a namespace, oldest first. -/
def namesOf (h : Heap) (ns : Namespace) : List String := (h.entries ns).map Prod.fst

/-! ## Actions -/

/-- Refuses to go on when the heap is finished. -/
def ensureOpen (action : String) : HeapAction Unit := do
  let h ← get
  if h.finished then throw (.internal none s!"Heap {h.name} is finished, can not {action}")

/-- Refuses to go on with a namespace that the heap does not have. -/
def ensureNamespace (ns : Namespace) : HeapAction Unit := do
  let h ← get
  if !h.namespaces.contains ns then
    throw (.internal none s!"Heap {h.name} has no namespace {ns.text}")

/-- The error for an id without a variable. -/
def missing (h : Heap) (id : VarId) : Error :=
  .internal none s!"Heap {h.name} has no variable #{id.index}"

/-- The variable with an id, or an error. -/
def variableAt (id : VarId) : HeapAction Variable := do
  let h ← get
  match h.find? id with
  | some v => return v
  | none => throw (h.missing id)

/-- Changes the variable with an id. -/
def change (id : VarId) (f : Variable → Variable) : HeapAction Unit := do
  let _ ← variableAt id
  modify fun h => { h with arena := h.arena.modify id.index f }

/-- Registers a name that is new in its namespace. -/
def register (ns : Namespace) (name : String) (id : VarId) : HeapAction Unit := do
  ensureNamespace ns
  let h ← get
  if (h.lookup ns name).isSome then
    throw (.ofKind .name s!"Variable '{name}' already registered in {h.name}.{ns.text}")
  set { h with names := h.names ++ [((ns, name), id)], count := h.count + 1 }

/-- Adds a variable under its own name, or under another one. -/
def add (v : Variable) (altName : Option String) : HeapAction VarId := do
  ensureOpen s!"add variable {v.name}"
  ensureNamespace v.ns
  let h ← get
  let id : VarId := ⟨h.arena.size⟩
  register v.ns (altName.getD v.name) id
  modify fun h => { h with arena := h.arena.push v }
  return id

/-- Makes a variable reachable under a second name, and binds it to that name. -/
def addAlias (id : VarId) (name : String) : HeapAction Unit := do
  ensureOpen s!"add alias {name}"
  let v ← variableAt id
  let h ← get
  change id fun v => v.bind ⟨h.name, v.ns, name⟩
  register v.ns name id

/-- Records a reference to a variable. -/
def addReference (id : VarId) (owner : String) : HeapAction Unit := do
  ensureOpen s!"add reference from {owner}"
  change id fun v => v.refer owner

/-- Binds a variable to another one. -/
def addBound (id : VarId) (b : BoundVar) : HeapAction Unit := do
  ensureOpen s!"bind to {b.text}"
  change id fun v => v.bind b

/-- The shape of the values that a variable stands for, when one of their attributes is needed. -/
def shapeFor (attr : String) (v : Variable) : Except Error Descriptor :=
  match v.data with
  | .typed descriptor => .ok descriptor
  | .provider (some descriptor) => .ok descriptor
  | .function signature => signature.result
  | .component _ kind => .error (.ofKind .unsupported
      s!"Attribute '{attr}' of {kind.text} {v.name} can not be resolved at setup")
  | _ => .error (.ofKind .unsupported
      s!"Variable {v.name} has no type, attribute '{attr}' can not be resolved at setup")

/-- The variable of a name that stands first in a path. -/
def rootVariable (ns : Namespace) (name : String) : HeapAction VarId := do
  let h ← get
  match h.lookup ns name with
  | some id => return id
  | none =>
    if ns.isHeapBacked then
      throw (.unknownName none s!"Variable '{name}' not found in namespace {ns.text}"
        (Hint.closest name (h.namesOf ns) h.maxSuggestions))
    else
      throw (.ofKind .unsupported
        s!"Namespace {ns.text} is resolved at runtime, '{name}' can not be set up")

/-- The variable of an attribute of a variable, added from the parent's shape if it is new. -/
def memberVariable (ns : Namespace) (name : String) (parent : VarId) : HeapAction VarId := do
  let v ← variableAt parent
  let full := v.name ++ "." ++ name
  let h ← get
  match h.lookup ns full with
  | some id => return id
  | none =>
    let shape ← ofExcept (shapeFor name v)
    let descriptor ← ofExcept (shape.attr name h.maxSuggestions)
    add (.fresh full ns (.typed descriptor)) none

/-- The variable of one hop of a path, after the variable of the hop before if there is one. -/
def attributeVariable (ns : Namespace) (name : String) (parent : Option VarId) :
    HeapAction VarId := do
  if name.toList.head? == some '_' then
    throw (.ofKind .name s!"Attribute name '{name}' can not start with '_'")
  match parent with
  | some id => memberVariable ns name id
  | none => rootVariable ns name

/-- What is wrong with a name: that its variable is not there, or that it is an alias to which the
variable is not bound. -/
def fault? (h : Heap) (ns : Namespace) (name : String) (id : VarId) : Option Error :=
  match h.find? id with
  | none => some (h.missing id)
  | some v =>
    if name == v.name || v.isBoundTo name then none
    else some (.internal none
      s!"Heap {h.name}: {ns.text}.{name} is an alias of {v.name} without a binding")

/-- What is wrong with the first name that something is wrong with. -/
def firstFault? (h : Heap) : Option Error :=
  h.namespaces.findSome? fun ns => (h.entries ns).findSome? fun (name, id) => h.fault? ns name id

/-- Freezes the heap after checking that every alias is explained by a binding. -/
def finish : HeapAction Unit := do
  let h ← get
  if h.finished then throw (.ofKind .general s!"Heap {h.name} already finished")
  match h.firstFault? with
  | some e => throw e
  | none => set { h with finished := true }

end Heap

end Formwork
