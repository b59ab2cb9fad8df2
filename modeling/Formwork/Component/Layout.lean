-- Laying components out. A component stands before everything declared inside it, and what is
-- declared inside keeps its order. Extensions stay closed: what is inside them is laid out in a
-- tree of their own.
import Formwork.Component.Basic

namespace Formwork

/-- The name in a tree, unless an empty one was declared. -/
def Part.resolveName (ownerName : String) (part : Part) : Except Error String :=
  if part.declaredName? = some "" then
    .error (.ofKind .name s!"{part.kind.text} declared with an empty name")
  else .ok (part.nameIn ownerName)

/-- Refuses an owner for a rule set, and for an extension that has one already. -/
def Part.checkOwner (owner : Owner) (ownerName : String) : Part → Except Error Unit
  | .extension (.mk profile _) =>
    match profile.role with
    | .ruleSet => .error (.ofKind .value
        s!"Rule set {profile.name} can not be nested in {ownerName}")
    | .extension none => .ok ()
    | .extension (some _) => .error (.internal none (s!"Extension {profile.name} already has owner "
        ++ s!"{profile.role.owner.text}, got {owner.text}"))
  | _ => .ok ()

/-- The part with the name of its owner, for the parts that keep it. -/
def Part.ownedBy (ownerName : String) : Part → Part
  | .extension (.mk profile phase) =>
    .extension (.mk { profile with role := .extension (some ownerName) } phase)
  | .cardinality check => .cardinality (check.ownedBy ownerName)
  | .unique check => .unique (check.ownedBy ownerName)
  | part => part

namespace Tree

mutual

/-- Adds a component and everything inside it, owned by the node at a position. The result is its
own position, and the tree. -/
def fill (t : Tree) (owner : Nat) : Component → Except Error (Nat × Tree)
  | .node part contents => do
    let ownerName := (← t.node owner).name
    let name ← part.resolveName ownerName
    part.checkOwner (.component owner) ownerName
    let (id, t) ← t.insert name part.kind (.component owner) (some ownerName)
      (some (part.ownedBy ownerName))
    let t ← t.adopt owner id
    let t ← fillAll t id contents
    return (id, t)

/-- Adds components one after the other, all with the same owner. -/
def fillAll (t : Tree) (owner : Nat) : List Component → Except Error Tree
  | [] => .ok t
  | component :: rest => do
    let (_, t) ← fill t owner component
    fillAll t owner rest

end

/-- Adds the contents of a container. Checks of the items are declared on the container itself. -/
def fillContents (t : Tree) (root : Nat) : List Component → Except Error Tree
  | [] => .ok t
  | component :: rest => do
    match component.part.kind with
    | .cardinality | .unique => throw (.ofKind .value
        s!"{component.part.text} must be declared on the extension, not in its contents")
    | _ =>
      let (_, t) ← t.fill root component
      fillContents t root rest

/-- The tree of a container: itself, its main model, the checks of its items, its contents, its
data providers and its rules. -/
def ofDeclaration (p : Profile) (model : ModelTree) (contents : List Component)
    (providers : List DataVar) (validations : List Validation) : Except Error Tree := do
  let checks := (p.cardinality.toList.map fun check => Component.leaf (.cardinality check))
    ++ p.uniques.map fun check => Component.leaf (.unique check)
  let (root, t) ← TreeOf.empty.insertRoot p.name p.role.kind p.role.owner p.role.ownerName
  let (_, t) ← fill t root (.ofModel model)
  let t ← fillAll t root checks
  let t ← fillContents t root contents
  let t ← fillAll t root (providers.map fun d => Component.leaf (.dataVar d))
  fillAll t root (validations.map Component.ofValidation)

end Tree

end Formwork
