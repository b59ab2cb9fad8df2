-- Descriptions. Each component has a line with its name and its kind, indented by its depth, and
-- what stands inside it follows; so do the components of an extension. Below the greatest depth that
-- is shown, a component is only hinted at, and what is inside it is left out.
import Formwork.Component.Basic

namespace Formwork

namespace Container

/-- Two blanks for each level. -/
def indent (depth : Nat) : String := String.join (List.replicate depth "  ")

/-- What is shown after the name and the kind: where a field is bound, and the type of a model. -/
def remark (p : Profile) (part : Option Part) : String :=
  match part with
  | some (.field f) =>
    match f.binding with
    | some binding => " -> " ++ binding.target.name
    | none => ""
  | some (.model m) =>
    match p.models.find? m.name with
    | some info => ": " ++ info.descriptor.declared.text
    | none => ""
  | _ => ""

/-- The line of a node at a depth. -/
def heading (p : Profile) (depth : Nat) (node : Node) : String :=
  indent depth ++ node.name ++ " (" ++ node.kind.text ++ ")" ++ remark p node.part

/-- The lines of a node at a depth and of everything inside it: first what `inner` has at its
position, which are the lines of the extension that the node stands for, then the nodes that it
owns. Below the greatest depth there is only a hint. -/
def nodeLines (p : Profile) (tree : Tree) (inner : List (Nat → List String)) (id depth : Nat) :
    List String :=
  match tree.get? id with
  | none => []
  | some node =>
    if depth ≤ p.config.maxDescribeDepth then
      heading p depth node :: ((inner[id]?.getD fun _ => []) depth ++
        node.children.flatMap fun child => nodeLines p tree inner child (depth + 1))
    else [indent depth ++ "..."]
termination_by p.config.maxDescribeDepth + 1 - depth

mutual

/-- The lines of the components of a container that stands at a depth. Its own node is left out. -/
def innerLines : Container → Nat → List String
  | .mk p (.finished _ ⟨nodes, byName⟩), depth =>
    let tree : Tree := ⟨nodes, byName⟩
    (tree.children 0).flatMap fun child => nodeLines p tree (innerOfAll nodes) child (depth + 1)
  | .mk _ _, _ => []

/-- For every node the lines of the components of the extension that it stands for, at a depth. -/
def innerOfAll : List (NodeOf Part) → List (Nat → List String)
  | [] => []
  | ⟨_, _, _, _, _, _, some (.extension c), _⟩ :: rest =>
    (fun depth => innerLines c depth) :: innerOfAll rest
  | _ :: rest => (fun _ => []) :: innerOfAll rest

end

/-- The description of a container. -/
def describe (c : Container) : String :=
  let lines := match c with
    | .mk p (.finished _ ⟨root :: rest, byName⟩) =>
      nodeLines p ⟨root :: rest, byName⟩ (innerOfAll (root :: rest)) 0 0
    | .mk p phase => [s!"{p.name} ({p.role.kind.text}, {phase.text})"]
  String.join (lines.map fun line => line ++ "\n")

end Container

end Formwork
