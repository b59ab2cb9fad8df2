-- Who owns what in a container that was set up. The nodes stay where they were laid out: setup
-- changes the part of a node, not its name, its kind or its owner. So every node but the first is
-- still owned by one before it, and what stands in the tree can be traced to its declaration.
import Formwork.Proofs.Container.Assembling

namespace Formwork

open Drafting

variable {extend : ExtensionSetup}

/-! ## Nodes keep their places -/

theorem place_setupNode {config : Config} {node node' : Node} {draft draft' : Draft}
    (hun : node.finished = false)
    (hr : (setupNode extend config node).run draft = (.ok node', draft')) :
    node'.place = node.place := by
  obtain ⟨_, rfl⟩ := setupNode_place hun hr
  rfl

/-- Setup goes through the nodes one by one. -/
theorem setupNodes_forall₂ {config : Config} : ∀ {nodes nodes' : List Node} {draft draft' : Draft},
    (setupNodes extend config nodes).run draft = (.ok nodes', draft') →
    List.Forall₂ (fun node node' => ∃ d d', (setupNode extend config node).run d = (.ok node', d'))
      nodes nodes'
  | [], _, _, _, hr => by
    cases hr
    exact .nil
  | node :: rest, _, draft, _, hr => by
    unfold setupNodes at hr
    obtain ⟨_, draft₁, hnode, hr⟩ := Step.run_bind_ok hr
    obtain ⟨_, _, hrest, hr⟩ := Step.run_bind_ok hr
    cases hr
    exact .cons ⟨draft, draft₁, hnode⟩ (setupNodes_forall₂ hrest)

theorem setupNodes_places {config : Config} {nodes nodes' : List Node} {draft draft' : Draft}
    (hun : ∀ node ∈ nodes, node.finished = false)
    (hr : (setupNodes extend config nodes).run draft = (.ok nodes', draft')) :
    nodes'.map NodeOf.place = nodes.map NodeOf.place := by
  have hall := setupNodes_forall₂ hr
  clear hr
  induction hall with
  | nil => rfl
  | cons hnode _ ih =>
    obtain ⟨_, _, hrun⟩ := hnode
    obtain ⟨hfirst, hrest⟩ := List.forall_mem_cons.1 hun
    rw [List.map_cons, List.map_cons, place_setupNode hfirst hrun, ih hrest]

/-! ## The tree of a container -/

section Assembled

variable {p : Profile} {enter : Drafting (ModelTree × Descriptor)} {contents : List Component}
  {providers : List DataVar} {validations : List Validation} {draft draft' : Draft} {tree : Tree}
  (a : Assembly extend p enter contents providers validations draft tree draft')

include a

/-- A node was laid out at its position, and set up there. -/
theorem Assembly.laid_at {id : Nat} {node : Node} (hnode : tree.get? id = some node) :
    ∃ node₀ d d', a.laid.get? id = some node₀ ∧ node₀.finished = false ∧
      (setupNode extend p.config node₀).run d = (.ok node, d') := by
  obtain ⟨hlt, rfl⟩ := List.getElem?_eq_some_iff.1 hnode
  have hall := setupNodes_forall₂ a.equips
  have hlt₀ : id < a.laid.nodes.length := hall.length_eq ▸ hlt
  obtain ⟨d, d', hrun⟩ := hall.get hlt₀ hlt
  exact ⟨_, d, d', List.getElem?_eq_getElem hlt₀,
    Tree.unfinished_of_mem a.lays (List.getElem_mem hlt₀), hrun⟩

theorem Assembly.places : tree.nodes.map NodeOf.place = a.laid.nodes.map NodeOf.place :=
  setupNodes_places (fun _ hnode => Tree.unfinished_of_mem a.lays hnode) a.equips

/-- Whatever was laid out at a position, there is a node with the same place. -/
theorem Assembly.at_laid {id : Nat} {node₀ : Node} (hnode : a.laid.get? id = some node₀) :
    ∃ node, tree.get? id = some node ∧ node.place = node₀.place :=
  TreeOf.get?_of_places a.places.symm hnode

/-- The parts of the tree are in step when the components are laid out. -/
theorem Assembly.laid_inStep : a.laid.InStep := by
  obtain ⟨_, hextends⟩ := Tree.ofDeclaration_extends a.lays
  exact hextends.inStep

/-- They stay in step while the components are set up. -/
theorem Assembly.inStep : tree.InStep := a.laid_inStep.of_places a.index a.places

theorem Assembly.root_laid :
    ∃ children, a.laid.get? 0 = some (Tree.containerNode p.name p.role children) := by
  obtain ⟨roots, hextends⟩ := Tree.ofDeclaration_extends a.lays
  obtain ⟨added, hadded, _⟩ := hextends.nodes_root
  exact ⟨roots, by rw [TreeOf.get?, hadded]; rfl⟩

/-- The first node stands for the container. -/
theorem Assembly.root : ∃ children, tree.get? 0 =
    some { Tree.containerNode p.name p.role children with finished := true } := by
  obtain ⟨roots, hroot⟩ := a.root_laid
  obtain ⟨node, hnode, _⟩ := a.at_laid hroot
  obtain ⟨node₀, _, _, hnode₀, _, hrun⟩ := a.laid_at hnode
  obtain rfl := Option.some.inj (hroot.symm.trans hnode₀)
  rw [setupNode_none rfl rfl] at hrun
  cases hrun
  exact ⟨roots, hnode⟩

/-- Every other node is owned by one before it, and stands for something that was declared with that
owner. -/
theorem Assembly.owned {id : Nat} {node : Node} (hnode : tree.get? id = some node) (hid : 0 < id) :
    ∃ (owner : Nat) (above : Node), owner < id ∧ tree.get? owner = some above ∧
      node.owner = .component owner ∧ node.ownerName = some above.name ∧
      ∃ part, (above.name, part) ∈ Component.preorderAll p.name
        (Tree.components p a.model contents providers validations) ∧
        node.name = part.nameIn above.name ∧ node.kind = part.kind ∧ part.Placeable ∧
        ∃ set d d', node.part = some set ∧
          (setupPart extend p.config node.name (part.ownedBy above.name)).run d =
            (.ok set, d') := by
  obtain ⟨node₀, d, d', hnode₀, hun, hrun⟩ := a.laid_at hnode
  obtain ⟨owner, above, hlt, habove, howner, hownerName⟩ := a.inStep.owner hnode hid
  rcases Tree.mem_ofDeclaration a.lays (List.mem_of_getElem? hnode₀) with
    ⟨roots, rfl⟩ | ⟨⟨named, part⟩, he, hstands⟩
  · -- The first node stands at no other position.
    exact absurd (a.laid_inStep.ids id _ hnode₀) (Nat.ne_of_lt hid)
  · obtain ⟨set, hset, rfl⟩ := (setupNode_some_iff hun hstands.part).1 hrun
    obtain rfl : above.name = named :=
      Option.some.inj (hownerName.symm.trans hstands.ownerName)
    exact ⟨owner, above, hlt, habove, howner, hownerName, part, he, hstands.name, hstands.kind,
      hstands.placeable, set, d, d', rfl, hset⟩

end Assembled

end Formwork
