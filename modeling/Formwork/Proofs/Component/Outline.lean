-- What a container declares, as an outline: every component with its depth, its name and its kind, in
-- the order of the declarations. What is inside an extension follows the extension. In the tree of a
-- container every component stands at a position, and the nodes that it owns are those for what is
-- declared inside it.
import Formwork.Proofs.Component.Preorder

namespace Formwork

/-! ## Outlines -/

/-- A component in an outline. -/
structure Entry where
  depth : Nat
  name : String
  kind : ComponentKind
deriving DecidableEq, Repr

mutual

/-- A model at a depth, with those nested in it. -/
def ModelTree.outline (depth : Nat) : ModelTree → List Entry
  | .node m nested => ⟨depth, m.name, .model⟩ :: ModelTree.outlineAll (depth + 1) nested

/-- Models at a depth, one after the other. -/
def ModelTree.outlineAll (depth : Nat) : List ModelTree → List Entry
  | [] => []
  | model :: rest => model.outline depth ++ ModelTree.outlineAll depth rest

end

mutual

/-- A component at a depth, with everything inside it. -/
def Component.outline (owner : String) (depth : Nat) : Component → List Entry
  | .node part contents =>
    ⟨depth, part.nameIn owner, part.kind⟩ ::
      (part.inside depth ++ Component.outlineAll (part.nameIn owner) (depth + 1) contents)

/-- Components at a depth, one after the other. -/
def Component.outlineAll (owner : String) (depth : Nat) : List Component → List Entry
  | [] => []
  | component :: rest => component.outline owner depth ++ Component.outlineAll owner depth rest

/-- What is inside an extension at a depth. -/
def Part.inside (depth : Nat) : Part → List Entry
  | .extension c => c.inside depth
  | _ => []

/-- What is declared in a container that stands at a depth: its main model, the checks of its items,
its contents, its data providers and its rules. -/
def Container.inside (depth : Nat) : Container → List Entry
  | .mk p phase => phase.inside p depth

/-- What is declared in a container with such a profile. -/
def Phase.inside (p : Profile) (depth : Nat) : Phase → List Entry
  | .declared model contents providers validations =>
    model.outline (depth + 1) ++
      (p.checks.map fun own => ⟨depth + 1, own.nameIn p.name, own.kind⟩) ++
      Component.outlineAll p.name (depth + 1) contents ++
      (providers.map fun d => ⟨depth + 1, d.name, .dataVar⟩) ++
      validations.map fun rule => ⟨depth + 1, rule.name, .validation⟩
  | _ => []

end

/-- A container with everything that is declared in it. -/
def Container.outline (c : Container) : List Entry :=
  ⟨0, c.name, c.profile.role.kind⟩ :: c.inside 0

mutual

theorem ModelTree.map_name_outline (depth : Nat) : ∀ tree : ModelTree,
    (tree.outline depth).map (·.name) = tree.all.map (·.name)
  | .node m nested => by
    rw [ModelTree.outline, ModelTree.all, List.map_cons, List.map_cons,
      ModelTree.map_name_outlineAll]

theorem ModelTree.map_name_outlineAll (depth : Nat) : ∀ trees : List ModelTree,
    (ModelTree.outlineAll depth trees).map (·.name) = (ModelTree.allOf trees).map (·.name)
  | [] => rfl
  | tree :: rest => by
    rw [ModelTree.outlineAll, ModelTree.allOf, List.map_append, List.map_append,
      ModelTree.map_name_outline depth tree, ModelTree.map_name_outlineAll depth rest]

end

theorem Component.outlineAll_append (owner : String) (depth : Nat)
    (before after : List Component) : outlineAll owner depth (before ++ after) =
      outlineAll owner depth before ++ outlineAll owner depth after := by
  induction before with
  | nil => rfl
  | cons component rest ih => simp only [List.cons_append, outlineAll, ih, List.append_assoc]

theorem Component.outlineAll_leaves {α : Type} (owner : String) (depth : Nat) (part : α → Part)
    (hpart : ∀ a, (part a).inside depth = []) (items : List α) :
    outlineAll owner depth (items.map fun a => leaf (part a)) =
      items.map fun a => ⟨depth, (part a).nameIn owner, (part a).kind⟩ := by
  induction items with
  | nil => rfl
  | cons a rest ih =>
    rw [List.map_cons, outlineAll, ih, leaf, outline, hpart, outlineAll]
    rfl

mutual

theorem Component.outline_ofModel (owner : String) (depth : Nat) : ∀ model : ModelTree,
    (Component.ofModel model).outline owner depth = model.outline depth
  | .node m nested => by
    rw [Component.ofModel, Component.outline, ModelTree.outline, Component.outlineAll_ofModels]
    rfl

theorem Component.outlineAll_ofModels (owner : String) (depth : Nat) :
    ∀ models : List ModelTree,
    Component.outlineAll owner depth (Component.ofModels models) =
      ModelTree.outlineAll depth models
  | [] => rfl
  | model :: rest => by
    rw [Component.ofModels, Component.outlineAll, ModelTree.outlineAll,
      Component.outline_ofModel owner depth model, Component.outlineAll_ofModels owner depth rest]

end

/-- What is declared in a container is the outline of the components that its tree is filled with. -/
theorem Tree.outlineAll_components (p : Profile) (model : ModelTree) (contents : List Component)
    (providers : List DataVar) (validations : List Validation) (depth : Nat) :
    Component.outlineAll p.name (depth + 1) (components p model contents providers validations) =
      (Container.mk p (.declared model contents providers validations)).inside depth := by
  have hcardinality := Component.outlineAll_leaves p.name (depth + 1) Part.cardinality
    (fun _ => rfl) p.cardinality.toList
  have huniques := Component.outlineAll_leaves p.name (depth + 1) Part.unique (fun _ => rfl)
    p.uniques
  have hproviders := Component.outlineAll_leaves p.name (depth + 1) Part.dataVar (fun _ => rfl)
    providers
  have hrules : Component.outlineAll p.name (depth + 1)
      (validations.map Component.ofValidation) = _ :=
    Component.outlineAll_leaves p.name (depth + 1) Part.validation (fun _ => rfl) validations
  rw [Container.inside, Phase.inside]
  simp only [components, Component.outlineAll_append, hcardinality, huniques, hproviders, hrules,
    Component.outlineAll, List.append_nil, Component.outline_ofModel, Profile.checks,
    List.map_append, List.map_map]
  rfl

/-- The owner of a part does not show in an outline. -/
@[simp] theorem Part.inside_ownedBy (depth : Nat) (owner : String) (part : Part) :
    (part.ownedBy owner).inside depth = part.inside depth := by
  cases part with
  | extension c =>
    obtain ⟨p, phase⟩ := c
    cases phase <;> rfl
  | _ => rfl

theorem Part.inside_of_kind {part : Part} (depth : Nat) (h : part.kind ≠ .extension) :
    part.inside depth = [] := by
  cases part with
  | extension c => exact absurd rfl h
  | _ => rfl

mutual

theorem ModelTree.le_depth {depth : Nat} : ∀ {model : ModelTree},
    ∀ entry ∈ model.outline depth, depth ≤ entry.depth
  | .node m nested => by
    rw [ModelTree.outline]
    refine List.forall_mem_cons.2 ⟨Nat.le_refl _, fun entry he => ?_⟩
    exact Nat.le_of_succ_le (ModelTree.le_depth_all entry he)

theorem ModelTree.le_depth_all {depth : Nat} : ∀ {models : List ModelTree},
    ∀ entry ∈ ModelTree.outlineAll depth models, depth ≤ entry.depth
  | [] => List.forall_mem_nil _
  | model :: rest => by
    rw [ModelTree.outlineAll]
    exact List.forall_mem_append.2 ⟨ModelTree.le_depth, ModelTree.le_depth_all⟩

end

mutual

/-- Nothing in the outline of a component is higher up than the component. -/
theorem Component.le_depth {owner : String} {depth : Nat} : ∀ {component : Component},
    ∀ entry ∈ component.outline owner depth, depth ≤ entry.depth
  | .node part contents => by
    rw [Component.outline]
    refine List.forall_mem_cons.2 ⟨Nat.le_refl _, List.forall_mem_append.2 ⟨?_, ?_⟩⟩
    · exact fun entry he => Nat.le_of_lt (Part.lt_depth entry he)
    · exact fun entry he => Nat.le_of_succ_le (Component.le_depth_all entry he)

theorem Component.le_depth_all {owner : String} {depth : Nat} : ∀ {components : List Component},
    ∀ entry ∈ Component.outlineAll owner depth components, depth ≤ entry.depth
  | [] => List.forall_mem_nil _
  | component :: rest => by
    rw [Component.outlineAll]
    exact List.forall_mem_append.2 ⟨Component.le_depth, Component.le_depth_all⟩

theorem Part.lt_depth {depth : Nat} : ∀ {part : Part}, ∀ entry ∈ part.inside depth,
    depth < entry.depth
  | .extension _ => Container.lt_depth
  | .field _ | .group _ | .dataVar _ | .validation _ | .model _ | .cardinality _ | .unique _ =>
    List.forall_mem_nil _

theorem Container.lt_depth {depth : Nat} : ∀ {c : Container}, ∀ entry ∈ c.inside depth,
    depth < entry.depth
  | .mk _ _ => Phase.lt_depth

theorem Phase.lt_depth {p : Profile} {depth : Nat} : ∀ {phase : Phase},
    ∀ entry ∈ phase.inside p depth, depth < entry.depth
  | .declared model contents providers validations => by
    rw [Phase.inside]
    simp only [List.forall_mem_append, List.forall_mem_map, Nat.lt_succ_self, implies_true,
      and_true]
    exact ⟨fun entry he => ModelTree.le_depth entry he,
      fun entry he => Component.le_depth_all entry he⟩
  | .finished .. => List.forall_mem_nil _
  | .failed => List.forall_mem_nil _

end

/-! ## Positions of components -/

mutual

/-- The component stands at a position, and what is declared inside it at the positions of the nodes
that the node there owns. -/
def Component.StandsAt (t : Tree) (owner : String) : Component → Nat → Prop
  | .node part contents, id =>
    (∃ node, t.get? id = some node ∧ StandsFor (owner, part) node) ∧
      Component.StandAt t (part.nameIn owner) contents (t.children id)

/-- The components stand at positions, one after the other. -/
def Component.StandAt (t : Tree) (owner : String) : List Component → List Nat → Prop
  | [], ids => ids = []
  | component :: rest, ids => ∃ id others, ids = id :: others ∧
    component.StandsAt t owner id ∧ Component.StandAt t owner rest others

end

namespace Tree

variable {T : Tree}

theorem Extends.size_le {t t' : Tree} {owner : Nat} {roots : List Nat}
    {declared : List (String × Part)} (h : Extends t t' owner roots declared) :
    t.size ≤ t'.size := by
  obtain ⟨added, hnodes, _⟩ := h.nodes
  rw [TreeOf.size, TreeOf.size, hnodes, List.length_append, List.length_modify]
  exact Nat.le_add_right _ _

/-- What stands behind the owner stays as it is when the owner takes over more. -/
theorem Extends.get?_of_lt {t t' : Tree} {owner id : Nat} {roots : List Nat}
    {declared : List (String × Part)} {node : Node} (h : Extends t t' owner roots declared)
    (hlt : owner < id) (hn : t.get? id = some node) : t'.get? id = some node := by
  rw [h.get? hn, if_neg (Nat.ne_of_lt hlt)]

mutual

/-- A component stands where it was filled in, in every tree that keeps what was added with it. -/
theorem standsAt_of_fill : ∀ {component : Component} {t t' : Tree} {owner id : Nat}
    {above : Node},
    t.Receives owner above → fill t owner component = .ok (id, t') →
    (∀ p node, t.size ≤ p → t'.get? p = some node → T.get? p = some node) →
    component.StandsAt T above.name id
  | .node part contents, t, t', owner, id, above, ht, h, hkept => by
    obtain ⟨hpart, hnew, rfl, hcontents⟩ := ht.fill_ok_iff.1 h
    have hsize : (t.withChild owner (part.nodeAt t.size owner above.name)).size = t.size + 1 :=
      TreeOf.size_withChild
    obtain ⟨roots, hnode, hstand⟩ := standAt_of_fillAll (ht.contents hnew) hcontents
      fun p node hle hn => hkept p node (by omega) hn
    have hT := hkept _ _ (Nat.le_refl _) hnode
    refine ⟨⟨_, hT, (hpart.standsFor t.size owner above.name).adopting roots⟩, ?_⟩
    rw [TreeOf.children, hT]
    exact hstand

theorem standAt_of_fillAll : ∀ {components : List Component} {t t' : Tree} {owner : Nat}
    {above : Node},
    t.Receives owner above → fillAll t owner components = .ok t' →
    (∀ p node, t.size ≤ p → t'.get? p = some node → T.get? p = some node) →
    ∃ roots, t'.get? owner = some (above.adopting roots) ∧
      Component.StandAt T above.name components roots
  | [], t, t', owner, above, ht, h, _ => by
    cases h
    exact ⟨[], by rw [ht.above, NodeOf.adopting, List.append_nil], rfl⟩
  | component :: rest, t, t', owner, above, ht, h, hkept => by
    obtain ⟨id, extended, hfill, hrest⟩ := fillAll_cons_ok_iff.1 h
    obtain ⟨_, hfirst⟩ := fill_extends ht hfill
    have hlt := TreeOf.lt_size_of_get? ht.above
    obtain ⟨_, hmore⟩ := fillAll_extends (hfirst.receives ht) hrest
    obtain ⟨others, howner, hothers⟩ := standAt_of_fillAll (hfirst.receives ht) hrest
      fun p node hle hn => hkept p node (Nat.le_trans hfirst.size_le hle) hn
    refine ⟨id :: others, ?_, id, others, rfl, ?_, hothers⟩
    · rw [howner, NodeOf.adopting, NodeOf.adopting, NodeOf.adopting, List.append_assoc]
      rfl
    · exact standsAt_of_fill ht hfill fun p node hle hn =>
        hkept p node hle (hmore.get?_of_lt (Nat.lt_of_lt_of_le hlt hle) hn)

end

/-- The components of a container stand at the positions of the nodes that its own node owns. -/
theorem standAt_ofDeclaration {p : Profile} {model : ModelTree} {contents : List Component}
    {providers : List DataVar} {validations : List Validation}
    (h : ofDeclaration p model contents providers validations = .ok T) :
    Component.StandAt T p.name (components p model contents providers validations)
      (T.children 0) := by
  obtain ⟨roots, hroot, hstand⟩ : ∃ roots, T.get? 0 = some (containerNode p.name p.role roots) ∧
      Component.StandAt T p.name (components p model contents providers validations) roots :=
    standAt_of_fillAll (receives_ofRole p.name p.role) (ofDeclaration_ok h).2 fun _ _ _ hn => hn
  rw [TreeOf.children, hroot]
  exact hstand

end Tree

end Formwork
