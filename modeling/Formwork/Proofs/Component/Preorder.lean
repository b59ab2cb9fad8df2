-- Components are laid out in pre-order: a component, then what is declared inside it, in the order
-- of the declarations. A new node is always owned by the last node or by one of the owners of the
-- last node, which keeps the parts of the tree in step.
import Formwork.Component.Layout
import Formwork.Proofs.Component.InStep
import Formwork.Proofs.Run
import Mathlib.Data.List.Forall2

namespace Formwork

/-! ## The declared order -/

mutual

/-- The parts of a component, each with the name of its owner: first its own, then those of what is
declared inside it. -/
def Component.preorder (owner : String) : Component → List (String × Part)
  | .node part contents => (owner, part) :: Component.preorderAll (part.nameIn owner) contents

/-- The parts of components that have one owner, in the order of their declaration. -/
def Component.preorderAll (owner : String) : List Component → List (String × Part)
  | [] => []
  | component :: rest => component.preorder owner ++ Component.preorderAll owner rest

end

theorem Component.preorderAll_append (owner : String) (before after : List Component) :
    preorderAll owner (before ++ after) = preorderAll owner before ++ preorderAll owner after := by
  induction before with
  | nil => rfl
  | cons component rest ih => simp only [List.cons_append, preorderAll, ih, List.append_assoc]

theorem Component.mem_preorderAll {owner : String} {entry : String × Part} :
    ∀ {components : List Component}, entry ∈ preorderAll owner components ↔
      ∃ component ∈ components, entry ∈ component.preorder owner
  | [] => by simp [preorderAll]
  | component :: rest => by
    rw [preorderAll, List.mem_append, mem_preorderAll, List.exists_mem_cons_iff]

theorem Component.preorderAll_leaves {α : Type} (owner : String) (part : α → Part)
    (items : List α) :
    preorderAll owner (items.map fun a => leaf (part a)) = items.map fun a => (owner, part a) := by
  induction items with
  | nil => rfl
  | cons a rest ih => rw [List.map_cons, preorderAll, ih, leaf, preorder, preorderAll]; rfl

mutual

/-- The model and those nested in it, in the order in which they are laid out. -/
def ModelTree.all : ModelTree → List BoundModel
  | .node m nested => m :: ModelTree.allOf nested

/-- The models and those nested in them. -/
def ModelTree.allOf : List ModelTree → List BoundModel
  | [] => []
  | model :: rest => model.all ++ ModelTree.allOf rest

end

mutual

theorem Component.preorder_ofModel (owner : String) : ∀ model : ModelTree,
    ((Component.ofModel model).preorder owner).map Prod.snd = model.all.map Part.model
  | .node m nested => by
    rw [Component.ofModel, Component.preorder, List.map_cons]
    exact congrArg (Part.model m :: ·) (Component.preorderAll_ofModels _ nested)

theorem Component.preorderAll_ofModels (owner : String) : ∀ models : List ModelTree,
    (Component.preorderAll owner (Component.ofModels models)).map Prod.snd =
      (ModelTree.allOf models).map Part.model
  | [] => rfl
  | model :: rest => by
    rw [Component.ofModels, Component.preorderAll, ModelTree.allOf, List.map_append,
      List.map_append, Component.preorder_ofModel owner model,
      Component.preorderAll_ofModels owner rest]

end

/-- A model as a component has models in it only. -/
theorem Component.mem_preorder_ofModel {owner : String} {model : ModelTree} {entry : String × Part}
    (he : entry ∈ (Component.ofModel model).preorder owner) :
    ∃ m ∈ model.all, entry.2 = .model m := by
  have hpart := List.mem_map_of_mem (f := Prod.snd) he
  rw [Component.preorder_ofModel] at hpart
  obtain ⟨m, hm, hsame⟩ := List.mem_map.1 hpart
  exact ⟨m, hm, hsame.symm⟩

/-- The checks that a container has itself: of the number of items, and of combinations. -/
def Profile.checks (p : Profile) : List Part :=
  p.cardinality.toList.map Part.cardinality ++ p.uniques.map Part.unique

theorem Profile.kind_of_mem_checks {p : Profile} {own : Part} (h : own ∈ p.checks) :
    own.kind = .cardinality ∨ own.kind = .unique := by
  rcases List.mem_append.1 h with h | h
  · obtain ⟨check, _, rfl⟩ := List.mem_map.1 h
    exact .inl rfl
  · obtain ⟨check, _, rfl⟩ := List.mem_map.1 h
    exact .inr rfl

/-- The names that declared parts get. -/
def namesOf (declared : List (String × Part)) : List String :=
  declared.map fun entry => entry.2.nameIn entry.1

/-- The part can be laid out: its name is not empty, and it is neither a rule set nor an extension that
has an owner already. -/
structure Part.Placeable (part : Part) : Prop where
  named : part.declaredName? ≠ some ""
  free : ∀ c, part = .extension c → c.profile.role = .extension none

theorem Part.resolveName_ok_iff {part : Part} {owner name : String} :
    part.resolveName owner = .ok name ↔
      part.declaredName? ≠ some "" ∧ name = part.nameIn owner := by
  unfold Part.resolveName
  split
  · rename_i hempty
    exact ⟨nofun, fun h => absurd hempty h.1⟩
  · rename_i hnamed
    exact ⟨fun h => ⟨hnamed, (Except.ok.inj h).symm⟩, fun h => h.2 ▸ rfl⟩

theorem Part.checkOwner_ok_iff {part : Part} {owner : Owner} {ownerName : String} :
    part.checkOwner owner ownerName = .ok () ↔
      ∀ c, part = .extension c → c.profile.role = .extension none := by
  cases part with
  | extension c =>
    obtain ⟨p, phase⟩ := c
    simp only [Part.checkOwner, Part.extension.injEq, forall_eq']
    rcases hrole : p.role with _ | _ | _ <;> simp [Container.profile, hrole]
  | _ => simp [Part.checkOwner]

/-- An owner takes a part over as what it is. -/
@[simp] theorem Part.kind_ownedBy (owner : String) (part : Part) :
    (part.ownedBy owner).kind = part.kind := by
  cases part with
  | extension c => cases c; rfl
  | _ => rfl

/-- An extension that is owned was declared as one. Only its owner is noted. -/
theorem Part.eq_extension_of_ownedBy {owner : String} {part : Part} {c : Container}
    (h : part.ownedBy owner = .extension c) : ∃ p phase, part = .extension (.mk p phase) ∧
      c = .mk { p with role := .extension (some owner) } phase := by
  cases part with
  | extension inner =>
    obtain ⟨p, phase⟩ := inner
    cases h
    exact ⟨p, phase, rfl, rfl⟩
  | _ => cases h

/-- The node stands for a declared part, and was not set up yet. -/
structure StandsFor (declared : String × Part) (node : Node) : Prop where
  name : node.name = declared.2.nameIn declared.1
  kind : node.kind = declared.2.kind
  ownerName : node.ownerName = some declared.1
  part : node.part = some (declared.2.ownedBy declared.1)
  unfinished : node.finished = false
  placeable : declared.2.Placeable

/-- The node that is added for a part. -/
def Part.nodeAt (id owner : Nat) (ownerName : String) (part : Part) : Node :=
  ⟨id, part.nameIn ownerName, part.kind, .component owner, some ownerName, [],
    some (part.ownedBy ownerName), false⟩

theorem Part.Placeable.standsFor {part : Part} (h : part.Placeable) (id owner : Nat)
    (ownerName : String) : StandsFor (ownerName, part) (part.nodeAt id owner ownerName) :=
  ⟨rfl, rfl, rfl, rfl, rfl, h⟩

theorem Part.nodeAt_inStep {t : Tree} {owner : Nat} {above : Node} (part : Part) (ht : t.InStep)
    (hlast : t.Inside owner (t.size - 1)) (habove : t.get? owner = some above)
    (hnew : part.nameIn above.name ∉ t.names) :
    let extended := t.withChild owner (part.nodeAt t.size owner above.name)
    extended.InStep ∧ extended.Inside owner t.size :=
  TreeOf.InStep.withChild ht hlast habove rfl rfl rfl rfl hnew

theorem StandsFor.adopting {declared : String × Part} {node : Node} (h : StandsFor declared node)
    (children : List Nat) : StandsFor declared (node.adopting children) :=
  ⟨h.name, h.kind, h.ownerName, h.part, h.unfinished, h.placeable⟩

theorem map_name_of_standsFor {declared : List (String × Part)} {added : List Node}
    (h : List.Forall₂ StandsFor declared added) : added.map NodeOf.name = namesOf declared := by
  induction h with
  | nil => rfl
  | cons hstands _ ih =>
    rw [List.map_cons, ih, hstands.name]
    rfl

theorem exists_standsFor_of_mem {declared : List (String × Part)} {added : List Node}
    (h : List.Forall₂ StandsFor declared added) :
    ∀ node ∈ added, ∃ entry ∈ declared, StandsFor entry node := by
  induction h with
  | nil => simp
  | @cons entry _ _ _ hstands _ ih =>
    intro node hn
    rcases List.mem_cons.1 hn with rfl | hn
    · exact ⟨entry, List.mem_cons_self, hstands⟩
    · obtain ⟨other, ho, hother⟩ := ih node hn
      exact ⟨other, List.mem_cons_of_mem _ ho, hother⟩

theorem placeable_of_standsFor {declared : List (String × Part)} {added : List Node}
    (h : List.Forall₂ StandsFor declared added) : ∀ entry ∈ declared, entry.2.Placeable := by
  induction h with
  | nil => simp
  | cons hstands _ ih =>
    intro entry he
    rcases List.mem_cons.1 he with rfl | he
    · exact hstands.placeable
    · exact ih entry he

namespace Tree

/-! ## Filling -/

variable {t t' t'' : Tree} {owner : Nat}

/-- The tree is in step, and the node at `owner` can be given more: the last node is inside it. -/
structure Receives (t : Tree) (owner : Nat) (above : Node) : Prop where
  inStep : t.InStep
  last : t.Inside owner (t.size - 1)
  above : t.get? owner = some above

/-- After a node is added, what is inside it can be added. -/
theorem Receives.contents {above : Node} {part : Part} (h : t.Receives owner above)
    (hnew : part.nameIn above.name ∉ t.names) :
    Receives (t.withChild owner (part.nodeAt t.size owner above.name)) t.size
      (part.nodeAt t.size owner above.name) :=
  ⟨(part.nodeAt_inStep h.inStep h.last h.above hnew).1, TreeOf.inside_withChild_last,
    TreeOf.get?_withChild_last⟩

/-- The tree `t'` is `t` with nodes for what is declared at the end, and nothing else changes but that
the node at `owner` has more children, at `roots`. -/
structure Extends (t t' : Tree) (owner : Nat) (roots : List Nat)
    (declared : List (String × Part)) : Prop where
  inStep : t'.InStep
  inside : t'.Inside owner (t'.size - 1)
  nodes : ∃ added, t'.nodes = t.nodes.modify owner (.adopting roots) ++ added ∧
    List.Forall₂ StandsFor declared added

/-- The step of filling: a node for the component, owned by the node at `owner`. -/
theorem Receives.fill_ok_iff {above : Node} {id : Nat} {part : Part} {contents : List Component}
    (ht : t.Receives owner above) :
    fill t owner (.node part contents) = .ok (id, t') ↔
      part.Placeable ∧ part.nameIn above.name ∉ t.names ∧ id = t.size ∧
      fillAll (t.withChild owner (part.nodeAt t.size owner above.name)) t.size contents =
        .ok t' := by
  have habove : t.node owner = .ok above := TreeOf.node_ok_iff.2 ht.above
  have hlt := TreeOf.lt_size_of_get? ht.above
  rw [fill]
  constructor
  · intro h
    obtain ⟨above', habove', h⟩ := except_bind_ok h
    obtain rfl := Except.ok.inj (habove.symm.trans habove')
    obtain ⟨name, hname, h⟩ := except_bind_ok h
    obtain ⟨⟨⟩, hfree, h⟩ := except_bind_ok h
    obtain ⟨⟨id', t₁⟩, hinsert, h⟩ := except_bind_ok h
    obtain ⟨t₂, hadopt, h⟩ := except_bind_ok h
    obtain ⟨t₃, hcontents, h⟩ := except_bind_ok h
    cases h
    obtain ⟨hnamed, rfl⟩ := Part.resolveName_ok_iff.1 hname
    obtain ⟨hnew, rfl, rfl⟩ := (ht.inStep.insert_adopt_iff hlt).1 ⟨t₁, hinsert, hadopt⟩
    exact ⟨⟨hnamed, Part.checkOwner_ok_iff.1 hfree⟩, hnew, rfl, hcontents⟩
  · rintro ⟨hpart, hnew, rfl, hcontents⟩
    have hname : part.resolveName above.name = .ok (part.nameIn above.name) :=
      Part.resolveName_ok_iff.2 ⟨hpart.named, rfl⟩
    have hfree : part.checkOwner (.component owner) above.name = .ok () :=
      Part.checkOwner_ok_iff.2 hpart.free
    obtain ⟨t₁, hinsert, hadopt⟩ : ∃ t₁, t.insert (part.nameIn above.name) part.kind
        (.component owner) (some above.name) (some (part.ownedBy above.name)) = .ok (t.size, t₁) ∧
        t₁.adopt owner t.size = .ok (t.withChild owner (part.nodeAt t.size owner above.name)) :=
      (ht.inStep.insert_adopt_iff hlt).2 ⟨hnew, rfl, rfl⟩
    simp only [habove, hname, hfree, hinsert, hadopt, hcontents, bind, Except.bind]
    rfl

theorem fillAll_cons_ok_iff {component : Component} {rest : List Component} :
    fillAll t owner (component :: rest) = .ok t' ↔ ∃ id extended,
      fill t owner component = .ok (id, extended) ∧ fillAll extended owner rest = .ok t' := by
  rw [fillAll]
  constructor
  · intro h
    obtain ⟨⟨id, extended⟩, hfill, h⟩ := except_bind_ok h
    exact ⟨id, extended, hfill, h⟩
  · rintro ⟨id, extended, hfill, h⟩
    rw [hfill]
    exact h

/-- A node that was there stays as it is, but for the children of the owner. -/
theorem Extends.get? {roots : List Nat} {declared : List (String × Part)} {id : Nat} {node : Node}
    (h : Extends t t' owner roots declared) (hn : t.get? id = some node) :
    t'.get? id = some (if owner = id then node.adopting roots else node) := by
  obtain ⟨added, hnodes, _⟩ := h.nodes
  have hlt : id < (t.nodes.modify owner (.adopting roots)).length := by
    rw [List.length_modify]
    exact TreeOf.lt_size_of_get? hn
  rw [TreeOf.get?, hnodes, List.getElem?_append_left hlt, List.getElem?_modify]
  exact congrArg _ hn

/-- After something was filled in, more can be. -/
theorem Extends.receives {roots : List Nat} {declared : List (String × Part)} {above : Node}
    (h : Extends t t' owner roots declared) (ht : t.Receives owner above) :
    t'.Receives owner (above.adopting roots) := by
  refine ⟨h.inStep, h.inside, ?_⟩
  rw [h.get? ht.above, if_pos rfl]

theorem Extends.inside_of_inside {roots : List Nat} {declared : List (String × Part)}
    (h : Extends t t' owner roots declared) {p id : Nat} (hin : t.Inside p id) :
    t'.Inside p id := by
  induction hin with
  | self => exact .self
  | owned hn ho _ ih =>
    refine .owned (h.get? hn) ?_ ih
    split <;> exact ho

theorem Extends.trans {roots others : List Nat} {declared more : List (String × Part)}
    (howner : owner < t.size) (h : Extends t t' owner roots declared)
    (h' : Extends t' t'' owner others more) :
    Extends t t'' owner (roots ++ others) (declared ++ more) := by
  obtain ⟨added, ht', hadded⟩ := h.nodes
  obtain ⟨added', ht'', hadded'⟩ := h'.nodes
  refine ⟨h'.inStep, h'.inside, added ++ added', ?_, List.rel_append hadded hadded'⟩
  have hmodified : owner < (t.nodes.modify owner (.adopting roots)).length := by
    rw [List.length_modify]
    exact howner
  have hboth : NodeOf.adopting others ∘ NodeOf.adopting roots =
      (NodeOf.adopting (roots ++ others) : Node → Node) := by
    funext node
    simp [NodeOf.adopting]
  rw [ht'', ht', TreeOf.modify_append hmodified, List.modify_modify_eq, hboth, List.append_assoc]

mutual

/-- A component is laid out as a node at the end, which its owner takes over as a child, and as what
is inside it after that. -/
theorem fill_extends : ∀ {component : Component} {t t' : Tree} {owner id : Nat} {above : Node},
    t.Receives owner above → fill t owner component = .ok (id, t') →
    id = t.size ∧ Extends t t' owner [id] (component.preorder above.name)
  | .node part contents, t, t', owner, id, above, ht, h => by
    obtain ⟨hpart, hnew, rfl, hcontents⟩ := ht.fill_ok_iff.1 h
    obtain ⟨_, hinside⟩ := part.nodeAt_inStep ht.inStep ht.last ht.above hnew
    obtain ⟨roots, hinner⟩ := fillAll_extends (ht.contents hnew) hcontents
    obtain ⟨added, hadded, hstand⟩ := hinner.nodes
    refine ⟨rfl, hinner.inStep, ?_, (part.nodeAt t.size owner above.name).adopting roots :: added,
      ?_, .cons ((hpart.standsFor t.size owner above.name).adopting roots) hstand⟩
    · -- The last node is inside the new one, which is inside its owner.
      exact (hinner.inside_of_inside hinside).trans hinner.inside
    · rw [hadded, TreeOf.modify_withChild, List.append_assoc]
      rfl

theorem fillAll_extends : ∀ {components : List Component} {t t' : Tree} {owner : Nat}
    {above : Node}, t.Receives owner above → fillAll t owner components = .ok t' →
    ∃ roots, Extends t t' owner roots (Component.preorderAll above.name components)
  | [], t, t', owner, above, ht, h => by
    cases h
    refine ⟨[], ht.inStep, ht.last, [], ?_, .nil⟩
    have hnothing : (NodeOf.adopting [] : Node → Node) = id := by
      funext node
      simp [NodeOf.adopting]
    rw [hnothing, List.modify_id, List.append_nil]
  | component :: rest, t, t', owner, above, ht, h => by
    obtain ⟨id, extended, hfill, hrest⟩ := fillAll_cons_ok_iff.1 h
    obtain ⟨_, hfirst⟩ := fill_extends ht hfill
    obtain ⟨roots, hmore⟩ := fillAll_extends (hfirst.receives ht) hrest
    exact ⟨[id] ++ roots, hfirst.trans (TreeOf.lt_size_of_get? ht.above) hmore⟩

end

/-! ## When filling succeeds -/

theorem Extends.names {roots : List Nat} {declared : List (String × Part)} (ht : t.InStep)
    (h : Extends t t' owner roots declared) : t'.names = t.names ++ namesOf declared := by
  obtain ⟨added, ht', hadded⟩ := h.nodes
  rw [h.inStep.names_eq, ht.names_eq, ht', List.map_append, map_name_of_standsFor hadded,
    TreeOf.map_modify (f := NodeOf.adopting roots) fun _ => rfl]

mutual

/-- Filling goes on as long as the names are new and everything can be laid out. -/
theorem fill_succeeds : ∀ {component : Component} {t : Tree} {owner : Nat} {above : Node},
    t.Receives owner above → (∀ entry ∈ component.preorder above.name, entry.2.Placeable) →
    (t.names ++ namesOf (component.preorder above.name)).Nodup →
    ∃ t', fill t owner component = .ok (t.size, t')
  | .node part contents, t, owner, above, ht, hparts, hnames => by
    simp only [Component.preorder, List.mem_cons, forall_eq_or_imp, namesOf, List.map_cons]
      at hparts hnames
    have hnew : part.nameIn above.name ∉ t.names := by
      intro hm
      exact (List.nodup_append.1 hnames).2.2 _ hm _ List.mem_cons_self rfl
    rw [← List.singleton_append, ← List.append_assoc] at hnames
    obtain ⟨t', hcontents⟩ := fillAll_succeeds (ht.contents hnew) hparts.2
      (by rwa [TreeOf.names_withChild])
    exact ⟨t', ht.fill_ok_iff.2 ⟨hparts.1, hnew, rfl, hcontents⟩⟩

theorem fillAll_succeeds : ∀ {components : List Component} {t : Tree} {owner : Nat} {above : Node},
    t.Receives owner above →
    (∀ entry ∈ Component.preorderAll above.name components, entry.2.Placeable) →
    (t.names ++ namesOf (Component.preorderAll above.name components)).Nodup →
    ∃ t', fillAll t owner components = .ok t'
  | [], t, _, _, _, _, _ => ⟨t, rfl⟩
  | component :: rest, t, owner, above, ht, hparts, hnames => by
    simp only [Component.preorderAll, List.mem_append, namesOf, List.map_append] at hparts hnames
    rw [← List.append_assoc] at hnames
    obtain ⟨extended, hfill⟩ := fill_succeeds ht (fun entry he => hparts entry (.inl he))
      (List.nodup_append.1 hnames).1
    obtain ⟨_, hfirst⟩ := fill_extends ht hfill
    obtain ⟨t', hrest⟩ := fillAll_succeeds (hfirst.receives ht)
      (fun entry he => hparts entry (.inr he)) (by rwa [hfirst.names ht.inStep])
    exact ⟨t', fillAll_cons_ok_iff.2 ⟨t.size, extended, hfill, hrest⟩⟩

end

/-! ## Whole containers -/

/-- The node of a container in its own tree. -/
def containerNode (name : String) (role : Role) (children : List Nat) : Node :=
  ⟨0, name, role.kind, role.owner, role.ownerName, children, none, false⟩

/-- The first node of a tree can be given everything. -/
theorem receives_ofRole (name : String) (role : Role) :
    Receives (.ofRoot name role.kind role.owner role.ownerName) 0 (containerNode name role []) := by
  refine ⟨TreeOf.inStep_ofRoot name role.kind role.ownerName fun p => ?_, .self, rfl⟩
  rcases role with _ | _ | above <;> nofun

/-- What is filled into the first node of a container. -/
theorem fillAll_root {name : String} {role : Role} {components : List Component}
    (h : fillAll (.ofRoot name role.kind role.owner role.ownerName) 0 components = .ok t) :
    ∃ roots, Extends (.ofRoot name role.kind role.owner role.ownerName) t 0 roots
      (Component.preorderAll name components) :=
  fillAll_extends (receives_ofRole name role) h

/-- The nodes of a tree that was filled: that of the container, and one for each part. -/
theorem Extends.nodes_root {name : String} {role : Role} {roots : List Nat}
    {declared : List (String × Part)}
    (h : Extends (.ofRoot name role.kind role.owner role.ownerName) t 0 roots declared) :
    ∃ added, t.nodes = containerNode name role roots :: added ∧
      List.Forall₂ StandsFor declared added := h.nodes

theorem fillAll_append_ok {after : List Component} :
    ∀ {before : List Component} {t t' t'' : Tree} {owner : Nat},
    fillAll t owner before = .ok t' → fillAll t' owner after = .ok t'' →
    fillAll t owner (before ++ after) = .ok t''
  | [], _, _, _, _, h, h' => by
    cases h
    exact h'
  | component :: rest, _, _, _, _, h, h' => by
    obtain ⟨id, extended, hfill, h⟩ := fillAll_cons_ok_iff.1 h
    exact fillAll_cons_ok_iff.2 ⟨id, extended, hfill, fillAll_append_ok h h'⟩

theorem fillContents_ok {root : Nat} : ∀ {contents : List Component} {t t' : Tree},
    fillContents t root contents = .ok t' → fillAll t root contents = .ok t'
  | [], _, _, h => h
  | component :: rest, t, t', h => by
    unfold fillContents at h
    split at h
    · cases h
    · cases h
    · obtain ⟨⟨id, extended⟩, hfill, h⟩ := except_bind_ok h
      exact fillAll_cons_ok_iff.2 ⟨id, extended, hfill, fillContents_ok h⟩

/-- The components of a container: its main model, the checks of its items, its contents, its data
providers and its rules. -/
def components (p : Profile) (model : ModelTree) (contents : List Component)
    (providers : List DataVar) (validations : List Validation) : List Component :=
  [.ofModel model] ++
    ((p.cardinality.toList.map fun check => Component.leaf (.cardinality check)) ++
      p.uniques.map fun check => Component.leaf (.unique check)) ++
    contents ++ providers.map (fun d => Component.leaf (.dataVar d)) ++
    validations.map Component.ofValidation

/-- Everything in a container is its main model, one of its checks, in its contents, or a leaf. -/
theorem parts_of_components (owner : String) (p : Profile) (model : ModelTree)
    (contents : List Component) (providers : List DataVar) (validations : List Validation) :
    Component.preorderAll owner (components p model contents providers validations) =
      (Component.ofModel model).preorder owner ++ (p.checks.map fun own => (owner, own)) ++
        Component.preorderAll owner contents ++
        (providers.map fun d => (owner, Part.dataVar d)) ++
        validations.map fun rule => (owner, Part.validation rule) := by
  have hrules : Component.preorderAll owner (validations.map Component.ofValidation) =
      validations.map fun rule => (owner, Part.validation rule) :=
    Component.preorderAll_leaves owner .validation validations
  simp only [components, Component.preorderAll_append, Component.preorderAll_leaves, hrules,
    Component.preorderAll, List.append_nil, Profile.checks, List.map_append, List.map_map]
  rfl

/-- What is sought in a container and is neither a data provider nor a rule belongs to its main
model, is one of its checks, or is in its contents. -/
theorem filter_components (q : Part → Bool) (hprovider : ∀ d, q (.dataVar d) = false)
    (hrule : ∀ rule, q (.validation rule) = false) (owner : String) (p : Profile)
    (model : ModelTree) (contents : List Component) (providers : List DataVar)
    (validations : List Validation) :
    (Component.preorderAll owner (components p model contents providers validations)).filter
      (fun entry => q entry.2) =
      ((Component.ofModel model).preorder owner).filter (fun entry => q entry.2) ++
        ((p.checks.filter q).map fun own => (owner, own)) ++
        (Component.preorderAll owner contents).filter fun entry => q entry.2 := by
  have hproviders : (providers.map fun d => (owner, Part.dataVar d)).filter
      (fun entry => q entry.2) = [] := by
    simp [List.filter_eq_nil_iff, hprovider]
  have hrules : (validations.map fun rule => (owner, Part.validation rule)).filter
      (fun entry => q entry.2) = [] := by
    simp [List.filter_eq_nil_iff, hrule]
  have hchecks : (p.checks.map fun own => (owner, own)).filter (fun entry => q entry.2) =
      (p.checks.filter q).map fun own => (owner, own) := List.filter_map
  rw [parts_of_components]
  simp only [List.filter_append, hproviders, hrules, hchecks, List.append_nil]

/-- The tree of a container is filled with its components, one after the other. -/
theorem ofDeclaration_ok {p : Profile} {model : ModelTree} {contents : List Component}
    {providers : List DataVar} {validations : List Validation}
    (h : ofDeclaration p model contents providers validations = .ok t) :
    p.role.owner ≠ .unset ∧
      fillAll (.ofRoot p.name p.role.kind p.role.owner p.role.ownerName) 0
        (components p model contents providers validations) = .ok t := by
  unfold ofDeclaration at h
  dsimp only at h
  obtain ⟨⟨root, t₀⟩, hroot, h⟩ := except_bind_ok h
  obtain ⟨⟨id, t₁⟩, hmodel, h⟩ := except_bind_ok h
  obtain ⟨t₂, hchecks, h⟩ := except_bind_ok h
  obtain ⟨t₃, hcontents, h⟩ := except_bind_ok h
  obtain ⟨t₄, hproviders, hvalidations⟩ := except_bind_ok h
  obtain ⟨howner, heq⟩ := TreeOf.insertRoot_ok_iff.1 hroot
  cases heq
  have hfirst : fillAll (.ofRoot p.name p.role.kind p.role.owner p.role.ownerName) 0
      [Component.ofModel model] = .ok t₁ := fillAll_cons_ok_iff.2 ⟨id, t₁, hmodel, rfl⟩
  exact ⟨howner, fillAll_append_ok (fillAll_append_ok (fillAll_append_ok
    (fillAll_append_ok hfirst hchecks) (fillContents_ok hcontents)) hproviders) hvalidations⟩

/-- The tree of a container is in step, and has a node for the container itself and one for each
declared part. -/
theorem ofDeclaration_extends {p : Profile} {model : ModelTree} {contents : List Component}
    {providers : List DataVar} {validations : List Validation}
    (h : ofDeclaration p model contents providers validations = .ok t) :
    ∃ roots, Extends (.ofRoot p.name p.role.kind p.role.owner p.role.ownerName) t 0 roots
      (Component.preorderAll p.name (components p model contents providers validations)) :=
  fillAll_root (ofDeclaration_ok h).2

/-- A node in the tree of a container is that of the container itself, or stands for a declared
part. -/
theorem mem_ofDeclaration {p : Profile} {model : ModelTree} {contents : List Component}
    {providers : List DataVar} {validations : List Validation} {node : Node}
    (h : ofDeclaration p model contents providers validations = .ok t) (hnode : node ∈ t.nodes) :
    (∃ roots, node = containerNode p.name p.role roots) ∨
      ∃ entry ∈ Component.preorderAll p.name (components p model contents providers validations),
        StandsFor entry node := by
  obtain ⟨roots, hextends⟩ := ofDeclaration_extends h
  obtain ⟨added, hadded, hstands⟩ := hextends.nodes_root
  rw [hadded] at hnode
  rcases List.mem_cons.1 hnode with hroot | hnode
  · exact .inl ⟨roots, hroot⟩
  · exact .inr (exists_standsFor_of_mem hstands node hnode)

/-- A part in the tree of a container was declared there. -/
theorem declared_of_mem {p : Profile} {model : ModelTree} {contents : List Component}
    {providers : List DataVar} {validations : List Validation} {node : Node} {part : Part}
    (h : ofDeclaration p model contents providers validations = .ok t) (hnode : node ∈ t.nodes)
    (hpart : node.part = some part) :
    ∃ entry ∈ Component.preorderAll p.name (components p model contents providers validations),
      entry.2.Placeable ∧ entry.2.ownedBy entry.1 = part := by
  rcases mem_ofDeclaration h hnode with ⟨roots, rfl⟩ | ⟨entry, he, hentry⟩
  · cases hpart
  · exact ⟨entry, he, hentry.placeable, Option.some.inj (hentry.part.symm.trans hpart)⟩

/-- Nothing is set up while a container is laid out. -/
theorem unfinished_of_mem {p : Profile} {model : ModelTree} {contents : List Component}
    {providers : List DataVar} {validations : List Validation} {node : Node}
    (h : ofDeclaration p model contents providers validations = .ok t) (hnode : node ∈ t.nodes) :
    node.finished = false := by
  rcases mem_ofDeclaration h hnode with ⟨roots, rfl⟩ | ⟨entry, _, hentry⟩
  · rfl
  · exact hentry.unfinished

end Tree

/-! ## The law -/

theorem Component.preorder_ofGroup (owner : String) (group : Group) (contents : List Component)
    (rules : List Validation) : (Component.ofGroup group contents rules).preorder owner =
      (owner, .group group) :: (Component.preorderAll group.name contents ++
        rules.map fun rule => (group.name, .validation rule)) := by
  rw [Component.ofGroup, Component.preorder, Component.preorderAll_append]
  exact congrArg (_ :: _ ++ ·) (Component.preorderAll_leaves group.name .validation rules)

theorem Component.preorder_ofField (owner : String) (field : Field) (rules : List Validation)
    (enables : List Component) : (Component.ofField field rules enables).preorder owner =
      (owner, .field field) :: ((rules.map fun rule => (field.name, .validation rule)) ++
        Component.preorderAll field.name enables) := by
  rw [Component.ofField, Component.preorder, Component.preorderAll_append]
  exact congrArg (_ :: · ++ _) (Component.preorderAll_leaves field.name .validation rules)

theorem Component.ofModels_eq_map (models : List ModelTree) :
    Component.ofModels models = models.map Component.ofModel := by
  induction models with
  | nil => rfl
  | cons model rest ih => rw [Component.ofModels, ih, List.map_cons]

/-- A container is laid out as a tree that has a node for each of its components, once and in the
order of the declarations, after the node of the container itself. What stands inside a component
follows it: the contents of a group before its rules, the rules of a field before the components that
it shows, the nested models of a model. The positions, the owners, the children and the index of the
nodes agree with each other. Filling in one component more succeeds exactly if everything in it can
be laid out and it brings no name twice and none that is there. -/
theorem components_are_laid_out_in_preorder {name : String} {role : Role}
    {components : List Component} {root : Nat} {start t : Tree}
    (hroot : TreeOf.empty.insertRoot name role.kind role.owner role.ownerName = .ok (root, start))
    (h : Tree.fillAll start root components = .ok t) :
    (∃ children added, t.nodes = Tree.containerNode name role children :: added ∧
      List.Forall₂ StandsFor (Component.preorderAll name components) added) ∧
    (∀ owner group contents rules, (Component.ofGroup group contents rules).preorder owner =
      (owner, .group group) :: (Component.preorderAll group.name contents ++
        rules.map fun rule => (group.name, .validation rule))) ∧
    (∀ owner field rules enables, (Component.ofField field rules enables).preorder owner =
      (owner, .field field) :: ((rules.map fun rule => (field.name, .validation rule)) ++
        Component.preorderAll field.name enables)) ∧
    (∀ owner model nested, (Component.ofModel (.node model nested)).preorder owner =
      (owner, .model model) ::
        Component.preorderAll model.name (nested.map Component.ofModel)) ∧
    t.Hierarchy ∧
    ∀ component, (∃ id t', t.fill root component = .ok (id, t')) ↔
      (∀ entry ∈ component.preorder name, entry.2.Placeable) ∧
        (t.names ++ namesOf (component.preorder name)).Nodup := by
  obtain ⟨_, hstart⟩ := TreeOf.insertRoot_ok_iff.1 hroot
  cases hstart
  obtain ⟨roots, hextends⟩ := Tree.fillAll_root h
  have ht := hextends.receives (Tree.receives_ofRole name role)
  obtain ⟨added, hadded, hstands⟩ := hextends.nodes_root
  refine ⟨⟨roots, added, hadded, hstands⟩, Component.preorder_ofGroup,
    Component.preorder_ofField, ?_, hextends.inStep.hierarchy, fun component => ⟨?_, ?_⟩⟩
  · intro owner model nested
    rw [Component.ofModel, Component.preorder, Component.ofModels_eq_map]
    rfl
  · rintro ⟨id, t', hfill⟩
    obtain ⟨_, hmore⟩ := Tree.fill_extends ht hfill
    obtain ⟨_, _, hmoreStands⟩ := hmore.nodes
    refine ⟨placeable_of_standsFor hmoreStands, ?_⟩
    have hnames := hmore.names hextends.inStep
    exact hnames ▸ hmore.inStep.names
  · rintro ⟨hparts, hnames⟩
    obtain ⟨t', hfill⟩ := Tree.fill_succeeds ht hparts hnames
    exact ⟨t.size, t', hfill⟩

/-- An office with a model inside a model, and with a group that holds a named value and a rule. -/
def Component.sample : List Component :=
  let number : ModelSource := .type (.plain (.scalar .int))
  [.ofModel (.node ⟨"company", number⟩ [.node ⟨"branch", number⟩ []]),
    .ofGroup ⟨"people", none⟩ [.leaf (.dataVar ⟨"limit", .literal (.integer 3)⟩)]
      [⟨"few", .path .fields ⟨"limit", none⟩ [] .pending, "too many", none⟩]]

theorem components_are_laid_out_in_preorder_in_an_office : ∃ start t : Tree,
    TreeOf.empty.insertRoot "office" Role.ruleSet.kind Role.ruleSet.owner Role.ruleSet.ownerName =
      .ok (0, start) ∧
    Tree.fillAll start 0 Component.sample = .ok t ∧
      t.names = ["office", "company", "branch", "people", "limit", "few"] ∧
      t.children 0 = [1, 3] ∧ t.children 3 = [4, 5] ∧ t.ownerChain 5 = [3, 0] ∧
      (∃ children added, t.nodes = Tree.containerNode "office" .ruleSet children :: added ∧
        List.Forall₂ StandsFor (Component.preorderAll "office" Component.sample) added) ∧
      t.Hierarchy := by
  have hroot : TreeOf.empty.insertRoot "office" Role.ruleSet.kind Role.ruleSet.owner
      Role.ruleSet.ownerName = .ok (0, (.ofRoot "office" .ruleSet .top none : Tree)) := rfl
  have h : Tree.fillAll (.ofRoot "office" .ruleSet .top none) 0 Component.sample = .ok _ := rfl
  obtain ⟨hnodes, _, _, _, hhierarchy, _⟩ := components_are_laid_out_in_preorder hroot h
  refine ⟨_, _, hroot, h, rfl, rfl, rfl, ?_, hnodes, hhierarchy⟩
  refine TreeOf.Climbs.ownerChain_eq (.up rfl rfl (.up rfl rfl (.top ?_)))
  rintro _ ⟨⟩ p ⟨⟩

end Formwork
