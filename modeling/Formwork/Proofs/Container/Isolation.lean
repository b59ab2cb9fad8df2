-- Extensions are isolated. What is declared inside an extension does not show in the containers
-- around it: two rule sets that differ inside one extension only end, where both setups succeed, in
-- the same heaps, models, and nodes outside of that extension. Two runs of setup are compared step
-- by step, while they meet parts that are the same, or that stand for related extensions.
import Formwork.Proofs.Container.Links

namespace Formwork

open Drafting

variable {R R' : Container → Container → Prop}

/-! ## Related components -/

/-- The parts are the same, or stand for related extensions. -/
inductive Part.Related (R : Container → Container → Prop) : Part → Part → Prop where
  | same {part : Part} : part.kind ≠ .extension → Related R part part
  | extension {c c' : Container} : R c c' → Related R (.extension c) (.extension c')

mutual

/-- The components are the same but for related extensions in them. -/
inductive Component.Related (R : Container → Container → Prop) : Component → Component → Prop where
  | node {part part' : Part} {contents contents' : List Component} : part.Related R part' →
    Component.AllRelated R contents contents' →
    Related R (.node part contents) (.node part' contents')

/-- The components are the same, one by one, but for related extensions in them. -/
inductive Component.AllRelated (R : Container → Container → Prop) :
    List Component → List Component → Prop where
  | nil : AllRelated R [] []
  | cons {component component' : Component} {rest rest' : List Component} :
    component.Related R component' → AllRelated R rest rest' →
    AllRelated R (component :: rest) (component' :: rest')

end

/-- The nodes are the same, but they may stand for related extensions. -/
structure Node.Related (R : Container → Container → Prop) (node node' : Node) : Prop where
  place : node.place = node'.place
  finished : node.finished = node'.finished
  part : Option.Rel (Part.Related R) node.part node'.part

/-- Nodes are the same but for related extensions, one by one. -/
abbrev Node.AllRelated (R : Container → Container → Prop) : List Node → List Node → Prop :=
  List.Forall₂ (Node.Related R)

/-- The trees have the same index, and the same nodes but for related extensions. -/
structure Tree.Related (R : Container → Container → Prop) (t t' : Tree) : Prop where
  byName : t.byName = t'.byName
  nodes : Node.AllRelated R t.nodes t'.nodes

theorem Part.Related.refl (hrefl : ∀ c, R c c) (part : Part) : part.Related R part := by
  cases part with
  | extension c => exact .extension (hrefl c)
  | _ => exact .same (by intro h; cases h)

theorem Part.Related.kind {part part' : Part} (h : part.Related R part') :
    part.kind = part'.kind := by
  cases h with
  | same => rfl
  | extension => rfl

theorem Part.Related.eq {part part' : Part} (h : part.Related Eq part') : part = part' := by
  cases h with
  | same => rfl
  | extension h => rw [h]

mutual

theorem Component.Related.refl (hrefl : ∀ c, R c c) :
    ∀ component : Component, component.Related R component
  | .node part contents => .node (.refl hrefl part) (Component.AllRelated.refl hrefl contents)

theorem Component.AllRelated.refl (hrefl : ∀ c, R c c) :
    ∀ components : List Component, AllRelated R components components
  | [] => .nil
  | component :: rest =>
    .cons (Component.Related.refl hrefl component) (Component.AllRelated.refl hrefl rest)

end

theorem Component.AllRelated.append {before before' after after' : List Component}
    (h : AllRelated R before before') (hafter : AllRelated R after after') :
    AllRelated R (before ++ after) (before' ++ after') := by
  induction before generalizing before' with
  | nil =>
    cases h
    exact hafter
  | cons component rest ih =>
    cases h with
    | cons hfirst hrest => exact .cons hfirst (ih hrest)

theorem Node.Related.eq {node node' : Node} (h : node.Related Eq node') : node = node' := by
  obtain ⟨id, name, kind, owner, ownerName, children, part, finished⟩ := node
  obtain ⟨id', name', kind', owner', ownerName', children', part', finished'⟩ := node'
  obtain ⟨hplace, rfl, hpart⟩ := h
  cases hplace
  cases hpart with
  | none => rfl
  | some h => rw [h.eq]

theorem Node.AllRelated.eq {nodes nodes' : List Node} (h : Node.AllRelated Eq nodes nodes') :
    nodes = nodes' := by
  induction h with
  | nil => rfl
  | cons hfirst _ ih => rw [hfirst.eq, ih]

/-! ## Layout -/

/-- Related containers have one name, and an owner takes them over alike. -/
structure Ownable (R : Container → Container → Prop) : Prop where
  refl : ∀ c, R c c
  name : ∀ {c c' : Container}, R c c' → c.name = c'.name
  ownedBy : ∀ {c c' k k' : Container} {owner : String}, R c c' →
    (Part.extension c).ownedBy owner = .extension k →
    (Part.extension c').ownedBy owner = .extension k' → R k k'

theorem ownable_eq : Ownable Eq where
  refl _ := rfl
  name h := congrArg Container.name h
  ownedBy h hk hk' := by
    subst h
    rw [hk] at hk'
    cases hk'
    rfl

theorem Part.Related.nameIn (hR : Ownable R) {part part' : Part} (h : part.Related R part')
    (owner : String) : part.nameIn owner = part'.nameIn owner := by
  cases h with
  | same => rfl
  | extension h =>
    unfold Part.nameIn Part.declaredName?
    exact hR.name h

theorem Part.Related.ownedBy (hR : Ownable R) (owner : String) {part part' : Part}
    (h : part.Related R part') : (part.ownedBy owner).Related R (part'.ownedBy owner) := by
  cases h with
  | same hother =>
    apply Part.Related.same
    rw [Part.kind_ownedBy]
    exact hother
  | @extension c c' h =>
    obtain ⟨p, phase⟩ := c
    obtain ⟨p', phase'⟩ := c'
    exact .extension (hR.ownedBy h rfl rfl)

theorem Node.AllRelated.modify {nodes nodes' : List Node} (h : Node.AllRelated R nodes nodes')
    (i : Nat) (children : List Nat) :
    Node.AllRelated R (nodes.modify i (.adopting children))
      (nodes'.modify i (.adopting children)) := by
  induction h generalizing i with
  | nil => simp
  | cons hfirst hrest ih =>
    cases i with
    | zero =>
      simp only [List.modify_zero_cons]
      have hplace := congrArg (NodeOf.adopting children) hfirst.place
      exact .cons ⟨hplace, hfirst.finished, hfirst.part⟩ hrest
    | succ i =>
      simp only [List.modify_succ_cons]
      exact .cons hfirst (ih i)

namespace Tree

/-- Related trees have related nodes at a position. -/
theorem Related.node {t t' : Tree} (h : t.Related R t') {id : Nat} {node node' : Node}
    (hn : t.node id = .ok node) (hn' : t'.node id = .ok node') : node.Related R node' := by
  obtain ⟨hlt, rfl⟩ := List.getElem?_eq_some_iff.1 (TreeOf.node_ok_iff.1 hn)
  obtain ⟨hlt', rfl⟩ := List.getElem?_eq_some_iff.1 (TreeOf.node_ok_iff.1 hn')
  exact h.nodes.get hlt hlt'

mutual

theorem fill_related (hR : Ownable R) {owner : Nat} {t t' : Tree} {added added' : Nat × Tree} :
    ∀ {component component' : Component}, t.Related R t' → component.Related R component' →
    fill t owner component = .ok added → fill t' owner component' = .ok added' →
    added.2.Related R added'.2
  | .node part contents, .node part' contents', ht, .node hpart hcontents, h, h' => by
    unfold fill at h h'
    obtain ⟨above, habove, h⟩ := except_bind_ok h
    obtain ⟨above', habove', h'⟩ := except_bind_ok h'
    have hname : above.name = above'.name := (NodeOf.place_eq (ht.node habove habove').place).2.1
    obtain ⟨name, hresolved, h⟩ := except_bind_ok h
    obtain ⟨name', hresolved', h'⟩ := except_bind_ok h'
    obtain ⟨_, rfl⟩ := Part.resolveName_ok_iff.1 hresolved
    obtain ⟨_, rfl⟩ := Part.resolveName_ok_iff.1 hresolved'
    obtain ⟨_, _, h⟩ := except_bind_ok h
    obtain ⟨_, _, h'⟩ := except_bind_ok h'
    obtain ⟨⟨id, u⟩, hinsert, h⟩ := except_bind_ok h
    obtain ⟨⟨id', u'⟩, hinsert', h'⟩ := except_bind_ok h'
    obtain ⟨_, _, heq⟩ := TreeOf.insert_ok_iff.1 hinsert
    obtain ⟨_, _, heq'⟩ := TreeOf.insert_ok_iff.1 hinsert'
    cases heq
    cases heq'
    obtain ⟨v, hadopt, h⟩ := except_bind_ok h
    obtain ⟨v', hadopt', h'⟩ := except_bind_ok h'
    obtain ⟨_, rfl⟩ := TreeOf.adopt_ok_iff.1 hadopt
    obtain ⟨_, rfl⟩ := TreeOf.adopt_ok_iff.1 hadopt'
    obtain ⟨w, hfill, h⟩ := except_bind_ok h
    obtain ⟨w', hfill', h'⟩ := except_bind_ok h'
    cases h
    cases h'
    have hsize : t'.size = t.size := ht.nodes.length_eq.symm
    rw [← hname, ← hpart.nameIn hR above.name, ← hpart.kind, hsize] at hfill'
    refine fillAll_related hR ⟨congrArg (Ordered.put _ _) ht.byName, Node.AllRelated.modify ?_ _ _⟩
      hcontents hfill hfill'
    exact List.rel_append ht.nodes (.cons ⟨rfl, rfl, .some (hpart.ownedBy hR above.name)⟩ .nil)

theorem fillAll_related (hR : Ownable R) {owner : Nat} {t t' u u' : Tree} :
    ∀ {components components' : List Component}, t.Related R t' →
    Component.AllRelated R components components' → fillAll t owner components = .ok u →
    fillAll t' owner components' = .ok u' → u.Related R u'
  | [], [], ht, .nil, h, h' => by
    cases h
    cases h'
    exact ht
  | component :: rest, component' :: rest', ht, .cons hfirst hrest, h, h' => by
    obtain ⟨_, extended, hfill, h⟩ := fillAll_cons_ok_iff.1 h
    obtain ⟨_, extended', hfill', h'⟩ := fillAll_cons_ok_iff.1 h'
    exact fillAll_related hR (fill_related hR ht hfirst hfill hfill') hrest h h'

end

/-- Containers that are declared alike, but for related extensions, are laid out alike. -/
theorem ofDeclaration_related (hR : Ownable R) {p : Profile} {model : ModelTree}
    {contents contents' : List Component} {providers : List DataVar}
    {validations : List Validation} {laid laid' : Tree}
    (hcontents : Component.AllRelated R contents contents')
    (h : ofDeclaration p model contents providers validations = .ok laid)
    (h' : ofDeclaration p model contents' providers validations = .ok laid') :
    laid.Related R laid' := by
  have hcomponents : Component.AllRelated R (components p model contents providers validations)
      (components p model contents' providers validations) := by
    unfold components
    exact (((Component.AllRelated.refl hR.refl _).append hcontents).append
      (.refl hR.refl _)).append (.refl hR.refl _)
  have hroot : Tree.Related R (.ofRoot p.name p.role.kind p.role.owner p.role.ownerName)
      (.ofRoot p.name p.role.kind p.role.owner p.role.ownerName) :=
    ⟨rfl, .cons ⟨rfl, rfl, .none⟩ .nil⟩
  exact fillAll_related hR hroot hcomponents (ofDeclaration_ok h).2 (ofDeclaration_ok h').2

end Tree

/-- The variables of nodes do not depend on what stands there. -/
theorem registerNodes_related {nodes nodes' : List Node} (h : Node.AllRelated R nodes nodes') :
    registerNodes nodes = registerNodes nodes' := by
  induction h with
  | nil => rfl
  | cons hfirst _ ih =>
    unfold registerNodes
    rw [← nodeVariable_place, hfirst.place, nodeVariable_place, ih]

/-! ## Runs side by side -/

variable {extend extend' : ExtensionSetup} {config : Config}

/-- Where both setups of related extensions succeed, they leave the same heap around them, and
extensions that are related in turn. -/
def ExtensionSetup.Parallel (R R' : Container → Container → Prop)
    (extend extend' : ExtensionSetup) : Prop :=
  ∀ ⦃config : Config⦄ ⦃c c' s s' : Container⦄ ⦃outer heap heap' : Heap⦄, R c c' →
    extend config c outer = ⟨.ok (), s, heap⟩ → extend' config c' outer = ⟨.ok (), s', heap'⟩ →
    heap = heap' ∧ R' s s'

theorem setupPart_parallel (hextend : ExtensionSetup.Parallel R R' extend extend') {name : String}
    {part part' s s' : Part} {draft final final' : Draft} (h : part.Related R part')
    (hr : (setupPart extend config name part).run draft = (.ok s, final))
    (hr' : (setupPart extend' config name part').run draft = (.ok s', final')) :
    final = final' ∧ s.Related R' s' := by
  cases h with
  | same hother =>
    have hkind := setupPart_kind hr
    rw [setupPart_of_kind hother rfl, hr'] at hr
    cases hr
    refine ⟨rfl, .same ?_⟩
    rw [hkind]
    exact hother
  | extension h =>
    obtain ⟨k, heap, hk, rfl, rfl⟩ := setupPart_extension_iff.1 hr
    obtain ⟨k', heap', hk', rfl, rfl⟩ := setupPart_extension_iff.1 hr'
    obtain ⟨rfl, hrelated⟩ := hextend h hk hk'
    exact ⟨rfl, .extension hrelated⟩

theorem setupNode_parallel (hextend : ExtensionSetup.Parallel R R' extend extend')
    {node node' s s' : Node} {draft final final' : Draft} (hun : node.finished = false)
    (h : node.Related R node')
    (hr : (setupNode extend config node).run draft = (.ok s, final))
    (hr' : (setupNode extend' config node').run draft = (.ok s', final')) :
    final = final' ∧ s.Related R' s' := by
  have hun' : node'.finished = false := h.finished ▸ hun
  have hpart := h.part
  rcases hsome : node.part with _ | part <;> rcases hsome' : node'.part with _ | part' <;>
    rw [hsome, hsome'] at hpart
  · rw [setupNode_none hun hsome] at hr
    rw [setupNode_none hun' hsome'] at hr'
    cases hr
    cases hr'
    refine ⟨rfl, h.place, rfl, ?_⟩
    rw [hsome, hsome']
    exact .none
  · cases hpart
  · cases hpart
  · obtain ⟨new, hnew, rfl⟩ := (setupNode_some_iff hun hsome).1 hr
    obtain ⟨new', hnew', rfl⟩ := (setupNode_some_iff hun' hsome').1 hr'
    rw [← (NodeOf.place_eq h.place).2.1] at hnew'
    cases hpart with
    | some hpart =>
      obtain ⟨hfinal, hrelated⟩ := setupPart_parallel hextend hpart hnew hnew'
      exact ⟨hfinal, h.place, rfl, .some hrelated⟩

theorem setupNodes_parallel (hextend : ExtensionSetup.Parallel R R' extend extend')
    {nodes nodes' ss ss' : List Node} {draft final final' : Draft}
    (hun : ∀ node ∈ nodes, node.finished = false) (h : Node.AllRelated R nodes nodes')
    (hr : (setupNodes extend config nodes).run draft = (.ok ss, final))
    (hr' : (setupNodes extend' config nodes').run draft = (.ok ss', final')) :
    final = final' ∧ Node.AllRelated R' ss ss' := by
  induction h generalizing draft ss ss' with
  | nil =>
    cases hr
    cases hr'
    exact ⟨rfl, .nil⟩
  | cons hfirst _ ih =>
    unfold setupNodes at hr hr'
    obtain ⟨s, draft₁, hs, hr⟩ := Step.run_bind_ok hr
    obtain ⟨rest, draft₂, hrest, hr⟩ := Step.run_bind_ok hr
    obtain ⟨s', draft₁', hs', hr'⟩ := Step.run_bind_ok hr'
    obtain ⟨rest', draft₂', hrest', hr'⟩ := Step.run_bind_ok hr'
    cases hr
    cases hr'
    obtain ⟨hunFirst, hunRest⟩ := List.forall_mem_cons.1 hun
    obtain ⟨rfl, hnode⟩ := setupNode_parallel hextend hunFirst hfirst hs hs'
    obtain ⟨hfinal, hnodes⟩ := ih hunRest hrest hrest'
    exact ⟨hfinal, .cons hnode hnodes⟩

/-- Two setups of containers that are declared alike, but for related extensions, make the same of
everything but these. -/
theorem assembly_parallel (hR : Ownable R) (hextend : ExtensionSetup.Parallel R R' extend extend')
    {p : Profile} {enter : Drafting (ModelTree × Descriptor)} {contents contents' : List Component}
    {providers : List DataVar} {validations : List Validation} {draft final final' : Draft}
    {tree tree' : Tree} (hcontents : Component.AllRelated R contents contents')
    (a : Assembly extend p enter contents providers validations draft tree final)
    (a' : Assembly extend' p enter contents' providers validations draft tree' final') :
    final = final' ∧ Tree.Related R' tree tree' := by
  obtain ⟨hresult, hentered⟩ := Prod.mk.inj (a.enters.symm.trans a'.enters)
  obtain ⟨hmodel, _⟩ := Prod.mk.inj (Except.ok.inj hresult)
  have hprovides := a.provides
  rw [hentered, a'.provides] at hprovides
  have hprovided : a'.provided = a.provided := congrArg Prod.snd hprovides
  have hlays := a.lays
  rw [hmodel] at hlays
  have hlaid := Tree.ofDeclaration_related hR hcontents hlays a'.lays
  have hregisters := a.registers
  rw [registerNodes_related hlaid.nodes, ← hprovided, a'.registers] at hregisters
  have hregistered : a'.registered = a.registered := congrArg Prod.snd hregisters
  have hequips := a'.equips
  rw [hregistered] at hequips
  obtain ⟨hequipped, hnodes⟩ := setupNodes_parallel hextend
    (fun _ hnode => Tree.unfinished_of_mem a.lays hnode) hlaid.nodes a.equips hequips
  refine ⟨?_, ?_, hnodes⟩
  · rw [a.frozen_eq, a'.frozen_eq, hequipped]
  · rw [a.index, a'.index, hlaid.byName]

/-- The containers are finished and the same, but for related extensions inside them. -/
def Container.FinishedAlike (R : Container → Container → Prop) (c c' : Container) : Prop :=
  ∃ p heap, ∃ tree tree' : Tree, c = .mk p (.finished heap tree) ∧ c' = .mk p (.finished heap tree') ∧
    Tree.Related R tree tree'

theorem Container.FinishedAlike.eq {c c' : Container} (h : c.FinishedAlike Eq c') : c = c' := by
  obtain ⟨p, heap, ⟨nodes, byName⟩, ⟨nodes', byName'⟩, rfl, rfl, hindex, hnodes⟩ := h
  obtain rfl : byName = byName' := hindex
  obtain rfl : nodes = nodes' := hnodes.eq
  rfl

theorem conclude_parallel (hR : Ownable R) (hextend : ExtensionSetup.Parallel R R' extend extend')
    {p : Profile} {enter : Drafting (ModelTree × Descriptor)} {contents contents' : List Component}
    {providers : List DataVar} {validations : List Validation} {draft : Draft} {s s' : Container}
    (hcontents : Component.AllRelated R contents contents')
    (h : Container.conclude p ((assemble extend p enter contents providers validations).run draft) =
      (.ok (), s))
    (h' : Container.conclude p
      ((assemble extend' p enter contents' providers validations).run draft) = (.ok (), s')) :
    s.FinishedAlike R' s' := by
  obtain ⟨tree, final, hr, rfl⟩ := conclude_ok h
  obtain ⟨tree', final', hr', rfl⟩ := conclude_ok h'
  obtain ⟨a⟩ := assembly_of_run hr
  obtain ⟨a'⟩ := assembly_of_run hr'
  obtain ⟨rfl, htree⟩ := assembly_parallel hR hextend hcontents a a'
  exact ⟨_, _, tree, tree', rfl, rfl, htree⟩

/-! ## Inside one extension -/

namespace Container

/-- The extensions are declared under one name, with one main model that one expression leads to.
They may differ in the models nested in it, in the checks of their items, and in all that is
declared inside them. -/
inductive SameOutside : Container → Container → Prop where
  | intro {p : Profile} {m : BoundModel} (cardinality : Option CardinalityCheck)
    (uniques : List UniqueCheck) {nested nested' : List ModelTree}
    {contents contents' : List Component} {providers providers' : List DataVar}
    {validations validations' : List Validation} :
    SameOutside (.mk p (.declared (.node m nested) contents providers validations))
      (.mk { p with cardinality, uniques }
        (.declared (.node m nested') contents' providers' validations'))

/-- The containers are the same, or both have the name and are related. -/
def SameBut (name : String) (R : Container → Container → Prop) (c c' : Container) : Prop :=
  c = c' ∨ c.name = name ∧ c'.name = name ∧ R c c'

/-- The containers are declared identically, except for what the extension at the end of the path
declares inside itself. The path goes through the extensions by their names. -/
def DeclaredAlike : List String → Container → Container → Prop
  | [], c, c' => SameOutside c c'
  | name :: path, c, c' => ∃ p model contents contents' providers validations,
    c = .mk p (.declared model contents providers validations) ∧
    c' = .mk p (.declared model contents' providers validations) ∧
    Component.AllRelated (SameBut name (DeclaredAlike path)) contents contents'

/-- The containers are finished and have the same heap, models, and unresolved expressions, and the
same nodes but for the next extension of the path. That one agrees around the rest of the path;
nothing is said of the extension at its end. -/
def AgreeAround : List String → Container → Container → Prop
  | [], _, _ => True
  | name :: path, c, c' => FinishedAlike (SameBut name (AgreeAround path)) c c'

theorem SameBut.refl {name : String} (c : Container) : SameBut name R c c := .inl rfl

theorem SameBut.name_eq {name : String} {c c' : Container} (h : SameBut name R c c') :
    c.name = c'.name := by
  rcases h with rfl | ⟨hname, hname', _⟩
  · rfl
  · rw [hname, hname']

theorem DeclaredAlike.ownedBy {path : List String} {c c' k k' : Container} {owner : String}
    (h : DeclaredAlike path c c') (hk : (Part.extension c).ownedBy owner = .extension k)
    (hk' : (Part.extension c').ownedBy owner = .extension k') : DeclaredAlike path k k' := by
  cases path with
  | nil =>
    cases h with
    | intro cardinality uniques =>
      cases hk
      cases hk'
      exact .intro cardinality uniques
  | cons name path =>
    obtain ⟨p, model, contents, contents', providers, validations, rfl, rfl, hcontents⟩ := h
    cases hk
    cases hk'
    exact ⟨_, model, contents, contents', providers, validations, rfl, rfl, hcontents⟩

theorem name_of_ownedBy {c k : Container} {owner : String}
    (h : (Part.extension c).ownedBy owner = .extension k) : k.name = c.name := by
  obtain ⟨p, phase⟩ := c
  cases h
  rfl

theorem ownable_declaredAlike (name : String) (path : List String) :
    Ownable (SameBut name (DeclaredAlike path)) where
  refl := SameBut.refl
  name := SameBut.name_eq
  ownedBy h hk hk' := by
    rcases h with rfl | ⟨hname, hname', halike⟩
    · exact .inl (ownable_eq.ownedBy rfl hk hk')
    · refine .inr ⟨?_, ?_, halike.ownedBy hk hk'⟩
      · rw [name_of_ownedBy hk, hname]
      · rw [name_of_ownedBy hk', hname']

/-! ## Runs of extensions -/

/-- An extension whose setup succeeded was declared before; its link changed the heap around it, and
the rest of its setup went on in its own heap. -/
theorem setupLevels_eq_ok {levels : Nat} {config : Config} {c s : Container} {outer heap : Heap}
    (h : setupLevels levels config c outer = ⟨.ok (), s, heap⟩) :
    ∃ n p m nested contents providers validations, levels = n + 1 ∧
      c = .mk p (.declared (.node m nested) contents providers validations) ∧
      heap = (linkOuter p.name m outer).heap ∧
      conclude { p with config } ((assemble (setupLevels n) { p with config }
        (enterExtension p.name (linkOuter p.name m outer).subject nested
          (linkOuter p.name m outer).outcome) contents providers validations).run
        (Draft.start { p with config })) = (.ok (), s) := by
  obtain ⟨n, p, m, nested, contents, providers, validations, hlevels, hc, hheap, hrun⟩ :=
    setupLevels_ok (congrArg Attempt.outcome h)
  rw [h] at hheap hrun
  exact ⟨n, p, m, nested, contents, providers, validations, hlevels, hc, hheap, hrun⟩

theorem setupLevels_name {levels : Nat} {config : Config} {c s : Container} {outer heap : Heap}
    (h : setupLevels levels config c outer = ⟨.ok (), s, heap⟩) : s.name = c.name := by
  obtain ⟨n, p, m, nested, contents, providers, validations, _, rfl, _, hrun⟩ := setupLevels_eq_ok h
  obtain ⟨tree, draft, _, rfl⟩ := conclude_ok hrun
  rfl

/-- How much room there is for extensions inside each other does not matter where there is enough of
it. -/
theorem setupLevels_agree (n n' : Nat) :
    ExtensionSetup.Parallel Eq Eq (setupLevels n) (setupLevels n') := by
  induction n generalizing n' with
  | zero =>
    intro _ _ _ _ _ _ _ _ _ h
    cases h
  | succ n ih =>
    intro config c c' s s' outer heap heap' hc h h'
    subst hc
    obtain ⟨_, p, m, nested, contents, providers, validations, hn, rfl, rfl, hrun⟩ :=
      setupLevels_eq_ok h
    obtain ⟨k, _, _, _, _, _, _, rfl, hdeclared, rfl, hrun'⟩ := setupLevels_eq_ok h'
    cases hn
    cases hdeclared
    have hcontents := Component.AllRelated.refl (fun c : Container => Eq.refl c) contents
    exact ⟨rfl, (conclude_parallel ownable_eq (ih k) hcontents hrun hrun').eq⟩

/-- Two setups that go on alike inside the extensions of one name, go on alike in all. -/
theorem setupLevels_sameBut {name : String} {n n' : Nat}
    (h : ExtensionSetup.Parallel R R' (setupLevels n) (setupLevels n')) :
    ExtensionSetup.Parallel (SameBut name R) (SameBut name R') (setupLevels n)
      (setupLevels n') := by
  intro config c c' s s' outer heap heap' hc hs hs'
  rcases hc with hc | ⟨hname, hname', hc⟩
  · obtain ⟨hheap, hsame⟩ := setupLevels_agree n n' hc hs hs'
    exact ⟨hheap, .inl hsame⟩
  · obtain ⟨hheap, hrelated⟩ := h hc hs hs'
    refine ⟨hheap, .inr ⟨?_, ?_, hrelated⟩⟩
    · rw [setupLevels_name hs, hname]
    · rw [setupLevels_name hs', hname']

/-- What one extension declares inside does not show around it, neither in the heap of the container
around nor in the extensions that the path goes through. -/
theorem setupLevels_isolated (path : List String) (n n' : Nat) :
    ExtensionSetup.Parallel (DeclaredAlike path) (AgreeAround path) (setupLevels n)
      (setupLevels n') := by
  induction path generalizing n n' with
  | nil =>
    intro config c c' s s' outer heap heap' halike h h'
    obtain ⟨_, p, m, _, _, _, _, _, rfl, rfl, _⟩ := setupLevels_eq_ok h
    obtain ⟨_, p', m', _, _, _, _, _, hdeclared, rfl, _⟩ := setupLevels_eq_ok h'
    cases halike with
    | intro cardinality uniques =>
      cases hdeclared
      exact ⟨rfl, trivial⟩
  | cons name path ih =>
    intro config c c' s s' outer heap heap' halike h h'
    obtain ⟨p, model, contents, contents', providers, validations, rfl, rfl, hcontents⟩ := halike
    obtain ⟨k, _, m, nested, _, _, _, _, hdeclared, rfl, hrun⟩ := setupLevels_eq_ok h
    obtain ⟨k', _, _, _, _, _, _, _, hdeclared', rfl, hrun'⟩ := setupLevels_eq_ok h'
    cases hdeclared
    cases hdeclared'
    exact ⟨rfl, conclude_parallel (ownable_declaredAlike name path) (setupLevels_sameBut (ih k k'))
      hcontents hrun hrun'⟩

end Container

/-- Extensions are isolated. Let two rule sets be declared identically, except for what one
extension, at any depth, declares inside itself: all but its name and its main model with the
expression that leads to it. If both are set up, then each container around that extension ends
with the same heap, models, and unresolved expressions in both, and with the same nodes but for the
one on the way to that extension. -/
theorem an_extension_is_isolated {c c' s s' : Container} {name : String} {path : List String}
    (halike : c.DeclaredAlike (name :: path) c') (h : c.setup = (.ok (), s))
    (h' : c'.setup = (.ok (), s')) : s.AgreeAround (name :: path) s' := by
  obtain ⟨p, model, contents, contents', providers, validations, rfl, rfl, hcontents⟩ := halike
  rcases hrole : p.role with _ | owner
  · rw [setup_ruleSet hrole] at h h'
    exact conclude_parallel (Container.ownable_declaredAlike name path)
      (Container.setupLevels_sameBut (Container.setupLevels_isolated path _ _)) hcontents h h'
  · simp only [Container.setup, Container.profile, hrole] at h
    cases h

/-- An office with a board, like the head office, but with drawers in the desk on the board. -/
def Container.furnishedOffice : Container :=
  let model : ModelTree := .node ⟨"chair", .expression (.ofModels "company" ["boss"])⟩ []
  let desk := desk.declaring [] [⟨"drawers", .literal (.integer 3)⟩] []
  let board : Container := .mk (newProfile "board" (.extension none) model none)
    (.declared model [.leaf (.extension desk)] [] [])
  .mk .sample (.declared .sample [.leaf (.extension board)] [] [])

/-- Neither the office nor its board notice the drawers. -/
theorem an_extension_is_isolated_behind_a_board : ∃ s s',
    Container.headOffice.DeclaredAlike ["board", "desk"] Container.furnishedOffice ∧
      Container.headOffice.setup = (.ok (), s) ∧ Container.furnishedOffice.setup = (.ok (), s') ∧
      s.AgreeAround ["board", "desk"] s' := by
  have hdesk : Container.SameOutside Container.desk
      (Container.desk.declaring [] [⟨"drawers", .literal (.integer 3)⟩] []) := .intro none []
  have hboard : Container.board.DeclaredAlike ["desk"] _ :=
    ⟨_, _, _, _, _, _, rfl, rfl, .cons (.node (.extension (.inr ⟨rfl, rfl, hdesk⟩)) .nil) .nil⟩
  have halike : Container.headOffice.DeclaredAlike ["board", "desk"] Container.furnishedOffice :=
    ⟨_, _, _, _, _, _, rfl, rfl, .cons (.node (.extension (.inr ⟨rfl, rfl, hboard⟩)) .nil) .nil⟩
  have hok : Container.headOffice.setup.1.isOk := by decide +kernel
  have hok' : Container.furnishedOffice.setup.1.isOk := by decide +kernel
  generalize hs : Container.headOffice.setup = result at hok
  generalize hs' : Container.furnishedOffice.setup = result' at hok'
  obtain ⟨_ | ⟨⟩, s⟩ := result
  · cases hok
  obtain ⟨_ | ⟨⟩, s'⟩ := result'
  · cases hok'
  exact ⟨s, s', halike, rfl, rfl, an_extension_is_isolated halike hs hs'⟩

end Formwork
