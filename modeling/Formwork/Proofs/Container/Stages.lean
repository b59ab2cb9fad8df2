-- Containers that were set up, at any depth. A rule set and every extension inside it went through
-- the same stages: models, data providers, layout, variables for the components, and their setup.
-- So what is to be said of all of them is said of the stages.
import Formwork.Proofs.Container.Models
import Formwork.Proofs.Container.Owners
import Formwork.Proofs.Heap.Accruing

namespace Formwork

open Drafting

/-- The container is the other one or is held by it, directly or not. -/
inductive Container.Holds : Container → Container → Prop where
  | self (c : Container) : Holds c c
  | inside {c inner k : Container} {tree : Tree} {node : Node} : c.tree? = some tree →
    node ∈ tree.nodes → node.part = some (.extension inner) → Holds inner k → Holds c k

/-! ## What declarations pass on -/

/-- What is said of a declared container is said of it under any configuration, and of the
extensions declared inside it. -/
structure Inherited (D : Container → Prop) : Prop where
  config : ∀ {p : Profile} {phase : Phase} (config : Config),
    D (.mk p phase) → D (.mk { p with config } phase)
  inside : ∀ {p : Profile} {model : ModelTree} {contents : List Component}
    {providers : List DataVar} {validations : List Validation} {owner : String},
    D (.mk p (.declared model contents providers validations)) →
    ∀ entry ∈ Component.preorderAll owner contents, entry.2.Placeable → ∀ c,
      entry.2.ownedBy entry.1 = .extension c → D c

theorem inherited_true : Inherited fun _ => True :=
  ⟨fun _ _ => trivial, fun _ _ _ _ _ _ => trivial⟩

theorem inherited_wellNamed : Inherited Container.WellNamed where
  config _ hw := hw
  inside hw entry he _ c howned := by
    have hentry : (Part.extension c).WellNamed :=
      howned ▸ (hw.2.preorderAll entry he).ownedBy entry.1
    exact hentry

/-- What is neither a model nor a check of the items, a data variable or a rule stands in the contents
of a container. -/
theorem Tree.mem_contents {p : Profile} {model : ModelTree} {contents : List Component}
    {providers : List DataVar} {validations : List Validation} {owner : String}
    {entry : String × Part}
    (he : entry ∈ Component.preorderAll owner
      (Tree.components p model contents providers validations))
    (hkind : entry.2.kind ∉
      [ComponentKind.model, .cardinality, .unique, .dataVar, .validation]) :
    entry ∈ Component.preorderAll owner contents := by
  rw [parts_of_components] at he
  simp only [List.mem_append] at he
  rcases he with (((hmodel | hcheck) | hcontents) | hprovider) | hrule
  · obtain ⟨m, _, hm⟩ := Component.mem_preorder_ofModel hmodel
    rw [hm] at hkind
    exact absurd (by simp [Part.kind]) hkind
  · obtain ⟨own, hown, rfl⟩ := List.mem_map.1 hcheck
    rcases Profile.kind_of_mem_checks hown with h | h
    all_goals
      rw [h] at hkind
      exact absurd (by decide) hkind
  · exact hcontents
  · obtain ⟨d, _, rfl⟩ := List.mem_map.1 hprovider
    exact absurd (by simp [Part.kind]) hkind
  · obtain ⟨rule, _, rfl⟩ := List.mem_map.1 hrule
    exact absurd (by simp [Part.kind]) hkind

/-- The extensions of a container stand in its contents. -/
theorem Tree.mem_contents_of_extension {p : Profile} {model : ModelTree} {contents : List Component}
    {providers : List DataVar} {validations : List Validation} {owner : String}
    {entry : String × Part} {c : Container}
    (he : entry ∈ Component.preorderAll owner
      (Tree.components p model contents providers validations))
    (howned : entry.2.ownedBy entry.1 = .extension c) :
    entry ∈ Component.preorderAll owner contents := by
  refine mem_contents he ?_
  rw [← Part.kind_ownedBy entry.1, howned]
  simp [Part.kind]

/-! ## Stages -/

/-- How a container gets its models: a rule set registers its own ones, an extension links its main
model to the container around it. -/
inductive Enters (p : Profile) : ModelTree → Drafting (ModelTree × Descriptor) → Prop where
  | ruleSet (model : ModelTree) : Enters p model (registerTree p.name model)
  | extension (m : BoundModel) (nested : List ModelTree) (outer : Heap) :
    Enters p (.node m nested) (enterExtension p.name (linkOuter p.name m outer).subject nested
      (linkOuter p.name m outer).outcome)

/-- However the models come in, they are registered in an empty heap. -/
theorem Enters.registers {p : Profile} {model : ModelTree}
    {enter : Drafting (ModelTree × Descriptor)} (h : Enters p model enter)
    {result : ModelTree × Descriptor} {draft : Draft}
    (hr : enter.run (Draft.start p) = (.ok result, draft)) :
    ∃ bound, Registers model.WellNamed { Draft.start p with boundVariable := bound } draft := by
  cases h with
  | ruleSet => exact ⟨none, registerTree_registers hr⟩
  | extension m nested outer =>
    obtain ⟨bound, hregisters⟩ := enterExtension_registers rfl hr
    refine ⟨some bound, hregisters.builds, hregisters.models, hregisters.boundVariable, ?_⟩
    rintro ⟨hname, hnested⟩
    exact hregisters.typed ⟨by rw [linkOuter_name]; exact hname, hnested⟩

theorem start_sound (p : Profile) : (Draft.start p).heap.Sound := Heap.sound_empty _ _

/-- However the models come in, they are enrolled, and the main one is noted with its shape. -/
theorem Enters.enrolls {p : Profile} {model model' : ModelTree}
    {enter : Drafting (ModelTree × Descriptor)} (h : Enters p model enter) {d : Descriptor}
    {draft : Draft} (hr : enter.run (Draft.start p) = (.ok (model', d), draft)) :
    Enrolls model'.all (Draft.start p) draft ∧
      ∃ id, draft.models.find? model.model.name = some ⟨d, id⟩ := by
  have hcanonical : (Draft.start p).heap.Canonical := Heap.canonical_empty _ _
  cases h with
  | ruleSet => exact registerTree_enrolls (start_sound p) hcanonical hr
  | extension m nested outer =>
    obtain ⟨d', bound, id, draft₁, nested', _, hresult, hadd, hnested⟩ := enterExtension_ok hr
    obtain ⟨heap, hrun, rfl⟩ := onHeap_ok hadd
    cases hresult
    have hcore := Heap.bind_core (.fresh (linkOuter p.name m outer).subject.name .models
      (.typed d)) bound
    obtain ⟨hl, hv⟩ := Heap.add_found hrun
    rw [Option.getD_none, (Variable.eq_of_core hcore).1, Heap.ns_of_core hcore] at hl
    have hbuilds : Heap.Builds (· = .models) (Draft.start p).heap heap :=
      Heap.builds_of_add (Heap.ns_of_core hcore) (Heap.bind_references _ bound) hrun
    refine ⟨Enrolls.append (enrolls_put rfl rfl hbuilds.accrues hl hv
      (Variable.descriptor?_of_core hcore))
      (registerTrees_enrolls (hbuilds.sound (start_sound p)) (hcanonical.builds hbuilds) hnested),
      id, (registerTrees_registers hnested).models _ _ ?_⟩
    rw [linkOuter_name, Ordered.find?_put]
    exact if_pos rfl

/-- The container `c` was set up in stages. Its models were entered, its data providers were
provided, its components were laid out and registered, and they were equipped by their setup. -/
structure Staged (levels : Nat) (p : Profile) (enter : Drafting (ModelTree × Descriptor))
    (contents : List Component) (entered provided registered equipped : Draft) (laid tree : Tree)
    (c : Container) : Prop where
  enters : ∃ main, enter.run (Draft.start p) = (.ok main, entered)
  models : Heap.Builds (· = .models) (Draft.start p).heap entered.heap
  provides : Draft.Builds (· = .dataProviders) entered provided
  lays : ∃ main providers validations,
    Tree.ofDeclaration p main contents providers validations = .ok laid
  registers : (registerNodes laid.nodes).run provided = (.ok (), registered)
  occupies : Draft.Builds (· = .fields) provided registered
  equips : (setupNodes (Container.setupLevels levels) p.config laid.nodes).run registered =
    (.ok tree.nodes, equipped)
  index : tree.byName = laid.byName
  uses : Draft.Uses registered equipped
  result : c = .mk { p with
    models := equipped.models
    boundVariable := equipped.boundVariable
    unresolved := equipped.unresolved }
      (.finished { equipped.heap with finished := true } tree)

/-- The steps of a setup that starts with nothing are the stages of what it leaves behind. -/
theorem Assembly.staged {levels : Nat} {p : Profile} {model : ModelTree}
    {contents : List Component} {providers : List DataVar} {validations : List Validation}
    {enter : Drafting (ModelTree × Descriptor)} {draft : Draft} {tree : Tree}
    (a : Assembly (Container.setupLevels levels) p enter contents providers validations
      (Draft.start p) tree draft) (henter : Enters p model enter) :
    Staged levels p enter contents a.entered a.provided a.registered a.equipped a.laid tree
      (.mk { p with
        models := draft.models
        boundVariable := draft.boundVariable
        unresolved := draft.unresolved } (.finished draft.heap tree)) := by
  obtain ⟨_, hregisters⟩ := henter.registers a.enters
  have hmodels := hregisters.builds (start_sound p)
  have hentered := hmodels.sound (start_sound p)
  have hprovide :=
    (onlyBuilds_forM onlyBuilds_registerProvider providers).builds hentered a.provides
  have hprovided := hprovide.heap.sound hentered
  have hoccupy := (onlyBuilds_registerNodes a.laid.nodes).builds hprovided a.registers
  have hequip := (onlyUses_setupNodes (onlyUses_setupLevels levels) p.config a.laid.nodes).builds
    (hoccupy.heap.sound hprovided) a.equips
  refine ⟨⟨_, a.enters⟩, hmodels, hprovide, ⟨a.model, providers, validations, a.lays⟩, a.registers,
    hoccupy, a.equips, a.index, hequip, ?_⟩
  exact congrArg (fun frozen : Draft => Container.mk { p with
    models := frozen.models
    boundVariable := frozen.boundVariable
    unresolved := frozen.unresolved } (.finished frozen.heap tree)) a.frozen_eq

/-- A container that came out of setup went through all stages. -/
theorem staged_of_conclude {levels : Nat} {p : Profile} {model : ModelTree}
    {contents : List Component} {providers : List DataVar} {validations : List Validation}
    {enter : Drafting (ModelTree × Descriptor)} {c : Container} (henter : Enters p model enter)
    (h : Container.conclude p ((assemble (Container.setupLevels levels) p enter contents providers
      validations).run (Draft.start p)) = (.ok (), c)) :
    ∃ entered provided registered equipped laid tree,
      Staged levels p enter contents entered provided registered equipped laid tree c := by
  obtain ⟨tree, draft, hr, rfl⟩ := conclude_ok h
  obtain ⟨a⟩ := assembly_of_run hr
  exact ⟨a.entered, a.provided, a.registered, a.equipped, a.laid, tree, a.staged henter⟩

namespace Staged

variable {levels : Nat} {p : Profile} {enter : Drafting (ModelTree × Descriptor)}
  {contents : List Component} {entered provided registered equipped : Draft} {laid tree : Tree}
  {c : Container}
  (h : Staged levels p enter contents entered provided registered equipped laid tree c)

include h

theorem sound : registered.heap.Sound :=
  h.occupies.heap.sound (h.provides.heap.sound (h.models.sound (start_sound p)))

/-- Every variable is found under its own name. -/
theorem canonical : registered.heap.Canonical :=
  (((Heap.canonical_empty _ _).builds h.models).builds h.provides.heap).builds h.occupies.heap

/-- The models of the finished container are those that were entered. -/
theorem models_eq : c.profile.models = entered.models := by
  rw [h.result]
  exact h.uses.models.trans (h.occupies.models.trans h.provides.models)

theorem boundVariable_eq : c.profile.boundVariable = entered.boundVariable := by
  rw [h.result]
  exact h.uses.boundVariable.trans (h.occupies.boundVariable.trans h.provides.boundVariable)

/-- The container keeps its name and that of its main model. -/
theorem profile_eq : c.name = p.name ∧ c.profile.mainModel = p.mainModel := by
  rw [h.result]
  exact ⟨rfl, rfl⟩

/-- The finished heap, which has what the heap of the last stage has. -/
theorem heap?_ok : ∃ heap, c.heap? = some heap ∧ heap.finished = true ∧
    Heap.Accrues equipped.heap heap :=
  ⟨_, by rw [h.result]; rfl, rfl, .frozen equipped.heap⟩

/-- The finished heap has what was entered. -/
theorem accrues : Heap.Accrues entered.heap equipped.heap :=
  (h.provides.heap.accrues.trans h.occupies.heap.accrues).trans h.uses.heap.accrues

/-- The heap has the name of the container. -/
theorem name_eq : equipped.heap.name = p.name :=
  h.accrues.name.trans h.models.accrues.name

theorem tree?_eq : c.tree? = some tree := by
  rw [h.result]
  rfl

/-- Nothing was set up while the components were laid out. -/
theorem unfinished {node : Node} (hnode : node ∈ laid.nodes) : node.finished = false := by
  obtain ⟨_, _, _, hlaid⟩ := h.lays
  exact Tree.unfinished_of_mem hlaid hnode

/-- The parts of the tree are in step. -/
theorem inStep : tree.InStep := by
  obtain ⟨_, _, _, hlaid⟩ := h.lays
  obtain ⟨_, hextends⟩ := Tree.ofDeclaration_extends hlaid
  exact hextends.inStep.of_places h.index
    (setupNodes_places (fun _ hnode => h.unfinished hnode) h.equips)

/-- What stands in the tree was declared, and was set up in a heap that was used since all
components had variables, and that was used after that. -/
theorem part_ok {node : Node} (hnode : node ∈ tree.nodes) {part : Part}
    (hpart : node.part = some part) :
    ∃ node₀ source d d', node₀ ∈ laid.nodes ∧ node₀.part = some source ∧
      Draft.Uses registered d ∧ Draft.Uses d' equipped ∧
      (setupNode (Container.setupLevels levels) p.config node₀).run d = (.ok node, d') ∧
      (setupPart (Container.setupLevels levels) p.config node₀.name source).run d =
        (.ok part, d') := by
  obtain ⟨node₀, d, d', hnode₀, hbefore, hafter, hrun⟩ :=
    mem_setupNodes (onlyUses_setupLevels levels) h.sound h.equips hnode
  obtain ⟨source, hsource, hrun'⟩ := setupNode_ok (h.unfinished hnode₀) hrun hpart
  exact ⟨node₀, source, d, d', hnode₀, hsource, hbefore, hafter, hrun, hrun'⟩

/-- An extension in the tree was declared in the contents, and setup of it succeeded in the heap of
the container around it. -/
theorem extension_ok {node : Node} (hnode : node ∈ tree.nodes) {inner : Container}
    (hinner : node.part = some (.extension inner)) :
    ∃ entry ∈ Component.preorderAll p.name contents, entry.2.Placeable ∧ ∃ c₀ d d',
      entry.2.ownedBy entry.1 = .extension c₀ ∧ Draft.Uses registered d ∧
      d'.heap = (Container.setupLevels levels p.config c₀ d.heap).heap ∧ Draft.Uses d' equipped ∧
      (Container.setupLevels levels p.config c₀ d.heap).outcome = .ok () ∧
      inner = (Container.setupLevels levels p.config c₀ d.heap).subject := by
  obtain ⟨node₀, source, d, d', hnode₀, hsource, hbefore, hafter, _, hrun⟩ := h.part_ok hnode hinner
  obtain ⟨c₀, rfl, ho, hsubject⟩ := setupPart_extension hrun
  obtain ⟨main, providers, validations, hlaid⟩ := h.lays
  obtain ⟨entry, he, hplaceable, howned⟩ := Tree.declared_of_mem hlaid hnode₀ hsource
  have hheap : d'.heap = (Container.setupLevels levels p.config c₀ d.heap).heap := by
    have := congrArg (fun result => result.2.heap) hrun
    exact this.symm
  exact ⟨entry, Tree.mem_contents_of_extension he howned, hplaceable, c₀, d, d', howned, hbefore,
    hheap, hafter, ho, hsubject⟩

end Staged

/-! ## Containers that were set up -/

/-- A container that came out of setup, and was declared in a way of which `D` is said. -/
inductive Container.Assembled (D : Container → Prop) : Container → Prop where
  | intro {levels : Nat} {p : Profile} {model : ModelTree} {contents : List Component}
    {providers : List DataVar} {validations : List Validation}
    {enter : Drafting (ModelTree × Descriptor)} {c : Container} :
    D (.mk p (.declared model contents providers validations)) → Enters p model enter →
    Container.conclude p ((assemble (Container.setupLevels levels) p enter contents providers
      validations).run (Draft.start p)) = (.ok (), c) → Assembled D c

namespace Container

variable {D : Container → Prop}

/-- An extension whose setup succeeded was declared before, and is set up with its models linked. -/
theorem setupLevels_ok {levels : Nat} {config : Config} {c : Container} {outer : Heap}
    (h : (setupLevels levels config c outer).outcome = .ok ()) :
    ∃ n p m nested contents providers validations, levels = n + 1 ∧
      c = .mk p (.declared (.node m nested) contents providers validations) ∧
      (setupLevels levels config c outer).heap = (linkOuter p.name m outer).heap ∧
      conclude { p with config } ((assemble (setupLevels n) { p with config }
        (enterExtension p.name (linkOuter p.name m outer).subject nested
          (linkOuter p.name m outer).outcome) contents providers validations).run
        (Draft.start { p with config })) =
          (.ok (), (setupLevels levels config c outer).subject) := by
  cases levels with
  | zero => cases h
  | succ n =>
    rw [setupLevels] at h ⊢
    obtain ⟨owner, hrole⟩ := role_of_setupInside h
    obtain ⟨p, ⟨⟨m, nested⟩, contents, providers, validations⟩ | ⟨_, _⟩ | _⟩ := c
    · exact ⟨n, p, m, nested, contents, providers, validations, rfl, rfl, setupInside_ok rfl h⟩
    all_goals
      simp only [setupInside, hrole] at h
      cases h

theorem role_of_setupLevels {levels : Nat} {config : Config} {c : Container} {outer : Heap}
    (h : (setupLevels levels config c outer).outcome = .ok ()) :
    ∃ owner, c.profile.role = .extension owner := by
  cases levels with
  | zero => cases h
  | succ n => exact role_of_setupInside h

theorem assembled_of_setupLevels (hD : Inherited D) {levels : Nat} {config : Config} {c : Container}
    {outer : Heap} (hc : D c) (h : (setupLevels levels config c outer).outcome = .ok ()) :
    Assembled D (setupLevels levels config c outer).subject := by
  obtain ⟨n, p, m, nested, contents, providers, validations, rfl, rfl, _, hrun⟩ := setupLevels_ok h
  exact .intro (hD.config config hc) (.extension m nested outer) hrun

theorem assembled_of_setup {c c' : Container} (hc : D c) (h : c.setup = (.ok (), c')) :
    Assembled D c' := by
  obtain ⟨p, model, contents, providers, validations, rfl, _, hrun⟩ := setup_ok h
  exact .intro hc (.ruleSet _) hrun

/-- An extension in a container that was set up was set up itself. -/
theorem Assembled.extension (hD : Inherited D) {c inner : Container} (hc : Assembled D c)
    {tree : Tree} (htree : c.tree? = some tree) {node : Node} (hnode : node ∈ tree.nodes)
    (hinner : node.part = some (.extension inner)) : Assembled D inner := by
  obtain ⟨hdeclared, henter, h⟩ := hc
  obtain ⟨_, _, _, _, _, tree', hstaged⟩ := staged_of_conclude henter h
  obtain rfl : tree' = tree := Option.some.inj (hstaged.tree?_eq.symm.trans htree)
  obtain ⟨entry, he, hplaceable, c₀, d, d', howned, _, _, _, ho, rfl⟩ :=
    hstaged.extension_ok hnode hinner
  exact assembled_of_setupLevels hD (hD.inside hdeclared entry he hplaceable c₀ howned) ho

/-- Whatever a container holds that was set up was set up itself. -/
theorem Assembled.holds (hD : Inherited D) {c k : Container} (hc : Assembled D c)
    (hk : c.Holds k) : Assembled D k := by
  induction hk with
  | self => exact hc
  | inside htree hnode hinner _ ih => exact ih (hc.extension hD htree hnode hinner)

/-! ## Declarations -/

/-- The container declares the other one: it is that one, or has it inside. What is inside is taken
over by its owner and gets the configuration of the container around it. -/
inductive Declares (c : Container) : Container → Prop where
  | self : Declares c c
  | config {p : Profile} {phase : Phase} (config : Config) : Declares c (.mk p phase) →
    Declares c (.mk { p with config } phase)
  | inside {p : Profile} {model : ModelTree} {contents : List Component} {providers : List DataVar}
    {validations : List Validation} {owner : String} {entry : String × Part} {d : Container} :
    Declares c (.mk p (.declared model contents providers validations)) →
    entry ∈ Component.preorderAll owner contents → entry.2.Placeable →
    entry.2.ownedBy entry.1 = .extension d → Declares c d

theorem inherited_declares (c : Container) : Inherited c.Declares where
  config config hd := .config config hd
  inside hd _ he hplaceable _ howned := .inside hd he hplaceable howned

/-- The components that a container is declared with. -/
def contents : Container → List Component
  | .mk _ (.declared _ contents _ _) => contents
  | _ => []

/-- The main model that a container is declared with, and those nested in it. -/
def declaredModel? : Container → Option ModelTree
  | .mk _ (.declared model _ _ _) => some model
  | _ => none

/-- Setup has made the container of the declared one. -/
def Became (d k : Container) : Prop := Assembled (· = d) k

/-- Whatever is held by a container that was set up, setup has made of something declared there. -/
theorem became_of_setup {c c' k : Container} (h : c.setup = (.ok (), c')) (hk : c'.Holds k) :
    ∃ d, c.Declares d ∧ d.Became k := by
  obtain ⟨hd, henter, hrun⟩ := (assembled_of_setup .self h).holds (inherited_declares c) hk
  exact ⟨_, hd, .intro rfl henter hrun⟩

end Container

end Formwork
