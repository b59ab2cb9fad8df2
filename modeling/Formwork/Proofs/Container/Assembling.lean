-- How a container is set up. After its models are registered, its data providers and its nodes get
-- variables; then every node is set up in order, which only uses the heap, whatever the components
-- and the extensions among them are; at last the heap is frozen.
import Formwork.Container.Setup
import Formwork.Proofs.Component.Binding
import Formwork.Proofs.Container.Names

namespace Formwork

open Drafting

/-! ## Steps of a container -/

theorem onlyBuilds_add {mine : Namespace → Prop} {v : Variable} (hns : mine v.ns)
    (hr : v.references = []) : OnlyBuilds mine (onHeap (Heap.add v none)) :=
  onlyBuilds_onHeap fun heap _ => Heap.builds_add hns hr heap

theorem onlyBuilds_registerProvider (d : DataVar) :
    OnlyBuilds (· = .dataProviders) (registerProvider d) := by
  have hadd : ∀ data : VariableData, OnlyBuilds (· = .dataProviders)
      (onHeap (Heap.add (.fresh d.name .dataProviders data) none)) :=
    fun _ => onlyBuilds_add rfl rfl
  unfold registerProvider
  dsimp only
  split
  · exact onlyBuilds_bind (onlyBuilds_pure _) fun data =>
      onlyBuilds_bind (hadd data) fun _ => onlyBuilds_pure _
  · exact onlyBuilds_bind (onlyBuilds_ofExcept _) fun _ => onlyBuilds_bind (onlyBuilds_pure _)
      fun data => onlyBuilds_bind (hadd data) fun _ => onlyBuilds_pure _

theorem onlyBuilds_forM {α : Type} {mine : Namespace → Prop} {f : α → Drafting PUnit}
    (h : ∀ a, OnlyBuilds mine (f a)) : ∀ items : List α, OnlyBuilds mine (items.forM f)
  | [] => onlyBuilds_pure _
  | a :: rest => onlyBuilds_bind (h a) fun _ => onlyBuilds_forM h rest

theorem nodeVariable_name (node : Node) : (nodeVariable node).name = node.name := by
  unfold nodeVariable
  dsimp only
  split <;> rfl

/-- The variable of a node depends on its place only. -/
theorem nodeVariable_place (node : Node) : nodeVariable node.place = nodeVariable node := rfl

theorem nodeVariable_ns (node : Node) : (nodeVariable node).ns = .fields := by
  unfold nodeVariable
  dsimp only
  split <;> rfl

theorem nodeVariable_references (node : Node) : (nodeVariable node).references = [] := by
  unfold nodeVariable
  dsimp only
  split <;> rfl

theorem onlyBuilds_registerNodes :
    ∀ nodes : List Node, OnlyBuilds (· = .fields) (registerNodes nodes)
  | [] => onlyBuilds_pure _
  | node :: rest =>
    onlyBuilds_bind (onlyBuilds_add (nodeVariable_ns node) (nodeVariable_references node))
      fun _ => onlyBuilds_registerNodes rest

/-! ## Checks at the end -/

theorem forM_ofExcept_ok {α : Type} {f : α → Except Error PUnit} {draft draft' : Draft}
    {u : PUnit} {items : List α}
    (hr : (items.forM fun a => (ofExcept (f a) : Drafting PUnit)).run draft = (.ok u, draft')) :
    draft' = draft ∧ ∀ a ∈ items, f a = .ok ⟨⟩ := by
  induction items generalizing draft with
  | nil =>
    cases hr
    exact ⟨rfl, List.forall_mem_nil _⟩
  | cons a rest ih =>
    obtain ⟨_, _, hfirst, hrest⟩ := Step.run_bind_ok hr
    obtain ⟨hpassed, rfl⟩ := Step.run_ofExcept_ok hfirst
    obtain ⟨hsame, hall⟩ := ih hrest
    exact ⟨hsame, List.forall_mem_cons.2 ⟨hpassed, hall⟩⟩

theorem checkUnresolved_ok {draft draft' : Draft} {u : Unit}
    (hr : checkUnresolved.run draft = (.ok u, draft')) :
    draft' = draft ∧ draft.unresolved = [] := by
  unfold checkUnresolved at hr
  rw [Step.run_bind, Step.run_get] at hr
  dsimp only at hr
  split at hr
  · cases hr
  · rename_i hempty
    cases hr
    exact ⟨rfl, by simpa using hempty⟩

/-- The rule for the number of items suits the main model, and every combination is one of fields,
when nothing is held against them. -/
theorem checkChildren_ok {p : Profile} {main : Descriptor} {draft draft' : Draft} {u : Unit}
    (hr : (checkChildren p main).run draft = (.ok u, draft')) :
    draft' = draft ∧ (∀ check, p.cardinality = some check → check.checkShape main = .ok ()) ∧
      ∀ unique ∈ p.uniques,
        unique.checkFields draft.heap p.config.maxSuggestions = .ok () := by
  unfold checkChildren at hr
  dsimp only at hr
  split at hr
  · rename_i check hcheck
    obtain ⟨_, _, hshape, hrest⟩ := Step.run_bind_ok hr
    obtain ⟨hsuits, rfl⟩ := Step.run_ofExcept_ok hshape
    rw [Step.run_bind, Step.run_get] at hrest
    obtain ⟨hsame, hfields⟩ := forM_ofExcept_ok hrest
    refine ⟨hsame, fun other hother => ?_, hfields⟩
    obtain rfl := Option.some.inj (hcheck.symm.trans hother)
    exact hsuits
  · rename_i hnone
    rw [Step.run_bind, Step.run_get] at hr
    obtain ⟨hsame, hfields⟩ := forM_ofExcept_ok hr
    refine ⟨hsame, fun other hother => ?_, hfields⟩
    rw [hnone] at hother
    cases hother

variable {extend : ExtensionSetup}

theorem onlyUses_setupNodes (hextend : extend.OnlyUses) (config : Config) :
    ∀ nodes : List Node, OnlyUses (setupNodes extend config nodes)
  | [] => onlyBuilds_pure []
  | node :: rest => onlyBuilds_bind (onlyUses_setupNode hextend config node) fun _ =>
      onlyBuilds_bind (onlyUses_setupNodes hextend config rest) fun _ => onlyBuilds_pure _

/-! ## Setting up the nodes -/

/-- A node without a part is set up by noting that. -/
theorem setupNode_none {config : Config} {node : Node} (hun : node.finished = false)
    (hnone : node.part = none) :
    setupNode extend config node = pure { node with finished := true } := by
  rw [setupNode, hun, hnone]
  rfl

/-- A node keeps its place while its part is set up. -/
theorem setupNode_some_iff {config : Config} {node node' : Node} {part : Part}
    {draft draft' : Draft} (hun : node.finished = false) (hsome : node.part = some part) :
    (setupNode extend config node).run draft = (.ok node', draft') ↔
      ∃ part', (setupPart extend config node.name part).run draft = (.ok part', draft') ∧
        node' = { node with part := some part', finished := true } := by
  have hstep : setupNode extend config node = (do
      let part ← Drafting.ownedBy node.name (setupPart extend config node.name part)
      return { node with part := some part, finished := true }) := by
    rw [setupNode, hun, hsome]
    rfl
  simp only [hstep, Step.run_bind_eq_ok, Drafting.ownedBy, Step.run_adapt_eq_ok]
  constructor
  · rintro ⟨part', _, hpart, hr⟩
    cases hr
    exact ⟨part', hpart, rfl⟩
  · rintro ⟨part', hpart, rfl⟩
    exact ⟨part', draft', hpart, rfl⟩

/-- A node that was set up is the one that it was made of, but that its part may have changed. -/
theorem setupNode_place {config : Config} {node node' : Node} {draft draft' : Draft}
    (hun : node.finished = false)
    (hr : (setupNode extend config node).run draft = (.ok node', draft')) :
    ∃ part', node' = { node with part := part', finished := true } := by
  rcases hpart : node.part with _ | part
  · rw [setupNode_none hun hpart] at hr
    cases hr
    exact ⟨none, by rw [hpart]⟩
  · obtain ⟨part', _, rfl⟩ := (setupNode_some_iff hun hpart).1 hr
    exact ⟨some part', rfl⟩

theorem setupNode_finished {config : Config} {node node' : Node} {draft draft' : Draft}
    (hr : (setupNode extend config node).run draft = (.ok node', draft')) :
    node'.finished = true := by
  rcases hfinished : node.finished
  · obtain ⟨_, rfl⟩ := setupNode_place hfinished hr
    rfl
  · rw [setupNode, hfinished] at hr
    cases hr
    exact hfinished

/-- What stands at a node that was set up was made of what stood there. -/
theorem setupNode_ok {config : Config} {node node' : Node} {draft draft' : Draft} {part' : Part}
    (hun : node.finished = false)
    (hr : (setupNode extend config node).run draft = (.ok node', draft'))
    (hp : node'.part = some part') :
    ∃ part, node.part = some part ∧
      (setupPart extend config node.name part).run draft = (.ok part', draft') := by
  rcases hpart : node.part with _ | part
  · rw [setupNode_none hun hpart] at hr
    cases hr
    rw [hpart] at hp
    cases hp
  · obtain ⟨new, hnew, rfl⟩ := (setupNode_some_iff hun hpart).1 hr
    cases hp
    exact ⟨part, rfl, hnew⟩

/-- Setup makes no other kind of component out of a part. -/
theorem setupPart_kind {config : Config} {name : String} {part part' : Part}
    {draft draft' : Draft}
    (hr : (setupPart extend config name part).run draft = (.ok part', draft')) :
    part'.kind = part.kind := by
  cases part with
  | field f =>
    obtain ⟨_, _, _, hr⟩ := Step.run_bind_ok hr
    cases hr
    rfl
  | group g =>
    obtain ⟨_, _, _, hr⟩ := Step.run_bind_ok hr
    cases hr
    rfl
  | dataVar d =>
    unfold setupPart at hr
    dsimp only at hr
    split at hr
    · obtain ⟨_, _, _, hr⟩ := Step.run_bind_ok hr
      cases hr
      rfl
    · cases hr
      rfl
  | validation v =>
    obtain ⟨_, _, _, hr⟩ := Step.run_bind_ok hr
    cases hr
    rfl
  | model m =>
    obtain ⟨_, _, _, hr⟩ := Step.run_bind_ok hr
    cases hr
    rfl
  | extension c =>
    simp only [setupPart, Step.run_mk] at hr
    rcases ho : (extend config c draft.heap).outcome with e | u <;> rw [ho] at hr <;> cases hr
    rfl
  | cardinality check =>
    cases hr
    rfl
  | unique check =>
    cases hr
    rfl

/-- A field comes from a field. -/
theorem setupPart_field {config : Config} {name : String} {part : Part} {f' : Field}
    {draft draft' : Draft}
    (hr : (setupPart extend config name part).run draft = (.ok (.field f'), draft')) :
    ∃ f, part = .field f ∧ (setupField config f).run draft = (.ok f', draft') := by
  have hkind := setupPart_kind hr
  cases part <;> cases hkind
  rename_i f
  obtain ⟨_, _, hfield, hr⟩ := Step.run_bind_ok hr
  cases hr
  exact ⟨f, rfl, hfield⟩

/-- An extension comes from one that was set up. -/
theorem setupPart_extension {config : Config} {name : String} {part : Part} {c' : Container}
    {draft draft' : Draft}
    (hr : (setupPart extend config name part).run draft = (.ok (.extension c'), draft')) :
    ∃ c, part = .extension c ∧ (extend config c draft.heap).outcome = .ok () ∧
      c' = (extend config c draft.heap).subject := by
  have hkind := setupPart_kind hr
  cases part <;> cases hkind
  rename_i c
  simp only [setupPart, Step.run_mk] at hr
  rcases ho : (extend config c draft.heap).outcome with e | u <;> rw [ho] at hr <;> cases hr
  exact ⟨c, rfl, ho, rfl⟩

/-- Setting up an extension as a part is setting it up in the heap of the draft. -/
theorem setupPart_extension_iff {config : Config} {name : String} {c : Container} {part' : Part}
    {draft draft' : Draft} :
    (setupPart extend config name (.extension c)).run draft = (.ok part', draft') ↔
      ∃ c' outer, extend config c draft.heap = ⟨.ok (), c', outer⟩ ∧ part' = .extension c' ∧
        draft' = { draft with heap := outer } := by
  simp only [setupPart, Step.run_mk]
  constructor
  · intro hr
    rcases hattempt : extend config c draft.heap with ⟨e | u, subject, outer⟩ <;>
      rw [hattempt] at hr <;> cases hr
    exact ⟨subject, outer, rfl, rfl, rfl⟩
  · rintro ⟨subject, outer, hattempt, rfl, rfl⟩
    rw [hattempt]
    rfl

/-- Parts other than extensions do not look at how extensions are set up, and of the configuration
only at how many names an error shows. -/
theorem setupPart_of_kind {extend extend' : ExtensionSetup} {config config' : Config}
    {name : String} {part : Part} (hkind : part.kind ≠ .extension)
    (hlimit : config.maxSuggestions = config'.maxSuggestions) :
    setupPart extend config name part = setupPart extend' config' name part := by
  cases part with
  | field f =>
    simp only [setupPart, setupField, settleKind]
    rw [hlimit]
  | extension c => exact absurd rfl hkind
  | _ => rfl

/-- Every node was set up at some moment, before and after which the heap was only used. -/
theorem mem_setupNodes (hextend : extend.OnlyUses) {config : Config} {node' : Node} :
    ∀ {nodes nodes' : List Node} {draft draft' : Draft}, draft.heap.Sound →
      (setupNodes extend config nodes).run draft = (.ok nodes', draft') → node' ∈ nodes' →
      ∃ node d d', node ∈ nodes ∧ Draft.Uses draft d ∧ Draft.Uses d' draft' ∧
        (setupNode extend config node).run d = (.ok node', d')
  | [], _, _, _, _, hr, hm => by
    cases hr
    cases hm
  | first :: rest, nodes', draft, draft', hs, hr, hm => by
    unfold setupNodes at hr
    obtain ⟨first', draft₁, hfirst, hr⟩ := Step.run_bind_ok hr
    obtain ⟨rest', draft₂, hrest, hr⟩ := Step.run_bind_ok hr
    cases hr
    have huses := (onlyUses_setupNode hextend config first).builds hs hfirst
    have hs₁ := huses.heap.sound hs
    rcases List.mem_cons.1 hm with rfl | hm
    · have hafter := (onlyUses_setupNodes hextend config rest).builds hs₁ hrest
      exact ⟨first, draft, draft₁, List.mem_cons_self, .refl draft, hafter, hfirst⟩
    · obtain ⟨node, d, d', hnode, hbefore, hafter, hrun⟩ :=
        mem_setupNodes hextend hs₁ hrest hm
      exact ⟨node, d, d', List.mem_cons_of_mem _ hnode, huses.trans hbefore, hafter, hrun⟩

/-- No node is left out. -/
theorem finished_of_setupNodes {config : Config} : ∀ {nodes nodes' : List Node}
    {draft draft' : Draft}, (setupNodes extend config nodes).run draft = (.ok nodes', draft') →
    ∀ node ∈ nodes', node.finished = true
  | [], _, _, _, hr => by
    cases hr
    exact List.forall_mem_nil _
  | first :: rest, nodes', draft, draft', hr => by
    unfold setupNodes at hr
    obtain ⟨first', draft₁, hfirst, hr⟩ := Step.run_bind_ok hr
    obtain ⟨rest', draft₂, hrest, hr⟩ := Step.run_bind_ok hr
    cases hr
    exact List.forall_mem_cons.2 ⟨setupNode_finished hfirst, finished_of_setupNodes hrest⟩

theorem TreeOf.ensureFinished_ok {α : Type} {t : TreeOf α}
    (h : ∀ node ∈ t.nodes, node.finished = true) : t.ensureFinished = .ok () := by
  have hnone : (t.nodes.find? fun node => !node.finished) = none :=
    List.find?_eq_none.2 fun node hnode => by simp [h node hnode]
  rw [TreeOf.ensureFinished, hnone]

/-! ## Whole containers -/

/-- The run of a setup, step by step. The models are entered, the data providers get variables, and
the components are laid out, get variables, and are set up. Then the heap is frozen, and what is
left are checks. -/
structure Assembly (extend : ExtensionSetup) (p : Profile)
    (enter : Drafting (ModelTree × Descriptor)) (contents : List Component)
    (providers : List DataVar) (validations : List Validation) (draft : Draft) (tree : Tree)
    (draft' : Draft) where
  model : ModelTree
  main : Descriptor
  entered : Draft
  provided : Draft
  laid : Tree
  registered : Draft
  equipped : Draft
  enters : enter.run draft = (.ok (model, main), entered)
  provides : (providers.forM registerProvider).run entered = (.ok (), provided)
  lays : Tree.ofDeclaration p model contents providers validations = .ok laid
  registers : (registerNodes laid.nodes).run provided = (.ok (), registered)
  equips : (setupNodes extend p.config laid.nodes).run registered = (.ok tree.nodes, equipped)
  index : tree.byName = laid.byName
  freezes : (onHeap Heap.finish).run equipped = (.ok (), draft')
  resolves : p.config.failOnUnresolved → draft'.unresolved = []
  checks : (checkChildren p main).run draft' = (.ok (), draft')

/-- A setup that succeeds has gone through all its steps. -/
theorem assembly_of_run {p : Profile} {enter : Drafting (ModelTree × Descriptor)}
    {contents : List Component} {providers : List DataVar} {validations : List Validation}
    {draft draft' : Draft} {tree : Tree}
    (hr : (assemble extend p enter contents providers validations).run draft = (.ok tree, draft')) :
    Nonempty (Assembly extend p enter contents providers validations draft tree draft') := by
  unfold assemble at hr
  obtain ⟨⟨model, main⟩, entered, henter, hr⟩ := Step.run_bind_ok hr
  obtain ⟨_, provided, hproviders, hr⟩ := Step.run_bind_ok hr
  obtain ⟨laid, outlined, hlaid, hr⟩ := Step.run_bind_ok hr
  obtain ⟨_, registered, hregister, hr⟩ := Step.run_bind_ok hr
  obtain ⟨nodes, equipped, hsetup, hr⟩ := Step.run_bind_ok hr
  obtain ⟨_, complete, hcomplete, hr⟩ := Step.run_bind_ok hr
  obtain ⟨_, frozen, hfinish, hr⟩ := Step.run_bind_ok hr
  dsimp only at hr
  obtain ⟨hdeclared, hsame⟩ := Step.run_ofExcept_ok hlaid
  rw [hsame] at hregister
  rw [(Step.run_ofExcept_ok hcomplete).2] at hfinish
  have hend : ∀ {d : Draft},
      (do checkChildren p main; pure ⟨nodes, laid.byName⟩ : Drafting Tree).run d =
        (.ok tree, draft') →
      draft' = d ∧ tree = ⟨nodes, laid.byName⟩ ∧ (checkChildren p main).run d = (.ok (), d) := by
    intro d h
    obtain ⟨_, d', hchecked, hrest⟩ := Step.run_bind_ok h
    have hkept := (checkChildren_ok hchecked).1
    cases hrest
    exact ⟨hkept, rfl, by rw [hkept] at hchecked; exact hchecked⟩
  have hafter : (p.config.failOnUnresolved → frozen.unresolved = []) ∧ draft' = frozen ∧
      tree = ⟨nodes, laid.byName⟩ ∧ (checkChildren p main).run frozen = (.ok (), frozen) := by
    split at hr
    · obtain ⟨_, _, hunresolved, hr⟩ := Step.run_bind_ok hr
      obtain ⟨hkept, hclean⟩ := checkUnresolved_ok hunresolved
      rw [hkept] at hr
      exact ⟨fun _ => hclean, hend hr⟩
    · rename_i hlenient
      exact ⟨fun hstrict => absurd hstrict hlenient, hend hr⟩
  obtain ⟨hclean, rfl, rfl, hchecked⟩ := hafter
  exact ⟨⟨model, main, entered, provided, laid, registered, equipped, henter, hproviders, hdeclared,
    hregister, hsetup, rfl, hfinish, hclean, hchecked⟩⟩

section Assembled

variable {p : Profile} {enter : Drafting (ModelTree × Descriptor)} {contents : List Component}
  {providers : List DataVar} {validations : List Validation} {draft draft' : Draft} {tree : Tree}
  (a : Assembly extend p enter contents providers validations draft tree draft')

include a

/-- Freezing the heap is the last change. -/
theorem Assembly.frozen_eq :
    draft' = { a.equipped with heap := { a.equipped.heap with finished := true } } := by
  obtain ⟨heap, hrun, hdraft⟩ := onHeap_ok a.freezes
  rcases Heap.finish_cases a.equipped.heap with ⟨e, he⟩ | ⟨_, he⟩ <;> rw [he] at hrun <;> cases hrun
  exact hdraft

end Assembled

/-- A container is set up when every step of it succeeds. -/
theorem run_assemble {p : Profile} {enter : Drafting (ModelTree × Descriptor)}
    {contents : List Component} {providers : List DataVar} {validations : List Validation}
    {draft entered provided registered equipped frozen checked draft' : Draft} {model : ModelTree}
    {main : Descriptor} {nodes : List Node} (laid : Tree)
    (henter : enter.run draft = (.ok (model, main), entered))
    (hproviders : (providers.forM registerProvider).run entered = (.ok (), provided))
    (hlaid : Tree.ofDeclaration p model contents providers validations = .ok laid)
    (hregister : (registerNodes laid.nodes).run provided = (.ok (), registered))
    (hsetup : (setupNodes extend p.config laid.nodes).run registered = (.ok nodes, equipped))
    (hfinish : (onHeap Heap.finish).run equipped = (.ok (), frozen))
    (hunresolved : (if p.config.failOnUnresolved then checkUnresolved else pure ()).run frozen =
      (.ok (), checked))
    (hchildren : (checkChildren p main).run checked = (.ok (), draft')) :
    (assemble extend p enter contents providers validations).run draft =
      (.ok ⟨nodes, laid.byName⟩, draft') := by
  have hcomplete : TreeOf.ensureFinished (⟨nodes, laid.byName⟩ : Tree) = .ok () :=
    TreeOf.ensureFinished_ok (finished_of_setupNodes hsetup)
  have hend : (do checkChildren p main; pure ⟨nodes, laid.byName⟩ : Drafting Tree).run checked =
      (.ok ⟨nodes, laid.byName⟩, draft') := by
    rw [Step.run_bind, hchildren]
    rfl
  simp only [assemble, Step.run_bind, henter, hproviders, hlaid, Step.run_ofExcept, hregister,
    hsetup, hcomplete, hfinish]
  split at hunresolved
  · rename_i hfail
    rw [if_pos hfail, Step.run_bind, hunresolved]
    exact hend
  · rename_i hfail
    cases hunresolved
    rw [if_neg hfail]
    exact hend

/-- The steps of a run make up the run. -/
theorem Assembly.run {p : Profile} {enter : Drafting (ModelTree × Descriptor)}
    {contents : List Component} {providers : List DataVar} {validations : List Validation}
    {draft draft' : Draft} {tree : Tree}
    (a : Assembly extend p enter contents providers validations draft tree draft') :
    (assemble extend p enter contents providers validations).run draft = (.ok tree, draft') := by
  have htree : tree = ⟨tree.nodes, a.laid.byName⟩ := by rw [← a.index]
  rw [htree]
  refine run_assemble a.laid a.enters a.provides a.lays a.registers a.equips a.freezes ?_ a.checks
  split
  · rename_i hfail
    rw [checkUnresolved, Step.run_bind, Step.run_get]
    dsimp only
    rw [a.resolves hfail]
    rfl
  · rfl

/-! ## The main model -/

theorem enterMain_ruleSet {p : Profile} (hrole : p.role = .ruleSet) (model : ModelTree)
    (link : Option (Attempt BoundModel (Descriptor × BoundVar))) :
    enterMain p (some model) link = registerTree p.name model := by
  unfold enterMain
  simp only [hrole]

theorem enterMain_extension {p : Profile} {owner : Option String}
    (hrole : p.role = .extension owner) (model : ModelTree)
    (link : Attempt BoundModel (Descriptor × BoundVar)) :
    enterMain p (some model) (some link) =
      enterExtension p.name link.subject model.nested link.outcome := by
  unfold enterMain
  simp only [hrole]

/-- A rule set is assembled with room for every extension inside it. -/
theorem setup_ruleSet {p : Profile} {model : ModelTree} {contents : List Component}
    {providers : List DataVar} {validations : List Validation} (hrole : p.role = .ruleSet) :
    (Container.mk p (.declared model contents providers validations)).setup =
      Container.conclude p ((assemble (Container.setupLevels (levelsOfAll contents + 1)) p
        (registerTree p.name model) contents providers validations).run (Draft.start p)) := by
  simp only [Container.setup, Container.profile, hrole, enterMain_ruleSet hrole]
  rfl

/-- Only a declared rule set is set up by itself. -/
theorem setup_ok {c c' : Container} (h : c.setup = (.ok (), c')) :
    ∃ p model contents providers validations,
      c = .mk p (.declared model contents providers validations) ∧ p.role = .ruleSet ∧
      Container.conclude p ((assemble (Container.setupLevels (levelsOfAll contents + 1)) p
        (registerTree p.name model) contents providers validations).run (Draft.start p)) =
          (.ok (), c') := by
  obtain ⟨p, phase⟩ := c
  rcases hrole : p.role with _ | owner
  · obtain ⟨model, contents, providers, validations⟩ | ⟨_, _⟩ | _ := phase
    · rw [setup_ruleSet hrole] at h
      exact ⟨p, model, contents, providers, validations, rfl, hrole, h⟩
    all_goals
      simp only [Container.setup, Container.profile, hrole] at h
      cases h
  · simp only [Container.setup, Container.profile, hrole] at h
    cases h

/-- A container that came out of setup without an error is finished, with the tree and the draft
that it was set up with. -/
theorem conclude_ok {p : Profile} {result : Except Error Tree × Draft} {c : Container}
    (h : Container.conclude p result = (.ok (), c)) :
    ∃ tree draft, result = (.ok tree, draft) ∧
      c = .mk { p with
        models := draft.models
        boundVariable := draft.boundVariable
        unresolved := draft.unresolved } (.finished draft.heap tree) := by
  obtain ⟨e | tree, draft⟩ := result
  · cases h
  · cases h
    exact ⟨tree, draft, rfl, rfl⟩

/-! ## Extensions in the container around them -/

theorem uses_bindOuter (container model : String) (e : Expression) (id : VarId) (h : Heap) :
    Heap.Uses h ((bindOuter container model e id).run h).2 := by
  rw [bindOuter, Step.run_bind, Heap.run_variableAt]
  rcases h.find? id with _ | v
  · exact .refl h
  dsimp only
  rcases v.descriptor? with _ | d
  · exact .refl h
  dsimp only
  rw [Step.run_bind, Step.run_ofExcept]
  rcases BoundModel.checkShape model d with _ | _
  · exact .refl h
  have hbound := Heap.uses_addBound id ⟨container, .models, model⟩ h
  simp only [Step.run_bind, Step.run_get]
  rcases hr : (Heap.addBound id ⟨container, .models, model⟩).run h with ⟨_ | _, h'⟩ <;>
    rw [hr] at hbound <;> exact hbound

theorem uses_linkOuter (container : String) (m : BoundModel) (outer : Heap) (hs : outer.Sound) :
    Heap.Uses outer (linkOuter container m outer).heap := by
  unfold linkOuter
  dsimp only
  split
  · rename_i e _
    split
    · exact .refl outer
    · have hsetup := Expression.uses_setup container e outer hs
      rcases (e.setup container outer).outcome with error | found | id
      · exact hsetup
      · exact hsetup
      · exact hsetup.trans (uses_bindOuter container m.name _ id _)
  · exact .refl outer

theorem linkOuter_name (container : String) (m : BoundModel) (outer : Heap) :
    (linkOuter container m outer).subject.name = m.name := by
  unfold linkOuter
  dsimp only
  split
  · split
    · rfl
    · split <;> rfl
  · rfl

/-- An extension is assembled like a rule set, in a heap of its own. Nothing but the link changes the
heap of the container around. -/
theorem setupInside_extension {config : Config} {p : Profile} {owner : Option String}
    (hrole : p.role = .extension owner) (model : ModelTree) (contents : List Component)
    (providers : List DataVar) (validations : List Validation) (outer : Heap) :
    Container.setupInside extend config (.mk p (.declared model contents providers validations))
      outer =
      let link := linkOuter p.name model.model outer
      let concluded := Container.conclude { p with config }
        ((assemble extend { p with config }
          (enterExtension p.name link.subject model.nested link.outcome)
          contents providers validations).run (Draft.start { p with config }))
      ⟨concluded.1, concluded.2, link.heap⟩ := by
  have henter := enterMain_extension (p := { p with config }) hrole model
    (linkOuter p.name model.model outer)
  simp only [Container.setupInside, Container.profile, hrole]
  rw [← hrole, henter]

/-- Only an extension is set up inside a container. -/
theorem role_of_setupInside {config : Config} {c : Container} {outer : Heap}
    (ho : (Container.setupInside extend config c outer).outcome = .ok ()) :
    ∃ owner, c.profile.role = .extension owner := by
  unfold Container.setupInside at ho
  rcases hrole : c.profile.role with _ | owner
  · rw [hrole] at ho
    cases ho
  · exact ⟨owner, rfl⟩

theorem setupInside_ok {config : Config} {p : Profile} {model : ModelTree}
    {contents : List Component} {providers : List DataVar} {validations : List Validation}
    {outer : Heap} {c : Container} (hc : c = .mk p (.declared model contents providers validations))
    (ho : (Container.setupInside extend config c outer).outcome = .ok ()) :
    (Container.setupInside extend config c outer).heap = (linkOuter p.name model.model outer).heap ∧
    Container.conclude { p with config }
      ((assemble extend { p with config }
        (enterExtension p.name (linkOuter p.name model.model outer).subject model.nested
          (linkOuter p.name model.model outer).outcome)
        contents providers validations).run (Draft.start { p with config })) =
      (.ok (), (Container.setupInside extend config c outer).subject) := by
  subst hc
  obtain ⟨owner, hrole⟩ : ∃ owner, p.role = .extension owner := role_of_setupInside ho
  rw [setupInside_extension hrole] at ho ⊢
  exact ⟨rfl, Prod.ext ho rfl⟩

/-- Extensions only use the heap of the container around, however deep they are nested. -/
theorem onlyUses_setupLevels (levels : Nat) : (Container.setupLevels levels).OnlyUses := by
  intro config c outer hs
  cases levels with
  | zero => exact .refl outer
  | succ n =>
    obtain ⟨p, phase⟩ := c
    rw [Container.setupLevels]
    rcases hrole : p.role with _ | owner
    · simp only [Container.setupInside, Container.profile, hrole]
      exact .refl outer
    · obtain ⟨model, contents, providers, validations⟩ | ⟨_, _⟩ | _ := phase
      · rw [setupInside_extension hrole]
        exact uses_linkOuter p.name model.model outer hs
      all_goals
        simp only [Container.setupInside, Container.profile, hrole]
        exact .refl outer

end Formwork
