-- Strict and lenient configurations. A strict one makes setup fail where an expression stays
-- unresolved, a lenient one only notes it. The two runs do the same until the strict one stops, and
-- it stops exactly where the lenient one has noted something: in the container itself, or in an
-- extension at any depth.
import Formwork.Proofs.Container.Links

namespace Formwork

open Drafting

/-! ## Two configurations, two containers -/

/-- The configuration under which what stays unresolved makes setup fail. -/
def Config.strict (config : Config) : Config := { config with failOnUnresolved := true }

/-- The configuration under which what stays unresolved is only noted. -/
def Config.lenient (config : Config) : Config := { config with failOnUnresolved := false }

mutual

/-- The container with another configuration, and so whatever it holds. Nothing else changes. -/
def Container.reconfigure (f : Config → Config) : Container → Container
  | .mk p phase => .mk { p with config := f p.config } (phase.reconfigure f)

/-- The phase of a container whose configuration changes. -/
def Phase.reconfigure (f : Config → Config) : Phase → Phase
  | .finished heap ⟨nodes, byName⟩ => .finished heap ⟨Node.reconfigureAll f nodes, byName⟩
  | phase => phase

/-- The nodes of a container whose configuration changes. -/
def Node.reconfigureAll (f : Config → Config) : List (NodeOf Part) → List (NodeOf Part)
  | [] => []
  | ⟨id, name, kind, owner, ownerName, children, some part, finished⟩ :: rest =>
    ⟨id, name, kind, owner, ownerName, children, some (part.reconfigure f), finished⟩ ::
      Node.reconfigureAll f rest
  | node :: rest => node :: Node.reconfigureAll f rest

/-- A part of a container whose configuration changes. Extensions take the change over. -/
def Part.reconfigure (f : Config → Config) : Part → Part
  | .extension c => .extension (c.reconfigure f)
  | part => part

end

/-- A node of a container whose configuration changes. -/
def Node.reconfigure (f : Config → Config) (node : Node) : Node :=
  { node with part := node.part.map (Part.reconfigure f) }

theorem Node.reconfigureAll_eq_map (f : Config → Config) (nodes : List Node) :
    reconfigureAll f nodes = nodes.map (reconfigure f) := by
  induction nodes with
  | nil => rw [reconfigureAll, List.map_nil]
  | cons node rest ih =>
    obtain ⟨id, name, kind, owner, ownerName, children, _ | part, finished⟩ := node
    · rw [reconfigureAll, ih, List.map_cons]
      · rfl
      · rintro _ _ _ _ _ _ _ _ ⟨⟩
    · rw [reconfigureAll, ih, List.map_cons]
      rfl

/-- Other parts than extensions have no configuration. -/
theorem Part.reconfigure_of_kind {part : Part} (f : Config → Config) (h : part.kind ≠ .extension) :
    part.reconfigure f = part := by
  cases part with
  | extension c => exact absurd rfl h
  | _ => rfl

/-! ## Nothing unresolved -/

/-- Nothing is unresolved in the container, nor in whatever it holds. -/
def Container.Clean (c : Container) : Prop := ∀ k, c.Holds k → k.profile.unresolved = []

/-- Nothing is unresolved in the extension at the node, if there is one. -/
def Node.Clean (node : Node) : Prop :=
  ∀ inner, node.part = some (.extension inner) → inner.Clean

theorem Container.clean_finished {p : Profile} {heap : Heap} {tree : Tree} :
    (Container.mk p (.finished heap tree)).Clean ↔
      p.unresolved = [] ∧ ∀ node ∈ tree.nodes, Node.Clean node := by
  constructor
  · intro hclean
    exact ⟨hclean _ (.self _), fun node hnode inner hinner k hk =>
      hclean k (.inside rfl hnode hinner hk)⟩
  · rintro ⟨hown, hnodes⟩ k hk
    cases hk with
    | self => exact hown
    | inside htree hnode hinner hk =>
      cases htree
      exact hnodes _ hnode _ hinner k hk

/-! ## Components -/

variable {extend : ExtensionSetup} {config : Config}

/-- A strict setup of an extension succeeds exactly if a lenient one does and leaves nothing
unresolved. Both leave the same behind, but for the configuration. -/
def ExtensionSetup.Filters (extend : ExtensionSetup) : Prop :=
  ∀ (config : Config) (c s : Container) (outer outer' : Heap),
    extend config.strict c outer = ⟨.ok (), s, outer'⟩ ↔
      ∃ l, extend config.lenient c outer = ⟨.ok (), l, outer'⟩ ∧ l.Clean ∧
        l.reconfigure Config.strict = s

theorem setupPart_filters (hextend : extend.Filters) {name : String} {part s : Part}
    {draft draft' : Draft} :
    (setupPart extend config.strict name part).run draft = (.ok s, draft') ↔
      ∃ l, (setupPart extend config.lenient name part).run draft = (.ok l, draft') ∧
        (∀ inner, l = .extension inner → inner.Clean) ∧ l.reconfigure Config.strict = s := by
  by_cases hkind : part.kind = .extension
  · cases part <;> cases hkind
    simp only [setupPart_extension_iff]
    constructor
    · rintro ⟨s', outer, hs, rfl, rfl⟩
      obtain ⟨l, hl, hclean, rfl⟩ := (hextend config _ s' draft.heap outer).1 hs
      refine ⟨.extension l, ⟨l, outer, hl, rfl, rfl⟩, ?_, rfl⟩
      rintro inner ⟨⟩
      exact hclean
    · rintro ⟨_, ⟨l, outer, hl, rfl, rfl⟩, hclean, rfl⟩
      exact ⟨_, outer, (hextend config _ _ draft.heap outer).2 ⟨l, hl, hclean l rfl, rfl⟩, rfl, rfl⟩
  · have hlenient : setupPart extend config.lenient name part =
        setupPart extend config.strict name part := setupPart_of_kind hkind rfl
    rw [hlenient]
    have hother : ∀ {l : Part}, (setupPart extend config.strict name part).run draft =
        (.ok l, draft') → l.kind ≠ .extension := fun hr => by
      rw [setupPart_kind hr]
      exact hkind
    constructor
    · intro hr
      refine ⟨s, hr, ?_, Part.reconfigure_of_kind _ (hother hr)⟩
      rintro inner rfl
      exact absurd rfl (hother hr)
    · rintro ⟨l, hr, _, rfl⟩
      rw [Part.reconfigure_of_kind _ (hother hr)]
      exact hr

theorem setupNode_filters (hextend : extend.Filters) {node s : Node} (hun : node.finished = false)
    {draft draft' : Draft} :
    (setupNode extend config.strict node).run draft = (.ok s, draft') ↔
      ∃ l, (setupNode extend config.lenient node).run draft = (.ok l, draft') ∧ Node.Clean l ∧
        Node.reconfigure Config.strict l = s := by
  rcases hpart : node.part with _ | part
  · have hclean : Node.Clean { node with finished := true } := by
      intro inner hinner
      rw [show node.part = some _ from hinner] at hpart
      cases hpart
    have hsame : Node.reconfigure Config.strict { node with finished := true } =
        { node with finished := true } := by
      simp only [Node.reconfigure, hpart, Option.map_none]
    rw [setupNode_none hun hpart, setupNode_none hun hpart]
    constructor
    · intro hr
      cases hr
      exact ⟨_, rfl, hclean, hsame⟩
    · rintro ⟨l, hr, _, rfl⟩
      cases hr
      rw [hsame]
      rfl
  · simp only [setupNode_some_iff hun hpart]
    constructor
    · rintro ⟨s', hs, rfl⟩
      obtain ⟨l, hl, hclean, rfl⟩ := (setupPart_filters hextend).1 hs
      refine ⟨{ node with part := some l, finished := true }, ⟨l, hl, rfl⟩, ?_, rfl⟩
      rintro inner ⟨⟩
      exact hclean inner rfl
    · rintro ⟨_, ⟨l, hl, rfl⟩, hclean, rfl⟩
      refine ⟨_, (setupPart_filters hextend).2 ⟨l, hl, ?_, rfl⟩, rfl⟩
      rintro inner rfl
      exact hclean inner rfl

theorem setupNodes_filters (hextend : extend.Filters) {nodes ss : List Node}
    (hun : ∀ node ∈ nodes, node.finished = false) {draft draft' : Draft} :
    (setupNodes extend config.strict nodes).run draft = (.ok ss, draft') ↔
      ∃ ls, (setupNodes extend config.lenient nodes).run draft = (.ok ls, draft') ∧
        (∀ l ∈ ls, Node.Clean l) ∧ ls.map (Node.reconfigure Config.strict) = ss := by
  induction nodes generalizing ss draft with
  | nil =>
    constructor
    · intro hr
      cases hr
      exact ⟨[], rfl, List.forall_mem_nil _, rfl⟩
    · rintro ⟨ls, hr, _, rfl⟩
      cases hr
      rfl
  | cons node rest ih =>
    obtain ⟨hfirst, hunRest⟩ := List.forall_mem_cons.1 hun
    simp only [setupNodes, Step.run_bind_eq_ok]
    constructor
    · rintro ⟨s, draft₁, hs, srest, draft₂, hrest, hr⟩
      cases hr
      obtain ⟨l, hl, hclean, rfl⟩ := (setupNode_filters hextend hfirst).1 hs
      obtain ⟨lrest, hlrest, hcleans, rfl⟩ := (ih hunRest).1 hrest
      exact ⟨l :: lrest, ⟨l, draft₁, hl, lrest, draft', hlrest, rfl⟩,
        List.forall_mem_cons.2 ⟨hclean, hcleans⟩, rfl⟩
    · rintro ⟨_, ⟨l, draft₁, hl, lrest, draft₂, hlrest, hr⟩, hcleans, rfl⟩
      cases hr
      obtain ⟨hclean, hcleans⟩ := List.forall_mem_cons.1 hcleans
      exact ⟨_, draft₁, (setupNode_filters hextend hfirst).2 ⟨l, hl, hclean, rfl⟩, _, draft',
        (ih hunRest).2 ⟨lrest, hlrest, hcleans, rfl⟩, rfl⟩

/-! ## Containers -/

variable {p : Profile} {enter : Drafting (ModelTree × Descriptor)} {contents : List Component}
  {providers : List DataVar} {validations : List Validation}

theorem assemble_filters (hextend : extend.Filters) {draft draft' : Draft} {s : Tree} :
    (assemble extend { p with config := config.strict } enter contents providers validations).run
        draft = (.ok s, draft') ↔
      ∃ l, (assemble extend { p with config := config.lenient } enter contents providers
          validations).run draft = (.ok l, draft') ∧
        draft'.unresolved = [] ∧ (∀ node ∈ l.nodes, Node.Clean node) ∧
        ⟨l.nodes.map (Node.reconfigure Config.strict), l.byName⟩ = s := by
  constructor
  · intro hr
    obtain ⟨a⟩ := assembly_of_run hr
    obtain ⟨ls, hequips, hcleans, hsame⟩ := (setupNodes_filters hextend
      fun _ hnode => Tree.unfinished_of_mem a.lays hnode).1 a.equips
    let a' : Assembly extend { p with config := config.lenient } enter contents providers
        validations draft ⟨ls, s.byName⟩ draft' :=
      { a with
        equips := hequips
        index := a.index
        resolves := fun h => absurd h Bool.false_ne_true }
    exact ⟨_, a'.run, a.resolves rfl, hcleans, congrArg (TreeOf.mk · s.byName) hsame⟩
  · rintro ⟨l, hr, hclean, hcleans, rfl⟩
    obtain ⟨a⟩ := assembly_of_run hr
    let a' : Assembly extend { p with config := config.strict } enter contents providers validations
        draft ⟨l.nodes.map (Node.reconfigure Config.strict), l.byName⟩ draft' :=
      { a with
        equips := (setupNodes_filters hextend
          fun _ hnode => Tree.unfinished_of_mem a.lays hnode).2 ⟨l.nodes, a.equips, hcleans, rfl⟩
        index := a.index
        resolves := fun _ => hclean }
    exact a'.run

/-- What stays unresolved is noted in the container, and what is inside it notes its own. -/
theorem conclude_filters (hextend : extend.Filters) {s : Container} :
    Container.conclude { p with config := config.strict }
        ((assemble extend { p with config := config.strict } enter contents providers
          validations).run (Draft.start { p with config := config.strict })) = (.ok (), s) ↔
      ∃ l, Container.conclude { p with config := config.lenient }
          ((assemble extend { p with config := config.lenient } enter contents providers
            validations).run (Draft.start { p with config := config.lenient })) = (.ok (), l) ∧
        l.Clean ∧ l.reconfigure Config.strict = s := by
  have hreconfigured : ∀ (draft : Draft) (tree : Tree), ∀ {p' : Profile},
      p' = { p with
        config := config.lenient
        models := draft.models
        boundVariable := draft.boundVariable
        unresolved := draft.unresolved } →
      (Container.mk p' (.finished draft.heap tree)).reconfigure Config.strict =
        .mk { p' with config := config.strict }
          (.finished draft.heap
            ⟨tree.nodes.map (Node.reconfigure Config.strict), tree.byName⟩) := by
    rintro draft tree _ rfl
    rw [Container.reconfigure, Phase.reconfigure, Node.reconfigureAll_eq_map]
    rfl
  constructor
  · intro hs
    obtain ⟨tree, draft, hr, rfl⟩ := conclude_ok hs
    obtain ⟨l, hl, hclean, hcleans, rfl⟩ := (assemble_filters hextend).1 hr
    refine ⟨_, congrArg (Container.conclude _) hl, ?_, ?_⟩
    · exact Container.clean_finished.2 ⟨hclean, hcleans⟩
    · exact hreconfigured draft l rfl
  · rintro ⟨_, hl, hclean, rfl⟩
    obtain ⟨tree, draft, hr, rfl⟩ := conclude_ok hl
    obtain ⟨hclean, hcleans⟩ := Container.clean_finished.1 hclean
    have hs := (assemble_filters hextend).2 ⟨tree, hr, hclean, hcleans, rfl⟩
    rw [hreconfigured draft tree rfl]
    exact congrArg (Container.conclude _) hs

theorem setupInside_filters (hextend : extend.Filters) :
    ExtensionSetup.Filters (Container.setupInside extend) := by
  intro config c s outer outer'
  have hfails : ∀ {c c' : Container} {e e' : Error} {h h' : Heap},
      (⟨.error e, c, h⟩ : Attempt Container Unit) = ⟨.ok (), s, outer'⟩ ↔
        ∃ l, (⟨.error e', c', h'⟩ : Attempt Container Unit) = ⟨.ok (), l, outer'⟩ ∧ l.Clean ∧
          l.reconfigure Config.strict = s := by
    simp
  obtain ⟨p, phase⟩ := c
  rcases hrole : p.role with _ | owner
  · simp only [Container.setupInside, Container.profile, hrole]
    exact hfails
  obtain ⟨model, contents, providers, validations⟩ | ⟨_, _⟩ | _ := phase
  · -- The link to the container around is made before the configuration matters.
    have hattempt : ∀ (config' : Config) (k : Container),
        Container.setupInside extend config'
            (.mk p (.declared model contents providers validations)) outer = ⟨.ok (), k, outer'⟩ ↔
          (linkOuter p.name model.model outer).heap = outer' ∧
          Container.conclude { p with config := config' }
            ((assemble extend { p with config := config' }
              (enterExtension p.name (linkOuter p.name model.model outer).subject model.nested
                (linkOuter p.name model.model outer).outcome)
              contents providers validations).run (Draft.start { p with config := config' })) =
            (.ok (), k) := by
      intro config' k
      rw [setupInside_extension hrole, Attempt.mk.injEq, Prod.ext_iff]
      tauto
    simp only [hattempt, conclude_filters hextend, and_assoc, exists_and_left]
  all_goals
    simp only [Container.setupInside, Container.profile, hrole]
    exact hfails

/-- However deep extensions are nested, a strict setup filters what a lenient one does. -/
theorem setupLevels_filters (levels : Nat) : (Container.setupLevels levels).Filters := by
  induction levels with
  | zero =>
    intro config c s outer outer'
    constructor
    · intro h
      cases h
    · rintro ⟨_, h, _⟩
      cases h
  | succ n ih =>
    rw [Container.setupLevels]
    exact setupInside_filters ih

/-- Failing on what stays unresolved only filters. A strict setup succeeds exactly if a lenient one
does and leaves nothing unresolved, neither in the rule set nor in any extension inside it, at any
depth. Both then leave the same container behind, but for the configuration that they note. -/
theorem failing_on_unresolved_only_filters (c s : Container) (config : Config) :
    (c.withConfig config.strict).setup = (.ok (), s) ↔
      ∃ l, (c.withConfig config.lenient).setup = (.ok (), l) ∧
        (∀ k, l.Holds k → k.profile.unresolved = []) ∧ l.reconfigure Config.strict = s := by
  have hfails : ∀ (e e' : Error) (c c' : Container),
      ((.error e, c) : Except Error Unit × Container) = (.ok (), s) ↔
        ∃ l, ((.error e', c') : Except Error Unit × Container) = (.ok (), l) ∧
          (∀ k, l.Holds k → k.profile.unresolved = []) ∧ l.reconfigure Config.strict = s := by
    intro e e' c c'
    simp
  obtain ⟨p, phase⟩ := c
  rcases hrole : p.role with _ | owner
  · rcases phase with ⟨model, contents, providers, validations⟩ | ⟨_, _⟩ | _
    · rw [Container.withConfig, Container.withConfig,
        setup_ruleSet (p := { p with config := config.strict }) hrole,
        setup_ruleSet (p := { p with config := config.lenient }) hrole]
      exact conclude_filters (setupLevels_filters _)
    · simp only [Container.setup, Container.withConfig, Container.profile, hrole]
      exact hfails _ _ _ _
    · simp only [Container.setup, Container.withConfig, Container.profile, hrole]
      exact hfails _ _ _ _
  · simp only [Container.setup, Container.withConfig, Container.profile, hrole]
    exact hfails _ _ _ _

/-- An office whose board keeps minutes, though there is no secretary. -/
def Container.minutedOffice : Container :=
  let minuted : Validation := ⟨"minuted", .ofModels "secretary" [], "Minutes are missing", none⟩
  .mk .sample (.declared .sample [.leaf (.extension (board.declaring [] [] [minuted]))] [] [])

/-- The rule of the board stays unresolved, so that the strict setup of the office fails. -/
theorem failing_on_unresolved_only_filters_an_office :
    (∃ l, (Container.minutedOffice.withConfig Config.standard.lenient).setup = (.ok (), l)) ∧
      ¬ ∃ s, (Container.minutedOffice.withConfig Config.standard.strict).setup = (.ok (), s) := by
  have hok : (Container.minutedOffice.withConfig Config.standard.lenient).setup.1.isOk := by
    decide +kernel
  have hnoted : (Container.minutedOffice.withConfig Config.standard.lenient).setup.2.extensions.map
      (·.profile.unresolved.map (·.expression)) = [["Models.secretary"]] := by
    decide +kernel
  constructor
  · generalize (Container.minutedOffice.withConfig Config.standard.lenient).setup = result at hok
    obtain ⟨_ | ⟨⟩, l⟩ := result
    · cases hok
    · exact ⟨l, rfl⟩
  · rintro ⟨s, hs⟩
    obtain ⟨l, hl, hclean, _⟩ :=
      (failing_on_unresolved_only_filters Container.minutedOffice s Config.standard).1 hs
    rw [hl] at hnoted
    obtain ⟨board, hboard, hunresolved⟩ := List.map_eq_singleton_iff.1 hnoted
    have hmem : board ∈ l.extensions := by rw [hboard]; exact List.mem_singleton_self board
    obtain ⟨tree, node, htree, hnode, hpart⟩ := Container.mem_extensions hmem
    rw [hclean board (.inside htree hnode hpart (.self board))] at hunresolved
    cases hunresolved

end Formwork
