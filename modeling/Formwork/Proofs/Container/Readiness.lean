-- No unresolved expression escapes a strict setup. When a rule set is set up with a configuration
-- that fails on what stays unresolved, then in it and in all extensions inside it every expression
-- is resolved, but for the attributes of choices whose shape is not known: these nobody sets up.
import Formwork.Proofs.Component.Settling
import Formwork.Proofs.Container.Strictness

namespace Formwork

open Drafting

/-! ## Models -/

/-- The expression that leads to a model. -/
def ModelSource.leads : ModelSource → List Expression
  | .expression e => [e]
  | _ => []

/-- The expressions that lead to the models are resolved, and those of their functions were never
set up. -/
structure Located (models : List BoundModel) : Prop where
  leads : ∀ m ∈ models, AllReady m.source.leads
  injected : ∀ m ∈ models, AllFresh m.source.injected

theorem Located.append {models more : List BoundModel} (h : Located models) (h' : Located more) :
    Located (models ++ more) :=
  ⟨List.forall_mem_append.2 ⟨h.leads, h'.leads⟩,
    List.forall_mem_append.2 ⟨h.injected, h'.injected⟩⟩

theorem Located.singleton {m : BoundModel} (hleads : AllReady m.source.leads)
    (hinjected : AllFresh m.source.injected) : Located [m] :=
  ⟨List.forall_mem_singleton.2 hleads, List.forall_mem_singleton.2 hinjected⟩

/-- An expression whose setup has found a variable can be read. -/
theorem Expression.ready_of_found {owner : String} {e : Expression} {h : Heap} {id : VarId}
    (ho : (e.setup owner h).outcome = .ok (some id)) : (e.setup owner h).subject.Ready := by
  obtain ⟨hiff, _⟩ := Expression.setup_found owner e h (some id) ho
  exact Expression.ready_setup owner e h (some id) ho (hiff.1 rfl).2

theorem registerModel_located {container : String} {m m' : BoundModel} {d : Descriptor}
    {draft draft' : Draft} (hr : (registerModel container m).run draft = (.ok (m', d), draft'))
    (hfresh : AllFresh m.source.injected) : Located [m'] := by
  unfold registerModel at hr
  rw [Step.run_bind, Step.run_get] at hr
  dsimp only at hr
  simp only [throw_bind] at hr
  split at hr
  · cases hr
  split at hr
  · obtain ⟨⟨e, descriptor, id⟩, draft₁, hpointer, hr⟩ := Step.run_bind_ok hr
    obtain ⟨v, heap, _, ho, rfl, _⟩ := registerPointer_ok hpointer
    cases hr
    exact .singleton (List.forall_mem_singleton.2 (Expression.ready_of_found ho))
      (List.forall_mem_nil _)
  · rename_i hsource
    obtain ⟨declared, draft₁, hdeclared, hr⟩ := Step.run_bind_ok hr
    obtain ⟨_, rfl⟩ := Step.run_ofExcept_ok hdeclared
    rcases declared with _ | descriptor
    · cases hr
    dsimp only at hr
    obtain ⟨id, draft₂, hadd, hr⟩ := Step.run_bind_ok hr
    cases hr
    refine .singleton ?_ hfresh
    rcases hkind : m.source with type | e | ⟨load, save⟩
    · exact List.forall_mem_nil _
    · exact absurd hkind (hsource e)
    · exact List.forall_mem_nil _

mutual

theorem registerTree_located {container : String} {draft draft' : Draft} {tree' : ModelTree}
    {d : Descriptor} : ∀ {tree : ModelTree},
    (registerTree container tree).run draft = (.ok (tree', d), draft') →
    (∀ m ∈ tree.all, AllFresh m.source.injected) → Located tree'.all
  | .node m nested, hr, hfresh => by
    unfold registerTree at hr
    obtain ⟨⟨m', d⟩, draft₁, hm, hr⟩ := Step.run_bind_ok hr
    obtain ⟨nested', draft₂, hnested, hr⟩ := Step.run_bind_ok hr
    cases hr
    obtain ⟨hfirst, hrest⟩ := List.forall_mem_cons.1 hfresh
    exact (registerModel_located hm hfirst).append (registerTrees_located hnested hrest)

theorem registerTrees_located {container : String} {draft draft' : Draft}
    {trees' : List ModelTree} : ∀ {trees : List ModelTree},
    (registerTrees container trees).run draft = (.ok trees', draft') →
    (∀ m ∈ ModelTree.allOf trees, AllFresh m.source.injected) →
    Located (ModelTree.allOf trees')
  | [], hr, _ => by
    cases hr
    exact ⟨List.forall_mem_nil _, List.forall_mem_nil _⟩
  | tree :: rest, hr, hfresh => by
    unfold registerTrees at hr
    obtain ⟨⟨first, d⟩, draft₁, htree, hr⟩ := Step.run_bind_ok hr
    obtain ⟨others, draft₂, hrest, hr⟩ := Step.run_bind_ok hr
    cases hr
    obtain ⟨hfirst, hothers⟩ := List.forall_mem_append.1 hfresh
    exact (registerTree_located htree hfirst).append (registerTrees_located hrest hothers)

end

/-- The main model of an extension that is linked is led to by a resolved expression. -/
theorem linkOuter_ready {container : String} {m : BoundModel} {h : Heap}
    {result : Descriptor × BoundVar} (ho : (linkOuter container m h).outcome = .ok result) :
    ∃ e : Expression, (linkOuter container m h).subject.source = .expression e ∧ e.Ready := by
  unfold linkOuter at ho ⊢
  rcases hsource : m.source with declared | e | ⟨load, save⟩ <;> simp only [hsource] at ho ⊢
  · cases ho
  · by_cases hns : e.ns ≠ .models
    · rw [if_pos hns] at ho
      cases ho
    · rw [if_neg hns] at ho ⊢
      rcases hsetup : (e.setup container h).outcome with error | found | id <;>
        simp only [hsetup] at ho ⊢
      · cases ho
      · cases ho
      · exact ⟨_, rfl, Expression.ready_of_found hsetup⟩
  · cases ho

/-- However the models of a container come in, they are located. -/
theorem Enters.located {p : Profile} {model model' : ModelTree}
    {enter : Drafting (ModelTree × Descriptor)} (h : Enters p model enter) {d : Descriptor}
    {draft : Draft} (hr : enter.run (Draft.start p) = (.ok (model', d), draft))
    (hfresh : ∀ m ∈ model.all, AllFresh m.source.injected) :
    Located model'.all := by
  cases h with
  | ruleSet => exact registerTree_located hr hfresh
  | extension m nested outer =>
    obtain ⟨d', bound, id, draft₁, nested', hlink, hresult, _, hnested⟩ := enterExtension_ok hr
    obtain ⟨e, hsource, hready⟩ := linkOuter_ready hlink
    cases hresult
    obtain ⟨_, hrest⟩ := List.forall_mem_cons.1 hfresh
    refine Located.append (.singleton ?_ ?_) (registerTrees_located hnested hrest)
    · rw [hsource]
      exact List.forall_mem_singleton.2 hready
    · rw [hsource]
      exact List.forall_mem_nil _

/-! ## Declarations -/

/-- None of the expressions of the part was set up yet, nor an attribute of its choices. -/
structure Part.Fresh (part : Part) : Prop where
  expressions : AllFresh part.expressions
  attributes : AllFresh part.attributes

/-- The container is declared from expressions that were never set up, and so are the extensions
declared inside it. -/
inductive Container.Fresh : Container → Prop where
  | declared {p : Profile} {model : ModelTree} {contents : List Component}
    {providers : List DataVar} {validations : List Validation} :
    (∀ owner, ∀ entry ∈ Component.preorderAll owner
      (Tree.components p model contents providers validations), entry.2.Fresh) →
    (∀ owner, ∀ entry ∈ Component.preorderAll owner contents, ∀ inner,
      entry.2 = .extension inner → Fresh inner) →
    Fresh (.mk p (.declared model contents providers validations))

theorem inherited_fresh : Inherited Container.Fresh where
  config config hfresh := by
    cases hfresh with
    | declared hparts hinside => exact .declared hparts hinside
  inside hfresh entry he _ c howned := by
    cases hfresh with
    | declared _ hinside =>
      obtain ⟨p, phase, hpart, rfl⟩ := Part.eq_extension_of_ownedBy howned
      cases hinside _ entry he _ hpart with
      | declared hparts hinside' => exact .declared hparts hinside'

/-- Taking a part over changes none of its expressions. -/
theorem Part.Fresh.ownedBy {part : Part} (hfresh : part.Fresh) (owner : String) :
    (part.ownedBy owner).Fresh := by
  cases part with
  | extension c =>
    obtain ⟨p, phase⟩ := c
    exact ⟨List.forall_mem_nil _, List.forall_mem_nil _⟩
  | cardinality check => exact ⟨List.forall_mem_nil _, List.forall_mem_nil _⟩
  | unique check => exact ⟨List.forall_mem_nil _, List.forall_mem_nil _⟩
  | _ => exact hfresh

/-- The names in the tree of a container are those of its components, each once. -/
theorem Tree.nodup_ofDeclaration {p : Profile} {model : ModelTree} {contents : List Component}
    {providers : List DataVar} {validations : List Validation} {t : Tree}
    (h : ofDeclaration p model contents providers validations = .ok t) :
    (namesOf (Component.preorderAll p.name
      (components p model contents providers validations))).Nodup := by
  obtain ⟨_, hextends⟩ := ofDeclaration_extends h
  have hnodup := hextends.inStep.names
  rw [hextends.names (receives_ofRole p.name p.role).inStep] at hnodup
  exact (List.nodup_append.1 hnodup).2.1

/-- What a container declares besides its models. -/
def Tree.others (p : Profile) (contents : List Component) (providers : List DataVar)
    (validations : List Validation) : List Component :=
  ((p.cardinality.toList.map fun check => Component.leaf (.cardinality check)) ++
    p.uniques.map fun check => Component.leaf (.unique check)) ++
    contents ++ providers.map (fun d => Component.leaf (.dataVar d)) ++
    validations.map Component.ofValidation

theorem Tree.preorderAll_components (owner : String) (p : Profile) (model : ModelTree)
    (contents : List Component) (providers : List DataVar) (validations : List Validation) :
    Component.preorderAll owner (components p model contents providers validations) =
      (Component.ofModel model).preorder owner ++
        Component.preorderAll owner (others p contents providers validations) := by
  have hsplit : components p model contents providers validations =
      Component.ofModel model :: others p contents providers validations := by
    simp only [components, others, List.append_assoc, List.cons_append, List.nil_append]
  rw [hsplit, Component.preorderAll]

/-! ## Containers -/

/-- A model in the tree comes from one with its name, which the same expression leads to. -/
theorem setupPart_model {extend : ExtensionSetup} {config : Config} {name : String} {part : Part}
    {m : BoundModel} {draft draft' : Draft}
    (hr : (setupPart extend config name part).run draft = (.ok (.model m), draft')) :
    ∃ m₀, part = .model m₀ ∧ m.name = m₀.name ∧ m.source.leads = m₀.source.leads := by
  have hkind := setupPart_kind hr
  cases part <;> cases hkind
  rename_i m₀
  obtain ⟨m', _, hmodel, hr⟩ := Step.run_bind_ok hr
  cases hr
  refine ⟨m₀, rfl, ?_⟩
  unfold setupModel at hmodel
  rcases hsource : m₀.source with declared | e | ⟨load, save⟩ <;> rw [hsource] at hmodel <;>
    dsimp only at hmodel
  · cases hmodel
    exact ⟨rfl, by rw [hsource]⟩
  · cases hmodel
    exact ⟨rfl, by rw [hsource]⟩
  · obtain ⟨_, _, _, hmodel⟩ := Step.run_bind_ok hmodel
    obtain ⟨_, _, _, hmodel⟩ := Step.run_bind_ok hmodel
    cases hmodel
    exact ⟨rfl, rfl⟩

theorem Part.eq_model_of_ownedBy {owner : String} {part : Part} {m : BoundModel}
    (h : part.ownedBy owner = .model m) : part = .model m := by
  have hkind : part.kind = .model := by
    rw [← Part.kind_ownedBy owner, h]
    rfl
  cases part <;> cases hkind
  cases h
  rfl

section Assembled

variable {levels : Nat} {p : Profile} {model : ModelTree}
  {enter : Drafting (ModelTree × Descriptor)} {contents : List Component}
  {providers : List DataVar} {validations : List Validation} {draft : Draft} {tree : Tree}
  (a : Assembly (Container.setupLevels levels) p enter contents providers validations
    (Draft.start p) tree draft)
  (henter : Enters p model enter)
  (hfresh : ∀ entry ∈ Component.preorderAll p.name
    (Tree.components p model contents providers validations), entry.2.Fresh)

include a henter hfresh

/-- The models that were entered are located. -/
theorem Assembly.located : Located a.model.all := by
  apply henter.located a.enters
  intro m hm
  have hpart : Part.model m ∈ ((Component.ofModel model).preorder p.name).map Prod.snd := by
    rw [Component.preorder_ofModel]
    exact List.mem_map_of_mem hm
  obtain ⟨entry, he, hmodel⟩ := List.mem_map.1 hpart
  have hentry : entry.2.Fresh := by
    apply hfresh
    rw [Tree.preorderAll_components]
    exact List.mem_append_left _ he
  rw [hmodel] at hentry
  exact hentry.expressions

/-- What is laid out was never set up before, but for the expressions that lead to models. -/
theorem Assembly.laid_fresh {entry : String × Part} (he : entry ∈ Component.preorderAll p.name
    (Tree.components p a.model contents providers validations)) : entry.2.Fresh := by
  rw [Tree.preorderAll_components] at he
  rcases List.mem_append.1 he with hmodel | hother
  · obtain ⟨m, hm, hpart⟩ := Component.mem_preorder_ofModel hmodel
    rw [hpart]
    exact ⟨(a.located henter hfresh).injected m hm, List.forall_mem_nil _⟩
  · apply hfresh
    rw [Tree.preorderAll_components]
    exact List.mem_append_right _ hother

/-- Under a strict configuration, every part in the tree has all its expressions resolved, the
attributes of choices as far as the shape of the choices is known. -/
theorem Assembly.expressions_ready (hstrict : p.config.failOnUnresolved) {node : Node}
    (hnode : node ∈ tree.nodes) {part : Part} (hpart : node.part = some part) :
    AllReady part.expressions ∧
      ∀ spec, part.choices? = some spec → spec.Settled draft.heap := by
  have hstaged := a.staged henter
  obtain ⟨node₀, source, d, d', hnode₀, hsource, hbefore, hafter, _, hrun⟩ :=
    hstaged.part_ok hnode hpart
  obtain ⟨entry, he, _, howned⟩ := Tree.declared_of_mem a.lays hnode₀ hsource
  have hdeclared : source.Fresh := howned ▸ (a.laid_fresh henter hfresh he).ownedBy entry.1
  have hclean : d'.unresolved = [] := by
    have hprefix := hafter.unresolved
    have hfrozen := congrArg Draft.unresolved a.frozen_eq
    rw [a.resolves hstrict] at hfrozen
    rw [← hfrozen] at hprefix
    exact List.prefix_nil.1 hprefix
  have hfinal : Heap.Accrues d'.heap draft.heap := by
    rw [congrArg Draft.heap a.frozen_eq]
    exact hafter.heap.accrues.trans (.frozen _)
  have hsettles : Settles draft.heap _ _ :=
    settles_setupPart (onlyUses_setupLevels levels) p.config node₀.name source
  exact hsettles.ensures (hbefore.heap.sound hstaged.sound)
    (hstaged.canonical.builds hbefore.heap) hrun hclean hfinal hdeclared.expressions
    hdeclared.attributes

/-- Every noted model that an expression leads to has that expression resolved: no other component
has the name of a noted model. -/
theorem Assembly.leads_ready {node : Node} (hnode : node ∈ tree.nodes) {m : BoundModel}
    (hpart : node.part = some (.model m)) (hnoted : draft.models.has m.name) :
    AllReady m.source.leads := by
  have hstaged := a.staged henter
  obtain ⟨node₀, source, d, d', hnode₀, hsource, _, _, _, hrun⟩ := hstaged.part_ok hnode hpart
  obtain ⟨m₀, rfl, hname, hleads⟩ := setupPart_model hrun
  obtain ⟨⟨owner, part⟩, he, _, howned⟩ := Tree.declared_of_mem a.lays hnode₀ hsource
  obtain rfl : part = .model m₀ := Part.eq_model_of_ownedBy howned
  have hnodup := Tree.nodup_ofDeclaration a.lays
  rw [Tree.preorderAll_components] at he hnodup
  rw [hleads]
  rcases List.mem_append.1 he with hmodel | hother
  · obtain ⟨m₁, hm₁, hsame⟩ := Component.mem_preorder_ofModel hmodel
    cases hsame
    exact (a.located henter hfresh).leads m₀ hm₁
  · -- The model that was noted under the name stands in the tree too.
    have hmodels : draft.models = a.entered.models := hstaged.models_eq
    have hkeys : a.entered.models.keys = a.model.all.map (·.name) :=
      (henter.enrolls a.enters).1.keys
    rw [hmodels, Ordered.has_iff_mem_keys, hkeys, hname] at hnoted
    obtain ⟨m₁, hm₁, hsame⟩ := List.mem_map.1 hnoted
    have hpart₁ := List.mem_map_of_mem (f := Part.model) hm₁
    rw [← Component.preorder_ofModel p.name] at hpart₁
    obtain ⟨⟨owner₁, part₁⟩, he₁, hmodel₁⟩ := List.mem_map.1 hpart₁
    cases hmodel₁
    rw [namesOf, List.map_append] at hnodup
    have hfirst := List.mem_map_of_mem (f := fun e : String × Part => e.2.nameIn e.1) he₁
    have hsecond := List.mem_map_of_mem (f := fun e : String × Part => e.2.nameIn e.1) hother
    exact absurd hsame ((List.nodup_append.1 hnodup).2.2 _ hfirst _ hsecond)

end Assembled

/-! ## The configuration of extensions -/

namespace Container

theorem conclude_config {p : Profile} {result : Except Error Tree × Draft} {c : Container}
    (h : conclude p result = (.ok (), c)) : c.profile.config = p.config := by
  obtain ⟨_, _, _, rfl⟩ := conclude_ok h
  rfl

/-- Setup keeps the configuration of a rule set. -/
theorem setup_config {c c' : Container} (h : c.setup = (.ok (), c')) :
    c'.profile.config = c.profile.config := by
  obtain ⟨_, _, _, _, _, rfl, _, hrun⟩ := setup_ok h
  exact conclude_config hrun

/-- An extension takes the configuration of the container around it over. -/
theorem Assembled.extension_config {D : Container → Prop} {c inner : Container}
    (hc : Assembled D c) {tree : Tree} (htree : c.tree? = some tree) {node : Node}
    (hnode : node ∈ tree.nodes) (hinner : node.part = some (.extension inner)) :
    inner.profile.config = c.profile.config := by
  obtain ⟨_, henter, h⟩ := hc
  obtain ⟨_, _, _, _, _, tree', hstaged⟩ := staged_of_conclude henter h
  obtain rfl : tree' = tree := Option.some.inj (hstaged.tree?_eq.symm.trans htree)
  obtain ⟨_, _, _, c₀, d, _, _, _, _, _, ho, rfl⟩ := hstaged.extension_ok hnode hinner
  obtain ⟨_, _, _, _, _, _, _, rfl, rfl, _, hrun⟩ := setupLevels_ok ho
  rw [conclude_config hrun, conclude_config h]

theorem Assembled.holds_config {D : Container → Prop} (hD : Inherited D) {c k : Container}
    (hc : Assembled D c) (hk : c.Holds k) : k.profile.config = c.profile.config := by
  induction hk with
  | self => rfl
  | inside htree hnode hinner _ ih =>
    rw [ih (hc.extension hD htree hnode hinner), hc.extension_config htree hnode hinner]

end Container

/-! ## An office to look at -/

theorem Resolution.status_of_isPending {α : Type} {state : Resolution α} (h : state.isPending) :
    state.status = "Initialized" := by
  cases state with
  | pending => rfl
  | _ => cases h

/-- What was never set up can not be read. -/
theorem Expression.read_of_isPending {e : Expression} (h : e.state.isPending) (data : Data) :
    e.read data = .error e.unready := by
  cases e with
  | path ns root hops state =>
    cases state with
    | pending => simp only [Expression.read]
    | _ => cases h
  | computed operation hops state =>
    cases state with
    | pending => simp only [Expression.read]
    | _ => cases h

/-- The choices of the fields in the container. -/
def Container.choices (c : Container) : List ChoiceSpec :=
  (c.tree?.toList.flatMap TreeOf.nodes).filterMap fun node => node.part.bind Part.choices?

/-- A field for a country, one of those that a data provider gives. -/
def Field.country : Field :=
  let choices : Expression := .path .dataProviders ⟨"countries", none⟩ [] .pending
  let code : Expression := .path .this ⟨"code", none⟩ [] .pending
  ⟨"country", .ofModels "company" ["name"], .choice, .choice ⟨.expression choices, some code, none⟩,
    none, none, none, none, none⟩

/-- An office that fails on what stays unresolved, with a fixed list of countries. -/
def Container.strictOffice : Container :=
  let countries : Value := .list [.record [("code", .string "SI"), ("title", .string "Slovenia")]]
  .mk { Profile.sample with config := Config.standard.strict }
    (.declared .sample [.ofField .country [] []] [⟨"countries", .literal countries⟩] [])

theorem Container.strictOffice_fresh : Container.strictOffice.Fresh := by
  refine .declared (fun owner => ?_) fun owner entry he inner hinner => ?_
  · refine List.forall_mem_cons.2 ⟨⟨List.forall_mem_nil _, List.forall_mem_nil _⟩, ?_⟩
    refine List.forall_mem_cons.2 ⟨⟨?_, ?_⟩, ?_⟩
    · exact List.forall_mem_cons.2 ⟨rfl, List.forall_mem_cons.2 ⟨rfl, List.forall_mem_nil _⟩⟩
    · exact List.forall_mem_cons.2 ⟨rfl, List.forall_mem_nil _⟩
    · exact List.forall_mem_cons.2
        ⟨⟨List.forall_mem_nil _, List.forall_mem_nil _⟩, List.forall_mem_nil _⟩
  · obtain rfl := List.mem_singleton.1 he
    cases hinner

/-- The setup of the office succeeds, and leaves an attribute of the choices as it was declared. -/
theorem Container.strictOffice_setup : ∃ c heap tree node part spec e,
    Container.strictOffice.setup = (.ok (), c) ∧ c.heap? = some heap ∧ c.tree? = some tree ∧
      node ∈ tree.nodes ∧ node.part = some part ∧ part.choices? = some spec ∧
      e ∈ spec.attributes ∧ e.state.isPending := by
  have hok : Container.strictOffice.setup.1.isOk := by decide +kernel
  have hleft : (Container.strictOffice.setup.2.choices.flatMap ChoiceSpec.attributes).map
      (·.state.isPending) = [true] := by decide +kernel
  generalize Container.strictOffice.setup = result at hok hleft
  obtain ⟨_ | ⟨⟩, p, _ | ⟨heap, tree⟩ | _⟩ := result
  · cases hok
  · cases hok
  · cases hok
  · cases hleft
  · obtain ⟨e, he, hpending⟩ := List.map_eq_singleton_iff.1 hleft
    have hmem : e ∈ List.flatMap ChoiceSpec.attributes
        (Container.mk p (.finished heap tree)).choices := by
      rw [he]
      exact List.mem_singleton_self e
    obtain ⟨spec, hspec, hattribute⟩ := List.mem_flatMap.1 hmem
    obtain ⟨node, hnode, hchoices⟩ := List.mem_filterMap.1 hspec
    obtain ⟨part, hpart, hsome⟩ := Option.bind_eq_some_iff.1 hchoices
    obtain ⟨tree', htree, hnode⟩ := List.mem_flatMap.1 hnode
    cases Option.mem_toList.1 htree
    exact ⟨_, heap, tree, node, part, spec, e, rfl, rfl, rfl, hnode, hpart, hsome, hattribute,
      hpending⟩
  · cases hleft

/-! ## The law -/

/-- A strict setup leaves nothing behind that can not be read, but attributes of choices whose shape
is not known. Let a rule set be declared from expressions that were never set up, with a
configuration that fails on what stays unresolved, and let its setup succeed. Then, in it and in
all that it holds, every component has its expressions resolved with everything in them, and so has
every noted model the expression that leads to it. The attributes of choices are resolved if the
choices are no expression, or one that leads to a variable of a known shape; otherwise they are left
as they were declared. -/
theorem a_strict_setup_leaves_only_attributes_of_unknown_choices {c c' k : Container} {heap : Heap}
    {tree : Tree} {node : Node} {part : Part} (hfresh : c.Fresh)
    (hstrict : c.profile.config.failOnUnresolved) (hsetup : c.setup = (.ok (), c'))
    (hk : c'.Holds k) (hheap : k.heap? = some heap) (htree : k.tree? = some tree)
    (hnode : node ∈ tree.nodes) (hpart : node.part = some part) :
    AllReady part.expressions ∧
      (∀ m, part = .model m → k.profile.models.has m.name → AllReady m.source.leads) ∧
      ∀ spec, part.choices? = some spec → spec.Settled heap := by
  have hassembled := Container.assembled_of_setup hfresh hsetup
  have hconfig : k.profile.config = c.profile.config :=
    (hassembled.holds_config inherited_fresh hk).trans (Container.setup_config hsetup)
  obtain ⟨hdeclared, henter, h⟩ := hassembled.holds inherited_fresh hk
  obtain ⟨tree', draft, hr, rfl⟩ := conclude_ok h
  obtain ⟨a⟩ := assembly_of_run hr
  cases hheap
  cases htree
  cases hdeclared with
  | declared hparts _ =>
    rw [← hconfig] at hstrict
    have hready := a.expressions_ready henter (hparts _) hstrict hnode hpart
    refine ⟨hready.1, ?_, hready.2⟩
    rintro m rfl hnoted
    exact a.leads_ready henter (hparts _) hnode hpart hnoted

/-- The field for a country has its choices resolved, and waits for their shape. -/
theorem a_strict_setup_leaves_only_attributes_of_unknown_choices_in_an_office :
    ∃ c heap tree node part spec, Container.strictOffice.Fresh ∧
      Container.strictOffice.profile.config.failOnUnresolved ∧
      Container.strictOffice.setup = (.ok (), c) ∧ c.Holds c ∧ c.heap? = some heap ∧
      c.tree? = some tree ∧ node ∈ tree.nodes ∧ node.part = some part ∧
      part.choices? = some spec ∧ AllReady part.expressions ∧ spec.Settled heap := by
  obtain ⟨c, heap, tree, node, part, spec, _, hsetup, hheap, htree, hnode, hpart, hspec, _, _⟩ :=
    Container.strictOffice_setup
  obtain ⟨hready, _, hsettled⟩ := a_strict_setup_leaves_only_attributes_of_unknown_choices
    Container.strictOffice_fresh rfl hsetup (.self c) hheap htree hnode hpart
  exact ⟨c, heap, tree, node, part, spec, Container.strictOffice_fresh, rfl, hsetup, .self c, hheap,
    htree, hnode, hpart, hspec, hready, hsettled spec hspec⟩

/-- An attribute of choices escapes: the setup of the office succeeds though it fails on what stays
unresolved, and still the attribute was never set up, so that reading it is an error. -/
theorem a_strict_setup_leaves_an_attribute_that_can_not_be_read : ∃ c tree node part spec e,
    Container.strictOffice.Fresh ∧ Container.strictOffice.profile.config.failOnUnresolved ∧
      Container.strictOffice.setup = (.ok (), c) ∧ c.tree? = some tree ∧ node ∈ tree.nodes ∧
      node.part = some part ∧ part.choices? = some spec ∧ e ∈ spec.attributes ∧
      e.state.status = "Initialized" ∧ ∀ data, e.read data = .error e.unready := by
  obtain ⟨c, _, tree, node, part, spec, e, hsetup, _, htree, hnode, hpart, hspec, he, hpending⟩ :=
    Container.strictOffice_setup
  exact ⟨c, tree, node, part, spec, e, Container.strictOffice_fresh, rfl, hsetup, htree, hnode,
    hpart, hspec, he, Resolution.status_of_isPending hpending,
    Expression.read_of_isPending hpending⟩

end Formwork
