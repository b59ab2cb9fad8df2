-- Containers that are used in order. The setup of what was built from expressions that nobody has set
-- up is never an error of the library itself: every expression comes to its setup once, on a heap
-- that is still open, and every alias is bound. What setup leaves behind is honest, so reading it is
-- no error of the library either.
import Formwork.Proofs.Component.Orderly
import Formwork.Proofs.Container.Declaring
import Formwork.Proofs.Container.Links

namespace Formwork

open Drafting

/-! ## Declarations -/

theorem BoundModel.checkShape_inOrder (name : String) (d : Descriptor) :
    InOrder (BoundModel.checkShape name d) := by
  unfold BoundModel.checkShape
  split
  · exact inOrder_ok _
  · split
    · exact inOrder_ok _
    · exact inOrder_error rfl

theorem BoundModel.declared_inOrder (m : BoundModel) : InOrder m.declared := by
  have hshaped : ∀ d : Descriptor, InOrder (do
      BoundModel.checkShape m.name d
      return some d) := fun d =>
    (BoundModel.checkShape_inOrder m.name d).bind fun _ _ => inOrder_ok _
  unfold BoundModel.declared
  split
  · exact (DeclaredType.describe_inOrder _ _).bind fun d _ => hshaped d
  · exact (Signature.result_inOrder _).bind fun d _ => hshaped d
  · exact inOrder_ok _

/-- Only a model that an expression leads to has no shape of its own. -/
theorem BoundModel.isExpression_of_declared {m : BoundModel} (h : m.declared = .ok none) :
    ∃ e, m.source = .expression e := by
  unfold BoundModel.declared at h
  split at h
  · obtain ⟨_, _, h⟩ := except_bind_ok h
    obtain ⟨_, _, h⟩ := except_bind_ok h
    cases h
  · obtain ⟨_, _, h⟩ := except_bind_ok h
    obtain ⟨_, _, h⟩ := except_bind_ok h
    cases h
  · exact ⟨_, ‹_›⟩

theorem DataVar.descriptor_inOrder (d : DataVar) : InOrder d.descriptor := by
  unfold DataVar.descriptor
  split
  · exact (Signature.result_inOrder _).map some
  · exact inOrder_ok _

theorem CardinalityCheck.checkShape_inOrder (check : CardinalityCheck) (d : Descriptor) :
    InOrder (check.checkShape d) := by
  unfold CardinalityCheck.checkShape
  split
  · exact inOrder_error rfl
  · exact inOrder_ok _

theorem UniqueCheck.checkFields_inOrder (check : UniqueCheck) (heap : Heap) (limit : Nat) :
    InOrder (check.checkFields heap limit) := by
  unfold UniqueCheck.checkFields
  dsimp only
  split
  · exact inOrder_error rfl
  · exact inOrder_ok _

/-! ## Models -/

variable {draft : Draft}

theorem orderly_rememberModel (name : String) (d : Descriptor) (id : VarId) (ho : draft.Open) :
    Orderly Draft.Open (rememberModel name d id) draft fun _ _ => True :=
  orderly_of_ok (Step.run_modify _ draft) ho trivial

theorem orderly_registerPointer (name : String) {e : Expression} (hfresh : e.Fresh)
    (ho : draft.Open) :
    Orderly Draft.Open (registerPointer name e) draft fun _ _ => True := by
  unfold registerPointer
  simp only [throw_bind]
  split
  · exact orderly_throw ho rfl
  · rename_i hns
    refine orderly_bind (orderly_resolve name hfresh ho) ?_
    rintro ⟨e', found⟩ draft₁ ho₁ ⟨hs, rfl, hheap⟩
    dsimp only
    rcases found with _ | id
    · refine orderly_throw ho₁ ?_
      rw [Error.isInternal_withOwner]
      exact Expression.unresolvedError_of_none (Decidable.not_not.1 hns) hs
    · obtain ⟨v, hv, _⟩ := (Expression.setup_found name e draft.heap _ hs).2 id rfl
      rw [← hheap] at hv
      refine orderly_bind (orderly_onHeap (Heap.orderly_variableAt ho₁ hv)) ?_
      rintro w draft₂ ho₂ ⟨rfl, hsame⟩
      split
      · exact orderly_throw ho₂ rfl
      · refine orderly_ofExcept_bind ho₂ (BoundModel.checkShape_inOrder _ _) fun _ _ => ?_
        split
        · exact orderly_bind (orderly_onHeap (Heap.orderly_addAlias ho₂ (hsame ▸ hv) name))
            fun _ _ ho₃ _ => orderly_pure ho₃ trivial
        · exact orderly_pure ho₂ trivial

theorem orderly_registerModel (container : String) {m : BoundModel}
    (hfresh : AllFresh m.source.leads) (ho : draft.Open) :
    Orderly Draft.Open (registerModel container m) draft fun _ _ => True := by
  unfold registerModel
  refine orderly_get_bind ?_
  simp only [throw_bind]
  split
  · exact orderly_throw ho rfl
  split
  · rename_i e hsource
    rw [hsource] at hfresh
    refine orderly_bind (orderly_registerPointer m.name (List.forall_mem_singleton.1 hfresh) ho) ?_
    rintro ⟨e', d, id⟩ draft₁ ho₁ _
    exact orderly_bind (orderly_rememberModel _ d id ho₁) fun _ _ ho₂ _ => orderly_pure ho₂ trivial
  · rename_i hsource
    refine orderly_ofExcept_bind ho m.declared_inOrder fun declared hdeclared => ?_
    rcases declared with _ | d
    · obtain ⟨e, he⟩ := BoundModel.isExpression_of_declared hdeclared
      exact absurd he (hsource e)
    · refine orderly_bind (orderly_onHeap (Heap.orderly_add ho _)) fun id draft₁ ho₁ _ => ?_
      exact orderly_bind (orderly_rememberModel _ d id ho₁) fun _ _ ho₂ _ => orderly_pure ho₂ trivial

mutual

theorem orderly_registerTree (container : String) : ∀ {tree : ModelTree} {draft : Draft},
    (∀ m ∈ tree.all, AllFresh m.source.leads) → draft.Open →
    Orderly Draft.Open (registerTree container tree) draft fun _ _ => True
  | .node m nested, draft, hfresh, ho => by
    obtain ⟨hfirst, hrest⟩ := List.forall_mem_cons.1 hfresh
    unfold registerTree
    refine orderly_bind (orderly_registerModel container hfirst ho) fun _ draft₁ ho₁ _ => ?_
    exact orderly_bind (orderly_registerTrees container hrest ho₁) fun _ _ ho₂ _ =>
      orderly_pure ho₂ trivial

theorem orderly_registerTrees (container : String) : ∀ {trees : List ModelTree} {draft : Draft},
    (∀ m ∈ ModelTree.allOf trees, AllFresh m.source.leads) → draft.Open →
    Orderly Draft.Open (registerTrees container trees) draft fun _ _ => True
  | [], draft, _, ho => orderly_pure ho trivial
  | tree :: rest, draft, hfresh, ho => by
    obtain ⟨hfirst, hrest⟩ := List.forall_mem_append.1 hfresh
    unfold registerTrees
    refine orderly_bind (orderly_registerTree container hfirst ho) fun _ draft₁ ho₁ _ => ?_
    exact orderly_bind (orderly_registerTrees container hrest ho₁) fun _ _ ho₂ _ =>
      orderly_pure ho₂ trivial

end

/-! ## Extensions and the container around them -/

theorem orderly_bindOuter (container model : String) (e : Expression) {id : VarId} {outer : Heap}
    {v : Variable} (hv : outer.find? id = some v) (ho : outer.Open) :
    Orderly Heap.Open (bindOuter container model e id) outer fun _ _ => True := by
  unfold bindOuter
  refine orderly_bind (Heap.orderly_variableAt ho hv) ?_
  rintro w outer₁ ho₁ ⟨rfl, rfl⟩
  split
  · exact orderly_throw ho₁ rfl
  · refine orderly_ofExcept_bind ho₁ (BoundModel.checkShape_inOrder _ _) fun _ _ => ?_
    refine orderly_get_bind ?_
    exact orderly_bind (Heap.orderly_addBound ho₁ hv _) fun _ _ ho₂ _ => orderly_pure ho₂ trivial

/-- Linking an extension leaves the heap around it open, and is no error of the library. -/
theorem linkOuter_inOrder (container : String) {m : BoundModel} (hfresh : AllFresh m.source.leads)
    {outer : Heap} (ho : outer.Open) : (linkOuter container m outer).heap.Open ∧
      InOrder (linkOuter container m outer).outcome := by
  unfold linkOuter
  dsimp only
  split
  · rename_i e hsource
    rw [hsource] at hfresh
    have hfresh := List.forall_mem_singleton.1 hfresh
    have hopen := e.setup_open container ho
    split_ifs with hns
    · exact ⟨ho, inOrder_error rfl⟩
    · split
      · rename_i error hs
        exact ⟨hopen, inOrder_error (hfresh.setup_inOrder container ho error hs)⟩
      · rename_i hs
        refine ⟨hopen, inOrder_error ?_⟩
        rw [Error.isInternal_withOwner]
        exact Expression.unresolvedError_of_none (Decidable.not_not.1 hns) hs
      · rename_i id hs
        obtain ⟨v, hv, _⟩ := (Expression.setup_found container e outer _ hs).2 id rfl
        obtain ⟨hkeeps, hin, _⟩ := orderly_bindOuter container m.name _ hv hopen
        exact ⟨hkeeps, hin⟩
  · exact ⟨ho, inOrder_error rfl⟩

theorem orderly_enterExtension (container : String) (m : BoundModel) {nested : List ModelTree}
    {link : Except Error (Descriptor × BoundVar)} (hlink : InOrder link)
    (hfresh : ∀ model ∈ ModelTree.allOf nested, AllFresh model.source.leads) (ho : draft.Open) :
    Orderly Draft.Open (enterExtension container m nested link) draft fun _ _ => True := by
  unfold enterExtension
  refine orderly_ofExcept_bind ho hlink ?_
  rintro ⟨d, bound⟩ _
  refine orderly_bind (orderly_onHeap (Heap.orderly_add ho _)) fun id draft₁ ho₁ _ => ?_
  refine orderly_bind (orderly_of_ok (Q := fun _ _ => True) (Step.run_modify _ draft₁) ho₁ trivial)
    fun _ draft₂ ho₂ _ => ?_
  refine orderly_bind (orderly_rememberModel _ d id ho₂) fun _ draft₃ ho₃ _ => ?_
  exact orderly_bind (orderly_registerTrees container hfresh ho₃) fun _ _ ho₄ _ =>
    orderly_pure ho₄ trivial

/-! ## Components -/

theorem orderly_registerProvider (d : DataVar) (ho : draft.Open) :
    Orderly Draft.Open (registerProvider d) draft fun _ _ => True := by
  have hadd : ∀ data, Orderly Draft.Open (do
      let _ ← onHeap (Heap.add (.fresh d.name .dataProviders data) none)) draft fun _ _ => True :=
    fun data => orderly_bind (orderly_onHeap (Heap.orderly_add ho _)) fun _ _ ho₁ _ =>
      orderly_pure ho₁ trivial
  unfold registerProvider
  split
  · exact hadd _
  · exact orderly_ofExcept_bind ho d.descriptor_inOrder fun _ _ => hadd _

theorem orderly_registerNodes : ∀ (nodes : List Node) {draft : Draft}, draft.Open →
    Orderly Draft.Open (registerNodes nodes) draft fun _ _ => True
  | [], _, ho => orderly_pure ho trivial
  | node :: rest, _, ho =>
    orderly_bind (orderly_onHeap (Heap.orderly_add ho (nodeVariable node))) fun _ _ ho₁ _ =>
      orderly_registerNodes rest ho₁

variable {W H : Container → Prop}

/-- The part was never set up, but for the expression that leads to a model, and an extension is as
`W` says. -/
structure Part.Unset (W : Container → Prop) (part : Part) : Prop where
  expressions : AllFresh part.expressions
  attributes : AllFresh part.attributes
  leads : AllHonest part.leads
  inside : ∀ c, part = .extension c → W c

/-- The expressions of the part are honest, and an extension is as `H` says. -/
structure Part.Honest (H : Container → Prop) (part : Part) : Prop where
  expressions : AllHonest part.expressions
  attributes : AllHonest part.attributes
  leads : AllHonest part.leads
  inside : ∀ c, part = .extension c → H c

/-- The attempt leaves the heap around it open and ends in no error of the library, and if it
succeeds then `H` is said of the extension. -/
structure Attempt.Orderly (H : Container → Prop) (attempt : Attempt Container Unit) : Prop where
  keeps : attempt.heap.Open
  inOrder : InOrder attempt.outcome
  result : attempt.outcome = .ok () → H attempt.subject

/-- Setting up an extension of which `W` is said, inside a heap that is open, is orderly. -/
def ExtensionSetup.Orderly (W H : Container → Prop) (extend : ExtensionSetup) : Prop :=
  ∀ config c outer, W c → outer.Open → (extend config c outer).Orderly H

variable {extend : ExtensionSetup}

theorem ExtensionSetup.Orderly.mono {W' : Container → Prop} (h : extend.Orderly W H)
    (hW : ∀ c, W' c → W c) : extend.Orderly W' H :=
  fun config c outer hc => h config c outer (hW c hc)

theorem orderly_setupExtension (hextend : extend.Orderly W H) (config : Config) (name : String)
    {c : Container} (hc : W c) (ho : draft.Open) :
    Orderly Draft.Open (setupPart extend config name (.extension c)) draft fun part' _ =>
      ∃ c', part' = .extension c' ∧ H c' := by
  have hrun : (setupPart extend config name (.extension c)).run draft =
      ((extend config c draft.heap).outcome.map fun _ =>
        Part.extension (extend config c draft.heap).subject,
        { draft with heap := (extend config c draft.heap).heap }) := rfl
  have hattempt := hextend config c draft.heap hc ho
  rcases hs : (extend config c draft.heap).outcome with e | ⟨⟩ <;> rw [hs] at hrun
  · exact orderly_of_error hrun hattempt.keeps (hattempt.inOrder e hs)
  · exact orderly_of_ok hrun hattempt.keeps ⟨_, rfl, hattempt.result hs⟩

theorem orderly_setupPart (hextend : extend.Orderly W H) (config : Config) (name : String)
    {part : Part} (hpart : part.Unset W) (ho : draft.Open) :
    Orderly Draft.Open (setupPart extend config name part) draft fun part' _ => part'.Honest H := by
  obtain ⟨hexpressions, hattributes, hleads, hinside⟩ := hpart
  have hnone : ∀ {es : List Expression}, es = [] → AllHonest es := by
    rintro _ rfl
    exact List.forall_mem_nil _
  cases part with
  | field f =>
    refine orderly_bind (orderly_setupField config hexpressions hattributes ho) ?_
    rintro f' draft₁ ho₁ ⟨he, ha⟩
    exact orderly_pure ho₁ ⟨he, ha, hnone rfl, nofun⟩
  | group g =>
    refine orderly_bind (orderly_settleOption name hexpressions ho) fun available draft₁ ho₁ he => ?_
    exact orderly_pure ho₁ ⟨he, hnone rfl, hnone rfl, nofun⟩
  | dataVar d =>
    obtain ⟨key, source⟩ := d
    cases source with
    | expression e =>
      refine orderly_bind (orderly_settleOnly name (List.forall_mem_singleton.1 hexpressions) ho) ?_
      intro e' draft₁ ho₁ he
      exact orderly_pure ho₁ ⟨List.forall_mem_singleton.2 he, hnone rfl, hnone rfl, nofun⟩
    | _ => exact orderly_pure ho ⟨hnone rfl, hnone rfl, hnone rfl, nofun⟩
  | validation v =>
    refine orderly_bind (orderly_setupValidation name hexpressions ho) fun v' draft₁ ho₁ he => ?_
    exact orderly_pure ho₁ ⟨he, hnone rfl, hnone rfl, nofun⟩
  | model m =>
    have hrun : Orderly Draft.Open (setupPart extend config name (.model m)) draft fun part' _ =>
        ∃ m', part' = .model m' ∧ AllHonest m'.source.injected := by
      refine orderly_bind (orderly_setupModel name hexpressions ho) fun m' draft₁ ho₁ he => ?_
      exact orderly_pure ho₁ ⟨m', rfl, he⟩
    refine hrun.run.mono ?_
    rintro _ draft₁ ⟨⟨m', rfl, he⟩, hmodel⟩
    obtain ⟨m₀, hm₀, _, hsame⟩ := setupPart_model hmodel
    cases hm₀
    refine ⟨he, hnone rfl, ?_, nofun⟩
    show AllHonest m'.source.leads
    rw [hsame]
    exact hleads
  | extension c =>
    refine (orderly_setupExtension hextend config name (hinside c rfl) ho).mono ?_
    rintro _ _ ⟨c', rfl, hc'⟩
    refine ⟨hnone rfl, hnone rfl, hnone rfl, ?_⟩
    rintro _ ⟨⟩
    exact hc'
  | cardinality check => exact orderly_pure ho ⟨hnone rfl, hnone rfl, hnone rfl, nofun⟩
  | unique check => exact orderly_pure ho ⟨hnone rfl, hnone rfl, hnone rfl, nofun⟩

/-- The parts of the nodes are as `P` says. -/
def AllParts (P : Part → Prop) (nodes : List Node) : Prop :=
  ∀ node ∈ nodes, ∀ part, node.part = some part → P part

/-- A node that was not set up is set up in order if its part is. -/
theorem orderly_setupNode (hextend : extend.Orderly W H) (config : Config) {node : Node}
    (hun : node.finished = false) (hpart : ∀ part, node.part = some part → part.Unset W)
    (ho : draft.Open) :
    Orderly Draft.Open (setupNode extend config node) draft fun node' _ =>
      ∀ part, node'.part = some part → part.Honest H := by
  rcases hsome : node.part with _ | part
  · rw [setupNode_none hun hsome]
    exact orderly_pure ho fun part h => by rw [hsome] at h; cases h
  · rw [setupNode, hun, hsome]
    refine orderly_bind (orderly_adapt (orderly_setupPart hextend config node.name
      (hpart part hsome) ho)) fun part' draft₁ ho₁ hhonest => orderly_pure ho₁ ?_
    rintro _ ⟨⟩
    exact hhonest

theorem orderly_setupNodes (hextend : extend.Orderly W H) (config : Config) :
    ∀ {nodes : List Node} {draft : Draft}, (∀ node ∈ nodes, node.finished = false) →
    AllParts (Part.Unset W) nodes → draft.Open →
    Orderly Draft.Open (setupNodes extend config nodes) draft fun nodes' _ =>
      AllParts (Part.Honest H) nodes'
  | [], _, _, _, ho => orderly_pure ho (List.forall_mem_nil _)
  | node :: rest, draft, hun, hnodes, ho => by
    obtain ⟨hfirst, hrest⟩ := List.forall_mem_cons.1 hnodes
    obtain ⟨hunFirst, hunRest⟩ := List.forall_mem_cons.1 hun
    unfold setupNodes
    refine orderly_bind (orderly_setupNode hextend config hunFirst hfirst ho) ?_
    intro node' draft₁ ho₁ hnode'
    refine orderly_bind (orderly_setupNodes hextend config hunRest hrest ho₁) ?_
    intro rest' draft₂ ho₂ hrest'
    exact orderly_pure ho₂ (List.forall_mem_cons.2 ⟨hnode', hrest'⟩)

/-! ## Layout -/

mutual

/-- Nothing in a component has more levels than the component. -/
theorem Component.levels_of_mem_preorder {owner : String} {entry : String × Part} :
    ∀ {component : Component}, entry ∈ component.preorder owner →
    entry.2.levels ≤ component.levels
  | .node part contents, h => by
    rw [Component.levels]
    rcases List.mem_cons.1 h with rfl | h
    · exact Nat.le_max_left _ _
    · exact Nat.le_trans (Component.levels_of_mem_preorderAll h) (Nat.le_max_right _ _)

theorem Component.levels_of_mem_preorderAll {owner : String} {entry : String × Part} :
    ∀ {components : List Component}, entry ∈ Component.preorderAll owner components →
    entry.2.levels ≤ levelsOfAll components
  | component :: rest, h => by
    rw [levelsOfAll]
    rcases List.mem_append.1 h with h | h
    · exact Nat.le_trans (Component.levels_of_mem_preorder h) (Nat.le_max_left _ _)
    · exact Nat.le_trans (Component.levels_of_mem_preorderAll h) (Nat.le_max_right _ _)

end

theorem Part.levels_ownedBy (owner : String) (part : Part) :
    (part.ownedBy owner).levels = part.levels := by
  cases part with
  | extension c =>
    obtain ⟨p, phase⟩ := c
    rfl
  | _ => rfl

/-- The container is an extension with an owner, and can be set up with extensions inside each other
to a depth. -/
structure Container.Fits (levels : Nat) (c : Container) : Prop where
  made : c.WellMade Expression.Fresh
  levels : c.levels ≤ levels
  owned : ∃ owner, c.profile.role = .extension (some owner)

/-- What is laid out was never set up, but for the expressions that lead to models. -/
theorem unset_of_ofDeclaration {p : Profile} {model model' : ModelTree} {contents : List Component}
    {providers : List DataVar} {rules : List Validation} {t : Tree}
    (hmade : (Container.mk p (.declared model contents providers rules)).WellMade Expression.Fresh)
    (hlocated : Located model'.all)
    (hlaid : Tree.ofDeclaration p model' contents providers rules = .ok t) :
    AllParts (Part.Unset (Container.Fits (levelsOfAll contents))) t.nodes := by
  intro node hnode part hpart
  obtain ⟨entry, he, hplaceable, howned⟩ := Tree.declared_of_mem hlaid hnode hpart
  have hinside : ∀ c, part = .extension c → c.Fits (levelsOfAll contents) := by
    rintro c rfl
    have hcontents := Tree.mem_contents_of_extension he howned
    have hlevels := Component.levels_of_mem_preorderAll hcontents
    rw [← Part.levels_ownedBy entry.1, howned] at hlevels
    refine ⟨inherited_wellMade.inside hmade entry hcontents hplaceable c howned, hlevels, entry.1, ?_⟩
    obtain ⟨_, _, _, rfl⟩ := Part.eq_extension_of_ownedBy howned
    rfl
  obtain ⟨_, hsame₁, hsame₂, hsame₃, _⟩ := entry.2.ownedBy_keeps entry.1
  rw [howned] at hsame₁ hsame₂ hsame₃
  have hwell : ∀ {part : Part}, part.WellMade Expression.Fresh →
      AllFresh part.expressions ∧ AllFresh part.attributes ∧ AllHonest part.leads :=
    fun h => ⟨h.expressions, h.attributes, fun e he => (h.leads e he).honest⟩
  have hentry : AllFresh entry.2.expressions ∧ AllFresh entry.2.attributes ∧
      AllHonest entry.2.leads := by
    cases hmade with
    | declared _ _ _ hchecks hcontents _ _ hproviders hrules =>
      rw [Tree.parts_of_components] at he
      simp only [List.mem_append] at he
      rcases he with (((hmodel | hcheck) | hcontent) | hprovider) | hrule
      · obtain ⟨m, hm, hsame⟩ := Component.mem_preorder_ofModel hmodel
        rw [hsame]
        exact ⟨hlocated.injected m hm, List.forall_mem_nil _,
          fun e he => (hlocated.leads m hm e he).honest⟩
      · obtain ⟨own, hown, rfl⟩ := List.mem_map.1 hcheck
        exact hwell (hchecks own hown)
      · exact hwell (hcontents _ entry hcontent)
      · obtain ⟨d, hd, rfl⟩ := List.mem_map.1 hprovider
        exact hwell (hproviders d hd)
      · obtain ⟨v, hv, rfl⟩ := List.mem_map.1 hrule
        exact hwell (hrules v hv)
  rw [← hsame₁, ← hsame₂, ← hsame₃] at hentry
  exact ⟨hentry.1, hentry.2.1, hentry.2.2, hinside⟩

/-! ## Containers -/

/-- The expressions of the container are honest, and so are those of every extension inside it. -/
def Container.Honest (c : Container) : Prop :=
  ∀ k, c.Holds k → ∀ tree, k.tree? = some tree → ∀ node ∈ tree.nodes, ∀ part,
    node.part = some part → AllHonest (part.expressions ++ part.attributes ++ part.leads)

theorem orderly_checkUnresolved (draft : Draft) :
    Orderly (fun _ => True) checkUnresolved draft fun _ _ => True := by
  unfold checkUnresolved
  refine orderly_get_bind ?_
  dsimp only
  split
  · exact orderly_throw trivial rfl
  · exact orderly_pure trivial trivial

theorem orderly_checkChildren (p : Profile) (main : Descriptor) (draft : Draft) :
    Orderly (fun _ => True) (checkChildren p main) draft fun _ _ => True := by
  have hfields : ∀ draft : Draft, Orderly (fun _ => True) (do
      let heap := (← get).heap
      p.uniques.forM fun check => ofExcept (check.checkFields heap p.config.maxSuggestions))
      draft fun _ _ => True := fun draft =>
    orderly_get_bind (orderly_forM trivial fun check _ _ _ =>
      orderly_ofExcept trivial (check.checkFields_inOrder _ _) fun _ _ => trivial)
  unfold checkChildren
  split
  · exact orderly_ofExcept_bind trivial (CardinalityCheck.checkShape_inOrder _ _) fun _ _ =>
      hfields draft
  · exact hfields draft

/-- Setting up what was well-made is no error of the library, and leaves honest components. -/
theorem orderly_assemble {p : Profile} {model : ModelTree}
    {enter : Drafting (ModelTree × Descriptor)} {contents : List Component}
    {providers : List DataVar} {rules : List Validation}
    (hmade : (Container.mk p (.declared model contents providers rules)).WellMade Expression.Fresh)
    (howner : p.role.owner ≠ .unset) (henter : Enters p model enter)
    (hentered : Orderly Draft.Open enter (Draft.start p) fun _ _ => True)
    (hextend : extend.Orderly (Container.Fits (levelsOfAll contents)) H) :
    Orderly (fun _ => True) (assemble extend p enter contents providers rules) (Draft.start p)
      fun tree _ => AllParts (Part.Honest H) tree.nodes := by
  have hinjected : ∀ m ∈ model.all, AllFresh m.source.injected := by
    cases hmade with
    | declared _ _ hmodels => exact fun m hm => (hmodels m hm).expressions
  have hunowned : ∀ entry ∈ Component.preorderAll p.name contents, entry.2.Unowned := by
    cases hmade with
    | declared _ _ _ _ _ _ hunowned => exact hunowned p.name
  unfold assemble
  -- Stage by stage: each leaves the heap open for the next, until it is finished.
  refine orderly_bind hentered.run.weaken ?_
  rintro ⟨model', main⟩ draft₁ _ ⟨ho₁, _, hrun⟩
  have hlocated := henter.located hrun hinjected
  refine orderly_bind (orderly_forM ho₁ fun d _ _ ho => orderly_registerProvider d ho).weaken ?_
  rintro _ draft₂ _ ⟨ho₂, _⟩
  refine orderly_ofExcept_bind trivial (Tree.ofDeclaration_inOrder howner hunowned _ _ _)
    fun laid hlaid => ?_
  refine orderly_bind (orderly_registerNodes laid.nodes ho₂).weaken ?_
  rintro _ draft₃ _ ⟨ho₃, _⟩
  refine orderly_bind (orderly_setupNodes hextend p.config
    (fun _ hnode => Tree.unfinished_of_mem hlaid hnode)
    (unset_of_ofDeclaration hmade hlocated hlaid) ho₃).run.weaken ?_
  rintro nodes draft₄ _ ⟨ho₄, hnodes, hsetup⟩
  -- Every node was set up, so the tree can be finished.
  have hcomplete : TreeOf.ensureFinished (⟨nodes, laid.byName⟩ : Tree) = .ok () :=
    TreeOf.ensureFinished_ok (finished_of_setupNodes hsetup)
  refine orderly_ofExcept_bind trivial (hcomplete ▸ inOrder_ok _) fun _ _ => ?_
  have hfinish : (onHeap Heap.finish).run draft₄ =
      (.ok (), { draft₄ with heap := { draft₄.heap with finished := true } }) := by
    simp only [onHeap, Step.run_mk, Heap.finish_ok ho₄]
  refine orderly_bind (orderly_of_ok (Q := fun _ _ => True) hfinish trivial trivial) ?_
  intro _ draft₅ _ _
  -- The checks that are left only read the heap, so nothing has to be open any more.
  have hlast : ∀ draft : Draft, Orderly (fun _ => True) (do
      checkChildren p main
      return (⟨nodes, laid.byName⟩ : Tree)) draft fun tree _ => AllParts (Part.Honest H) tree.nodes :=
    fun draft => orderly_bind (orderly_checkChildren p main draft) fun _ _ _ _ =>
      orderly_pure trivial hnodes
  split
  · exact orderly_bind (orderly_checkUnresolved draft₅) fun _ draft₆ _ _ => hlast draft₆
  · exact hlast draft₅

/-- What comes out of an orderly setup is in order, and honest if it is a finished container. -/
theorem Container.conclude_inOrder {p : Profile} {step : Drafting Tree} {draft : Draft}
    (h : Orderly (fun _ => True) step draft fun tree _ =>
      AllParts (Part.Honest Container.Honest) tree.nodes) :
    InOrder (conclude p (step.run draft)).1 ∧
      ((conclude p (step.run draft)).1 = .ok () → (conclude p (step.run draft)).2.Honest) := by
  obtain ⟨_, hin, hnodes⟩ := h
  rcases hr : step.run draft with ⟨e | tree, draft'⟩ <;> rw [hr] at hin hnodes
  · refine ⟨inOrder_error ?_, fun hok => by cases hok⟩
    exact (Error.isInternal_withOwner p.name e).trans (hin e rfl)
  · refine ⟨inOrder_ok _, fun _ k hk => ?_⟩
    have hhonest := hnodes tree rfl
    cases hk with
    | self =>
      rintro _ ⟨⟩ node hnode part hpart
      obtain ⟨he, ha, hl, _⟩ := hhonest node hnode part hpart
      exact List.forall_mem_append.2 ⟨List.forall_mem_append.2 ⟨he, ha⟩, hl⟩
    | inside htree hnode hpart hk =>
      cases htree
      exact (hhonest _ hnode _ hpart).inside _ rfl k hk

/-- However deep extensions are nested, setting them up is orderly. -/
theorem setupLevels_orderly (levels : Nat) :
    (Container.setupLevels levels).Orderly (Container.Fits levels) Container.Honest := by
  induction levels with
  | zero =>
    rintro _ ⟨p, phase⟩ _ ⟨_, hlevels, _⟩
    simp only [Container.levels, Nat.le_zero, Nat.add_eq_zero_iff, Nat.one_ne_zero,
      and_false] at hlevels
  | succ n ih =>
    rintro config _ outer ⟨hmade, hlevels, above, hrole⟩ ho
    have hmade' := hmade.withConfig config
    cases hmade with
    | @declared p model contents providers rules _ _ hmodels =>
      obtain ⟨m, nested⟩ := model
      obtain ⟨hfirst, hnested⟩ := List.forall_mem_cons.1 hmodels
      obtain ⟨hkeeps, hlink⟩ := linkOuter_inOrder p.name hfirst.leads ho
      -- The link may fail, but that is an outcome of entering: the extension has a heap of its own.
      have hstart : (Draft.start { p with config }).Open := Heap.open_empty _ _
      have henter := orderly_enterExtension p.name (linkOuter p.name m outer).subject hlink
        (fun m hm => (hnested m hm).leads) hstart
      have hdepth : levelsOfAll contents ≤ n := Nat.le_of_succ_le_succ hlevels
      have hrole : p.role = .extension (some above) := hrole
      have howner : ({ p with config } : Profile).role.owner ≠ .unset := by
        simp only [hrole]
        nofun
      have hrun := orderly_assemble hmade' howner (.extension m nested outer) henter
        (ih.mono fun c hc => ⟨hc.made, Nat.le_trans hc.levels hdepth, hc.owned⟩)
      rw [Container.setupLevels, setupInside_extension hrole]
      obtain ⟨hin, hhonest⟩ := Container.conclude_inOrder hrun
      exact ⟨hkeeps, hin, hhonest⟩

/-! ## The law -/

/-- Errors of the library are out of reach. Let a rule set be built from expressions that were never
set up, with any components, models, data providers and handlers, and with extensions nested to any
depth. Whatever error its setup ends in, it is not one of the library itself. And when setup has
succeeded, then reading an expression of the rule set or of an extension inside it, or an operand of
one, is no such error either if the expression says that it is resolved, whatever the data, as long
as its functions do not end in one themselves. Nor is it one to build an expression that calls what
another one leads to. -/
theorem errors_of_the_library_are_out_of_reach {c : Container}
    (hbuilt : c.Built Expression.Fresh) :
    (∀ e c', c.setup = (.error e, c') → e.isInternal = false) ∧
      (∀ c', c.setup = (.ok (), c') → ∀ k tree node part e sub data, c'.Holds k →
        k.tree? = some tree → node ∈ tree.nodes → node.part = some part →
        e ∈ part.expressions ++ part.attributes ++ part.leads → sub ∈ e.within →
        sub.state.isResolved → data.Orderly →
        ∀ error, sub.read data = .error error → error.isInternal = false) ∧
      ∀ (e : Expression) (call : CallArgs) error, e.call call = .error error →
        error.isInternal = false := by
  have hsetup : InOrder c.setup.1 ∧ (c.setup.1 = .ok () → c.setup.2.Honest) := by
    have hmade := hbuilt.wellMade.1
    cases hbuilt.wellMade.1 with
    | @declared p model contents providers rules _ _ hmodels =>
      rcases hrole : p.role with _ | owner
      · rw [setup_ruleSet hrole]
        have howner : p.role.owner ≠ .unset := by
          rw [hrole]
          nofun
        exact Container.conclude_inOrder (orderly_assemble hmade howner (.ruleSet model)
          (orderly_registerTree p.name (fun m hm => (hmodels m hm).leads) (Heap.open_empty _ _))
          ((setupLevels_orderly _).mono fun c hc =>
            ⟨hc.made, Nat.le_trans hc.levels (Nat.le_succ _), hc.owned⟩))
      · have hrefused : ∃ message, (Container.mk p (.declared model contents providers rules)).setup =
            (.error (.ofKind .value message), .mk p (.declared model contents providers rules)) :=
          ⟨_, by simp only [Container.setup, Container.profile, hrole]; rfl⟩
        obtain ⟨message, hrefused⟩ := hrefused
        rw [hrefused]
        exact ⟨inOrder_error (Error.isInternal_ofKind .value message), fun hok => by cases hok⟩
  refine ⟨?_, ?_, fun e call => e.call_inOrder call⟩
  · intro e c' he
    exact hsetup.1 e (congrArg Prod.fst he)
  · intro c' hok k tree node part e sub data hk htree hnode hpart he hsub hresolved hdata
    have hhonest := hsetup.2 (congrArg Prod.fst hok)
    rw [hok] at hhonest
    exact (hhonest k hk tree htree node hnode part hpart e he sub hsub).read_inOrder hdata hresolved

/-- A board whose chair must have an age. -/
def Container.agedBoard : Container :=
  let chair : ModelTree := .node ⟨"chair", .expression (.ofModels "company" ["boss"])⟩ []
  let aged : Validation := ⟨"aged", .ofModels "chair" ["age"], "The chair has no age", none⟩
  .mk (newProfile "board" (.extension none) chair (some (.ofRule (.single false))))
    (.declared chair [] [] [aged])

/-- An office with such a board. -/
def Container.agedBoardOffice : Container :=
  .mk .sample (.declared .sample [.leaf (.extension agedBoard)] [] [])

theorem Container.agedBoardOffice_built : Container.agedBoardOffice.Built Expression.Fresh := by
  have hcompany : ModelTree.sample.Built Expression.Fresh := by
    have h : BoundModel.ofType "company" (.plain (.model RecordModel.sample)) =
        .ok ModelTree.sample.model := rfl
    exact .node (.ofType h) (List.forall_mem_nil _)
  have hboard : agedBoard.Built Expression.Fresh := by
    have hbossFresh : (Expression.ofModels "company" ["boss"]).Fresh := rfl
    have hageFresh : (Expression.ofModels "chair" ["age"]).Fresh := rfl
    have hbound : BoundModel.ofExpression "chair" (.ofModels "company" ["boss"]) =
        .ok ⟨"chair", .expression (.ofModels "company" ["boss"])⟩ := rfl
    have hchair : (ModelTree.node ⟨"chair", .expression (.ofModels "company" ["boss"])⟩ []).Built
        Expression.Fresh :=
      .node (.ofExpression hbossFresh hbound) (List.forall_mem_nil _)
    have hnew : extension "board" (.node ⟨"chair", .expression (.ofModels "company" ["boss"])⟩ [])
        (.ofRule (.single false)) = .ok (.mk agedBoard.profile (.declared
          (.node ⟨"chair", .expression (.ofModels "company" ["boss"])⟩ []) [] [] [])) := rfl
    have haged : Validation.ofExpression "aged" (.ofModels "chair" ["age"]) "The chair has no age" =
        .ok ⟨"aged", .ofModels "chair" ["age"], "The chair has no age", none⟩ := rfl
    have hrule : (⟨"aged", .ofModels "chair" ["age"], "The chair has no age", none⟩ :
        Validation).Built Expression.Fresh :=
      .ofExpression hageFresh (List.forall_mem_nil _) haged
    exact .declaring (.extension hchair (.ofRule _) hnew) (List.forall_mem_nil _)
      (List.forall_mem_nil _) (List.forall_mem_singleton.2 hrule)
  have hnew : ruleSet "office" .sample = .ok (.mk .sample (.declared .sample [] [] [])) := rfl
  exact .declaring (.ruleSet hcompany hnew) (List.forall_mem_singleton.2 (.extension hboard))
    (List.forall_mem_nil _) (List.forall_mem_nil _)

/-- The rule of the board is resolved, so reading it without any data is no error of the library. -/
theorem errors_of_the_library_are_out_of_reach_on_a_board : ∃ c board tree node part e,
    Container.agedBoardOffice.Built Expression.Fresh ∧
      Container.agedBoardOffice.setup = (.ok (), c) ∧ c.Holds board ∧ board.tree? = some tree ∧
      node ∈ tree.nodes ∧ node.part = some part ∧ e ∈ part.expressions ∧ e.state.isResolved ∧
      ∀ error, e.read (Data.empty fun _ _ _ => .ok .null) = .error error →
        error.isInternal = false := by
  have hok : Container.agedBoardOffice.setup.1.isOk := by decide +kernel
  have hstates : Container.agedBoardOffice.setup.2.extensions.map (fun board =>
      (board.tree?.toList.flatMap TreeOf.nodes).flatMap fun node =>
        (node.part.toList.flatMap Part.expressions).map (·.state.isResolved)) = [[true]] := by
    decide +kernel
  generalize hsetup : Container.agedBoardOffice.setup = result at hok hstates
  obtain ⟨_ | ⟨⟩, c⟩ := result
  · cases hok
  obtain ⟨board, hboard, hstates⟩ := List.map_eq_singleton_iff.1 hstates
  have hmem : true ∈ (board.tree?.toList.flatMap TreeOf.nodes).flatMap fun node =>
      (node.part.toList.flatMap Part.expressions).map (·.state.isResolved) := by
    rw [hstates]
    exact List.mem_singleton_self true
  obtain ⟨node, hnode, hmem⟩ := List.mem_flatMap.1 hmem
  obtain ⟨e, he, hresolved⟩ := List.mem_map.1 hmem
  obtain ⟨tree, htree, hnode⟩ := List.mem_flatMap.1 hnode
  obtain ⟨part, hpart, he⟩ := List.mem_flatMap.1 he
  rw [Option.mem_toList] at htree hpart
  have hholds := Container.holds_of_extensions hboard
  obtain ⟨_, hread, _⟩ := errors_of_the_library_are_out_of_reach Container.agedBoardOffice_built
  refine ⟨c, board, tree, node, part, e, Container.agedBoardOffice_built, rfl, hholds, htree, hnode,
    hpart, he, hresolved, ?_⟩
  exact hread c hsetup board tree node part e e _ hholds htree hnode hpart
    (List.mem_append_left _ (List.mem_append_left _ he)) e.mem_within hresolved
    fun _ _ _ => inOrder_ok _

end Formwork
