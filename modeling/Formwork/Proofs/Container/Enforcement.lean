-- The checks of the items of a container. They are declared on the container, and stand in its tree
-- like other components. Those that are put right among the contents are refused; further inside,
-- below a group or a field, they get a node, and nobody ever asks them.
import Formwork.Proofs.Container.Items
import Formwork.Proofs.Container.Links
import Formwork.Proofs.Container.Registry

namespace Formwork

open Drafting

/-! ## Checks of the items -/

/-- The part is a check of the items. -/
def Part.isCheck (part : Part) : Bool :=
  part.kind = .cardinality || part.kind = .unique

/-- The check at a node, if it has one. -/
def Node.check? (node : Node) : Option Part := node.part.filter Part.isCheck

/-- The checks of the items in a tree, in order. -/
def Tree.checks (t : Tree) : List Part := t.nodes.filterMap Node.check?

/-- The checks among declared parts, with the names of their owners. -/
def checksOf (declared : List (String × Part)) : List (String × Part) :=
  declared.filter fun entry => entry.2.isCheck

theorem Part.isCheck_of_kind {part part' : Part} (h : part'.kind = part.kind) :
    part'.isCheck = part.isCheck := by
  rw [isCheck, isCheck, h]

/-- Setup does not touch a check. -/
theorem setupPart_of_isCheck {extend : ExtensionSetup} {config : Config} {name : String}
    {part part' : Part} {draft draft' : Draft} (hcheck : part.isCheck)
    (hr : (setupPart extend config name part).run draft = (.ok part', draft')) : part' = part := by
  cases part with
  | cardinality check =>
    cases hr
    rfl
  | unique check =>
    cases hr
    rfl
  | _ => cases hcheck

theorem setupNode_check {extend : ExtensionSetup} {config : Config} {node node' : Node}
    {draft draft' : Draft} (hun : node.finished = false)
    (hr : (setupNode extend config node).run draft = (.ok node', draft')) :
    Node.check? node' = Node.check? node := by
  rcases hpart : node.part with _ | part
  · rw [setupNode_none hun hpart] at hr
    cases hr
    rfl
  · obtain ⟨part', hpart', rfl⟩ := (setupNode_some_iff hun hpart).1 hr
    have hsame := Part.isCheck_of_kind (setupPart_kind hpart')
    rw [Node.check?, Node.check?, hpart, Option.filter_some, Option.filter_some, hsame]
    split
    · rename_i hcheck
      rw [setupPart_of_isCheck hcheck hpart']
    · rfl

theorem setupNodes_checks {extend : ExtensionSetup} {config : Config} {nodes nodes' : List Node}
    {draft draft' : Draft} (hun : ∀ node ∈ nodes, node.finished = false)
    (hr : (setupNodes extend config nodes).run draft = (.ok nodes', draft')) :
    nodes'.filterMap Node.check? = nodes.filterMap Node.check? := by
  have hall := setupNodes_forall₂ hr
  clear hr
  induction hall with
  | nil => rfl
  | cons hnode _ ih =>
    obtain ⟨_, _, hrun⟩ := hnode
    obtain ⟨hfirst, hrest⟩ := List.forall_mem_cons.1 hun
    rw [List.filterMap_cons, List.filterMap_cons, setupNode_check hfirst hrun, ih hrest]

/-- The nodes of checks have what was declared, taken over by its owner. -/
theorem checks_of_standsFor {declared : List (String × Part)} {added : List Node}
    (h : List.Forall₂ StandsFor declared added) :
    added.filterMap Node.check? =
      (checksOf declared).map fun entry => entry.2.ownedBy entry.1 := by
  induction h with
  | nil => rfl
  | @cons entry node rest nodes hstands _ ih =>
    have hsame := Part.isCheck_of_kind (Part.kind_ownedBy entry.1 entry.2)
    unfold checksOf at ih ⊢
    rcases hcheck : entry.2.isCheck with _ | _
    · have hnone : Node.check? node = none := by
        rw [Node.check?, hstands.part, Option.filter_some, hsame, hcheck]
        rfl
      rw [List.filterMap_cons_none hnone, List.filter_cons_of_neg (by simp [hcheck]), ih]
    · have hsome : Node.check? node = some (entry.2.ownedBy entry.1) := by
        rw [Node.check?, hstands.part, Option.filter_some, hsame, hcheck]
        rfl
      rw [List.filterMap_cons_some hsome, List.filter_cons_of_pos (by simp [hcheck]), List.map_cons,
        ih]

/-! ## Declarations -/

/-- The checks of a container are its own, and those among its contents. -/
theorem checksOf_components (p : Profile) (model : ModelTree) (contents : List Component)
    (providers : List DataVar) (validations : List Validation) :
    checksOf (Component.preorderAll p.name
      (Tree.components p model contents providers validations)) =
      p.checks.map (fun own => (p.name, own)) ++
        checksOf (Component.preorderAll p.name contents) := by
  have hmodel : ((Component.ofModel model).preorder p.name).filter
      (fun entry => entry.2.isCheck) = [] := by
    refine List.filter_eq_nil_iff.2 fun entry he => ?_
    obtain ⟨m, _, hm⟩ := Component.mem_preorder_ofModel he
    rw [hm]
    exact Bool.false_ne_true
  have hown : p.checks.filter Part.isCheck = p.checks := by
    refine List.filter_eq_self.2 fun own hown => ?_
    rcases Profile.kind_of_mem_checks hown with h | h <;> rw [Part.isCheck, h] <;> rfl
  rw [checksOf, Tree.filter_components Part.isCheck (fun _ => rfl) (fun _ => rfl), hmodel, hown,
    List.nil_append, checksOf]

/-- Checks right among the contents of a container are refused. -/
theorem Tree.fillContents_not_isCheck {root : Nat} : ∀ {contents : List Component}
    {t t' : Tree}, fillContents t root contents = .ok t' →
    ∀ component ∈ contents, component.part.isCheck = false
  | [], _, _, _ => List.forall_mem_nil _
  | component :: rest, t, t', h => by
    unfold fillContents at h
    split at h
    · cases h
    · cases h
    · rename_i hcardinality hunique
      obtain ⟨extended, _, h⟩ := except_bind_ok h
      refine List.forall_mem_cons.2 ⟨?_, fillContents_not_isCheck h⟩
      rw [Part.isCheck, Bool.or_eq_false_iff, decide_eq_false_iff_not, decide_eq_false_iff_not]
      exact ⟨hcardinality, hunique⟩

theorem Tree.contents_not_isCheck {p : Profile} {model : ModelTree} {contents : List Component}
    {providers : List DataVar} {validations : List Validation} {t : Tree}
    (h : ofDeclaration p model contents providers validations = .ok t) :
    ∀ component ∈ contents, component.part.isCheck = false := by
  unfold ofDeclaration at h
  dsimp only at h
  obtain ⟨_, _, h⟩ := except_bind_ok h
  obtain ⟨_, _, h⟩ := except_bind_ok h
  obtain ⟨_, _, h⟩ := except_bind_ok h
  obtain ⟨_, hcontents, _⟩ := except_bind_ok h
  exact fillContents_not_isCheck hcontents

/-! ## The tree -/

section Assembled

variable {levels : Nat} {p : Profile} {enter : Drafting (ModelTree × Descriptor)}
  {contents : List Component} {providers : List DataVar} {validations : List Validation}
  {draft : Draft} {tree : Tree}
  (a : Assembly (Container.setupLevels levels) p enter contents providers validations
    (Draft.start p) tree draft)

include a

/-- The checks in the tree are the container's own, and those among the contents, each taken over by
its owner. -/
theorem Assembly.checks_in_tree : Tree.checks tree =
    (p.checks.map (fun own => (p.name, own)) ++
      checksOf (Component.preorderAll p.name contents)).map fun entry => entry.2.ownedBy entry.1 := by
  obtain ⟨_, hextends⟩ := Tree.ofDeclaration_extends a.lays
  obtain ⟨added, hadded, hstands⟩ := hextends.nodes_root
  have hlaid := setupNodes_checks (fun _ hnode => Tree.unfinished_of_mem a.lays hnode) a.equips
  rw [hadded, List.filterMap_cons_none rfl] at hlaid
  rw [Tree.checks, hlaid, checks_of_standsFor hstands, checksOf_components]

theorem Assembly.checks_own (hnone : checksOf (Component.preorderAll p.name contents) = []) :
    ∀ part ∈ Tree.checks tree, ∃ own ∈ p.checks, own.ownedBy p.name = part := by
  rw [a.checks_in_tree, hnone, List.append_nil, List.map_map]
  exact fun part hpart => List.mem_map.1 hpart

end Assembled

/-! ## An office to look at -/

/-- The rule for the number of items that a part is. -/
def Part.rule? : Part → Option Cardinality
  | .cardinality check => some check.rule
  | _ => none

/-- An office with a rule for a single item in one of its groups. -/
def Container.countedOffice : Container :=
  .mk .sample (.declared .sample
    [.ofGroup ⟨"people", none⟩ [.leaf (.cardinality (.ofRule (.single false)))] []] [] [])

/-! ## The law -/

/-- The checks of the items that stand in the tree of a container are enforced, but for those that
are nested among its contents. When setup of a rule set succeeds, then in the rule set and in all
that it holds, the checks in the tree are the container's own, in their order, and then those among
the contents that the container was declared with, where none stands right among the contents. If
there are none at all, every check in the tree is one of the container's own. The container's own
checks suit its main model and its fields, and its items are accepted exactly if these checks, and
no others, accept them. -/
theorem checks_are_enforced_unless_nested {c c' k : Container} (hsetup : c.setup = (.ok (), c'))
    (hk : c'.Holds k) :
    ∃ (d : Container) (heap : Heap) (tree : Tree),
      c.Declares d ∧ d.Became k ∧ k.heap? = some heap ∧ k.tree? = some tree ∧
      Tree.checks tree = (k.profile.checks.map (fun own => (k.name, own)) ++
        checksOf (Component.preorderAll k.name d.contents)).map
          (fun entry => entry.2.ownedBy entry.1) ∧
      (∀ component ∈ d.contents, component.part.isCheck = false) ∧
      (checksOf (Component.preorderAll k.name d.contents) = [] → ∀ part ∈ Tree.checks tree,
        ∃ own ∈ k.profile.checks, own.ownedBy k.name = part) ∧
      (∀ check, k.profile.cardinality = some check → ∃ model info, d.declaredModel? = some model ∧
        k.profile.models.find? model.model.name = some info ∧
        check.checkShape info.descriptor = .ok ()) ∧
      (∀ u ∈ k.profile.uniques, u.checkFields heap k.profile.config.maxSuggestions = .ok ()) ∧
      ∀ items, k.validateChildren items = .ok () ↔
        (∀ check, k.profile.cardinality = some check →
          check.validate items.length true = .ok true) ∧
        ∀ u ∈ k.profile.uniques, u.validate items true = .ok true := by
  obtain ⟨d, hdeclares, hbecame⟩ := Container.became_of_setup hsetup hk
  have hmade := hbecame
  obtain @⟨levels, p, model, contents, _, _, _, _, rfl, henter, hrun⟩ := hmade
  obtain ⟨tree, draft, hr, rfl⟩ := conclude_ok hrun
  obtain ⟨a⟩ := assembly_of_run hr
  obtain ⟨_, hshape, hfields⟩ := checkChildren_ok a.checks
  obtain ⟨id, hmain⟩ := a.main_noted henter
  refine ⟨_, draft.heap, tree, hdeclares, hbecame, rfl, rfl, a.checks_in_tree,
    Tree.contents_not_isCheck a.lays, a.checks_own, fun check hcheck => ?_, hfields,
    fun items => ?_⟩
  · exact ⟨model, _, rfl, hmain, hshape check hcheck⟩
  · rw [Container.validateChildren_ok_iff rfl]
    simp only [CardinalityCheck.validate_raise_ok_iff, UniqueCheck.validate_raise_ok_iff, true_and]

/-- The two checks in the tree of a team are its own. -/
theorem checks_are_enforced_unless_nested_in_a_team : ∃ (c team : Container) (tree : Tree),
    Container.teamOffice.setup = (.ok (), c) ∧ c.Holds team ∧ team.tree? = some tree ∧
      (Tree.checks tree).length = 2 ∧ ∀ part ∈ Tree.checks tree,
        ∃ own ∈ team.profile.checks, own.ownedBy team.name = part := by
  have hok : Container.teamOffice.setup.1.isOk := by decide +kernel
  have hteam : Container.teamOffice.setup.2.extensions.map (fun team =>
      (team.tree?.map fun tree => (Tree.checks tree).length, team.profile.checks.length)) =
      [(some 2, 2)] := by decide +kernel
  generalize hsetup : Container.teamOffice.setup = result at hok hteam
  obtain ⟨_ | ⟨⟩, c⟩ := result
  · cases hok
  obtain ⟨team, hextensions, hcounts⟩ := List.map_eq_singleton_iff.1 hteam
  simp only [Prod.mk.injEq, Option.map_eq_some_iff] at hcounts
  obtain ⟨⟨tree, htree, hcount⟩, hown⟩ := hcounts
  have hmem : team ∈ c.extensions := by rw [hextensions]; exact List.mem_singleton_self team
  obtain ⟨around, node, haround, hnode, hpart⟩ := Container.mem_extensions hmem
  have hholds : c.Holds team := .inside haround hnode hpart (.self team)
  obtain ⟨d, _, tree', _, _, _, htree', hchecks, _, howned, _⟩ :=
    checks_are_enforced_unless_nested hsetup hholds
  obtain rfl := Option.some.inj (htree.symm.trans htree')
  refine ⟨c, team, tree, rfl, hholds, htree, hcount, howned ?_⟩
  have hlength := congrArg List.length hchecks
  simp only [List.length_map, List.length_append, hcount, hown] at hlength
  exact List.length_eq_zero_iff.1 (by omega)

/-- The rule for a single item stands in the tree of the office, below the group, and two items are
accepted all the same. -/
theorem a_nested_check_is_not_enforced : ∃ (c : Container) (tree : Tree),
    Container.countedOffice.setup = (.ok (), c) ∧ c.tree? = some tree ∧
      (Tree.checks tree).map Part.rule? = [some (.single false)] ∧ c.profile.checks.length = 0 ∧
      c.validateChildren [.null, .null] = .ok () ∧ ¬ (Cardinality.single false).Allows 2 := by
  have hok : Container.countedOffice.setup.1.isOk := by decide +kernel
  have hrules : Container.countedOffice.setup.2.tree?.map (fun tree =>
      (Tree.checks tree).map Part.rule?) = some [some (.single false)] := by decide +kernel
  have hown : Container.countedOffice.setup.2.profile.checks.length = 0 := by decide +kernel
  have hitems : (Container.countedOffice.setup.2.validateChildren [.null, .null]).isOk := by
    decide +kernel
  generalize Container.countedOffice.setup = result at hok hrules hown hitems
  obtain ⟨_ | ⟨⟩, c⟩ := result
  · cases hok
  obtain ⟨tree, htree, hrules⟩ := Option.map_eq_some_iff.1 hrules
  refine ⟨c, tree, rfl, htree, hrules, hown, ?_, by simp [Cardinality.Allows]⟩
  rcases hvalid : c.validateChildren [.null, .null] with e | ⟨⟩
  · rw [hvalid] at hitems
    cases hitems
  · rfl

end Formwork
