-- The models of a container, in its notes, in its heap and in its tree. What is registered stands in
-- the tree under the same names and in the same order. A model that is put among the contents stands
-- in the tree as well, after the others, but nobody has registered it.
import Formwork.Proofs.Container.Fields
import Formwork.Proofs.Container.Readiness

namespace Formwork

open Drafting

/-! ## Names of one kind -/

/-- The names of the nodes of a kind, in order. -/
def TreeOf.namesOfKind {α : Type} (kind : ComponentKind) (t : TreeOf α) : List String :=
  (t.nodes.filter fun node => node.kind = kind).map NodeOf.name

/-- The names that declared parts of a kind get, in order. -/
def namesOfKind (kind : ComponentKind) (declared : List (String × Part)) : List String :=
  namesOf (declared.filter fun entry => entry.2.kind = kind)

/-- The names of one kind stand among all names. -/
theorem namesOfKind_sublist (kind : ComponentKind) (declared : List (String × Part)) :
    (namesOfKind kind declared).Sublist (namesOf declared) := List.filter_sublist.map _

/-- A model as a component gives the names of all its models. -/
theorem namesOfKind_ofModel (owner : String) (model : ModelTree) :
    namesOfKind .model ((Component.ofModel model).preorder owner) = model.all.map (·.name) := by
  have hall : ((Component.ofModel model).preorder owner).filter
      (fun entry => entry.2.kind = .model) = (Component.ofModel model).preorder owner := by
    refine List.filter_eq_self.2 fun entry he => ?_
    obtain ⟨m, _, hm⟩ := Component.mem_preorder_ofModel he
    rw [hm]
    rfl
  have hnames : namesOf ((Component.ofModel model).preorder owner) =
      (((Component.ofModel model).preorder owner).map Prod.snd).map (Part.nameIn owner) := by
    rw [List.map_map]
    refine List.map_congr_left fun entry he => ?_
    obtain ⟨m, _, hm⟩ := Component.mem_preorder_ofModel he
    rw [Function.comp_apply, hm]
    rfl
  rw [namesOfKind, hall, hnames, Component.preorder_ofModel, List.map_map]
  rfl

/-- Besides the main model, a container declares models in its contents only. -/
theorem namesOfKind_components (p : Profile) (model : ModelTree) (contents : List Component)
    (providers : List DataVar) (validations : List Validation) :
    namesOfKind .model (Component.preorderAll p.name
      (Tree.components p model contents providers validations)) =
      model.all.map (·.name) ++ namesOfKind .model (Component.preorderAll p.name contents) := by
  have hchecks : p.checks.filter (fun own => own.kind = .model) = [] := by
    refine List.filter_eq_nil_iff.2 fun own hown => ?_
    rcases Profile.kind_of_mem_checks hown with h | h <;> simp [h]
  rw [namesOfKind, Tree.filter_components (fun part => part.kind = .model) (fun _ => rfl)
    (fun _ => rfl), hchecks, List.map_nil, List.append_nil, ← namesOfKind_ofModel p.name]
  exact List.map_append

/-! ## The tree -/

theorem namesOfKind_of_standsFor (kind : ComponentKind) {declared : List (String × Part)}
    {added : List Node} (h : List.Forall₂ StandsFor declared added) :
    (added.filter fun node => node.kind = kind).map NodeOf.name = namesOfKind kind declared := by
  induction h with
  | nil => rfl
  | @cons entry node _ _ hstands _ ih =>
    rw [namesOfKind, List.filter_cons, List.filter_cons, hstands.kind]
    by_cases hkind : entry.2.kind = kind
    · simp only [hkind, decide_true, if_true, List.map_cons, ih, hstands.name]
      rfl
    · simp only [hkind, decide_false, Bool.false_eq_true, if_false, ih]
      rfl

/-- The names of one kind depend on the places of the nodes only. -/
theorem TreeOf.namesOfKind_of_places {α : Type} {t t' : TreeOf α}
    (h : t'.nodes.map NodeOf.place = t.nodes.map NodeOf.place) (kind : ComponentKind) :
    t'.namesOfKind kind = t.namesOfKind kind := by
  have hplaces : ∀ s : TreeOf α, s.namesOfKind kind =
      ((s.nodes.map NodeOf.place).filter fun node => node.kind = kind).map NodeOf.name := by
    intro s
    rw [namesOfKind, List.filter_map, List.map_map]
    rfl
  rw [hplaces, hplaces, h]

theorem Role.kind_ne_model (role : Role) : role.kind ≠ .model := by
  cases role <;> exact ComponentKind.noConfusion

section Assembled

variable {levels : Nat} {p : Profile} {model : ModelTree}
  {enter : Drafting (ModelTree × Descriptor)} {contents : List Component}
  {providers : List DataVar} {validations : List Validation} {draft : Draft} {tree : Tree}
  (a : Assembly (Container.setupLevels levels) p enter contents providers validations
    (Draft.start p) tree draft)

include a

/-- The nodes of a container that was set up have the names and the kinds that were declared. -/
theorem Assembly.namesOfKind {kind : ComponentKind} (hkind : p.role.kind ≠ kind) :
    tree.namesOfKind kind = Formwork.namesOfKind kind (Component.preorderAll p.name
      (Tree.components p a.model contents providers validations)) := by
  obtain ⟨roots, hextends⟩ := Tree.ofDeclaration_extends a.lays
  obtain ⟨added, hadded, hstands⟩ := hextends.nodes_root
  have hroot : (Tree.containerNode p.name p.role roots).kind ≠ kind := hkind
  rw [TreeOf.namesOfKind_of_places a.places, TreeOf.namesOfKind, hadded, List.filter_cons,
    if_neg (by simpa using hroot)]
  exact namesOfKind_of_standsFor kind hstands

/-- No two nodes of a kind have one name. -/
theorem Assembly.nodup_namesOfKind {kind : ComponentKind} (hkind : p.role.kind ≠ kind) :
    (tree.namesOfKind kind).Nodup := by
  rw [a.namesOfKind hkind]
  exact (namesOfKind_sublist kind _).nodup (Tree.nodup_ofDeclaration a.lays)

variable (henter : Enters p model enter)

include henter

/-- The models in the tree are those that are noted, and those among the contents. -/
theorem Assembly.models_in_tree : tree.namesOfKind .model =
    draft.models.keys ++ Formwork.namesOfKind .model (Component.preorderAll p.name contents) := by
  have hmodels : draft.models = a.entered.models := (a.staged henter).models_eq
  have hkeys : a.entered.models.keys = a.model.all.map (·.name) :=
    (henter.enrolls a.enters).1.keys
  rw [a.namesOfKind p.role.kind_ne_model, namesOfKind_components, hmodels, hkeys]

/-- What is noted of the models is recorded in the finished heap. -/
theorem Assembly.records : draft.heap.Records draft.models := by
  have hstaged := a.staged henter
  have hmodels : draft.models = a.entered.models := hstaged.models_eq
  have hstart : (Draft.start p).heap.Records (Draft.start p).models := fun _ _ hi => by cases hi
  have hrecords := ((henter.enrolls a.enters).1.records hstart).accrues hstaged.accrues
  rw [hmodels, congrArg Draft.heap a.frozen_eq]
  exact hrecords.accrues (.frozen _)

/-- The main model is noted with the shape that the checks of the items are held against. -/
theorem Assembly.main_noted : ∃ id, draft.models.find? model.model.name = some ⟨a.main, id⟩ := by
  have hmodels : draft.models = a.entered.models := (a.staged henter).models_eq
  rw [hmodels]
  exact (henter.enrolls a.enters).2

end Assembled

/-! ## An office to look at -/

/-- An office with whoever has the chair of the company as a second model, and with a branch among
its components. -/
def Container.branchOffice : Container :=
  let company : ModelSource := .type (.plain (.model RecordModel.sample))
  let model : ModelTree :=
    .node ⟨"company", company⟩ [.node ⟨"chair", .expression (.ofModels "company" ["boss"])⟩ []]
  .mk (newProfile "office" .ruleSet model none)
    (.declared model [.ofGroup ⟨"people", none⟩ [.ofModel (.node ⟨"branch", company⟩ [])] []] [] [])

/-- The setup of the office notes two models, and leaves three in the tree. The chair is an alias of
the boss of the company. -/
theorem Container.branchOffice_setup : ∃ c heap tree, branchOffice.setup = (.ok (), c) ∧
    c.heap? = some heap ∧ heap.lookup .models "company.boss" = heap.lookup .models "chair" ∧
    c.tree? = some tree ∧ tree.namesOfKind .model = ["company", "chair", "branch"] ∧
    c.profile.models.keys = ["company", "chair"] := by
  have hok : branchOffice.setup.1.isOk := by decide +kernel
  have halias : branchOffice.setup.2.heap?.map (fun heap =>
      decide (heap.lookup .models "company.boss" = heap.lookup .models "chair")) = some true := by
    decide +kernel
  have hnames : branchOffice.setup.2.tree?.map (TreeOf.namesOfKind .model) =
      some ["company", "chair", "branch"] := by decide +kernel
  have hkeys : branchOffice.setup.2.profile.models.keys = ["company", "chair"] := by
    decide +kernel
  generalize branchOffice.setup = result at hok halias hnames hkeys
  obtain ⟨_ | ⟨⟩, c⟩ := result
  · cases hok
  · obtain ⟨heap, hheap, halias⟩ := Option.map_eq_some_iff.1 halias
    obtain ⟨tree, htree, hnames⟩ := Option.map_eq_some_iff.1 hnames
    exact ⟨c, heap, tree, rfl, hheap, of_decide_eq_true halias, htree, hnames, hkeys⟩

/-! ## The law -/

/-- The notes, the heap and the tree of a container agree on its models, but for models that are put
among its contents. When setup of a rule set succeeds, then in the rule set and in all that it
holds, the models in the tree are those that are noted, in the same order, and then those among the
contents that the container was declared with. So the tree and the notes name the same models
exactly if there are none among the contents. Whatever is noted leads to the variable that the heap
has under this name in the namespace of the models, which has the shape that is noted. -/
theorem models_are_registered_unless_among_the_contents {c c' k : Container}
    (hsetup : c.setup = (.ok (), c')) (hk : c'.Holds k) :
    ∃ d heap tree, c.Declares d ∧ d.Became k ∧ k.heap? = some heap ∧ k.tree? = some tree ∧
      tree.namesOfKind .model = k.profile.models.keys ++
        namesOfKind .model (Component.preorderAll d.name d.contents) ∧
      ((∀ name, name ∈ tree.namesOfKind .model ↔ name ∈ k.profile.models.keys) ↔
        namesOfKind .model (Component.preorderAll d.name d.contents) = []) ∧
      ∀ name info, k.profile.models.find? name = some info →
        heap.lookup .models name = some info.id ∧
          ∃ v, heap.find? info.id = some v ∧ v.descriptor? = some info.descriptor := by
  obtain ⟨d, hdeclares, hbecame⟩ := Container.became_of_setup hsetup hk
  have hmade := hbecame
  obtain @⟨levels, p, model, contents, _, _, _, _, rfl, henter, hrun⟩ := hmade
  obtain ⟨tree, draft, hr, rfl⟩ := conclude_ok hrun
  obtain ⟨a⟩ := assembly_of_run hr
  have hnames := a.models_in_tree henter
  refine ⟨_, draft.heap, tree, hdeclares, hbecame, rfl, rfl, hnames, ?_, a.records henter⟩
  have hnodup := a.nodup_namesOfKind p.role.kind_ne_model
  rw [hnames] at hnodup ⊢
  constructor
  · intro hsame
    refine List.eq_nil_iff_forall_not_mem.2 fun name hmem => ?_
    have hkey := (hsame name).1 (List.mem_append_right _ hmem)
    exact (List.nodup_append.1 hnodup).2.2 name hkey name hmem rfl
  · intro hnone name
    have hnone' : namesOfKind .model (Component.preorderAll p.name contents) = [] := hnone
    rw [hnone', List.append_nil]
    rfl

/-- In the office, the chair is noted with the variable of the boss of the company, and the branch is
the only model that is not noted. -/
theorem models_are_registered_unless_among_the_contents_of_an_office :
    ∃ (c d : Container) (heap : Heap) (info : ModelInfo) (v : Variable),
      Container.branchOffice.setup = (.ok (), c) ∧ d.Became c ∧ c.heap? = some heap ∧
      namesOfKind .model (Component.preorderAll d.name d.contents) = ["branch"] ∧
      c.profile.models.find? "chair" = some info ∧
      heap.lookup .models "company.boss" = some info.id ∧ heap.find? info.id = some v ∧
      v.descriptor? = some info.descriptor := by
  obtain ⟨c, heap, tree, hsetup, hheap, halias, htree, hnames, hkeys⟩ :=
    Container.branchOffice_setup
  obtain ⟨d, heap', tree', _, hbecame, hheap', htree', hsplit, _, hrecords⟩ :=
    models_are_registered_unless_among_the_contents hsetup (.self c)
  obtain rfl := Option.some.inj (hheap.symm.trans hheap')
  obtain rfl := Option.some.inj (htree.symm.trans htree')
  rw [hnames, hkeys] at hsplit
  have hbranch := List.append_cancel_left (show ["company", "chair"] ++ ["branch"] = _ from hsplit)
  have hchair : c.profile.models.has "chair" := by
    rw [Ordered.has_iff_mem_keys, hkeys]
    decide
  obtain ⟨info, hinfo⟩ := Option.isSome_iff_exists.1 hchair
  obtain ⟨hl, v, hv, hd⟩ := hrecords "chair" info hinfo
  exact ⟨c, d, heap, info, v, hsetup, hbecame, hheap, hbranch.symm, hinfo, halias.trans hl, hv, hd⟩

/-- The branch in the office has its node, and nothing is noted under its name. -/
theorem a_model_among_the_contents_is_not_registered : ∃ c tree,
    Container.branchOffice.setup = (.ok (), c) ∧ c.tree? = some tree ∧
      "branch" ∈ tree.namesOfKind .model ∧ "branch" ∉ c.profile.models.keys := by
  obtain ⟨c, _, tree, hsetup, _, _, htree, hnames, hkeys⟩ := Container.branchOffice_setup
  refine ⟨c, tree, hsetup, htree, ?_, ?_⟩
  · rw [hnames]
    decide
  · rw [hkeys]
    decide

end Formwork
