-- The names of components. A name that a declaration gives is an identifier, since the builders take
-- no other. A check without a name joins its kind to the name of its owner, which makes an identifier
-- of an identifier. But a field that is given no name takes the attributes of its bind, and those
-- may be any texts: whatever a model calls its attributes.
import Formwork.Proofs.Component.Outline
import Formwork.Proofs.Container.Declaring
import Formwork.Proofs.Container.Fields
import Formwork.Proofs.Container.Owners

namespace Formwork

open Drafting

/-! ## Identifiers -/

/-- The text has nothing but letters, digits and underscores. -/
def isWord (text : String) : Bool := text.toList.all fun c => c.isAlphanum || c == '_'

theorem isWord_append (a b : String) : isWord (a ++ b) ↔ isWord a ∧ isWord b := by
  simp only [isWord, String.toList_append, List.all_append, Bool.and_eq_true]

/-- What is joined to an identifier keeps it one exactly if it is a word. -/
theorem isIdentifier_join (a b : String) :
    isIdentifier (a ++ "__" ++ b) ↔ isIdentifier a ∧ isWord b := by
  unfold isIdentifier
  rcases ha : a.toList with _ | ⟨first, rest⟩
  · have hbar : (a ++ "__" ++ b).toList = '_' :: '_' :: b.toList := by
      rw [String.toList_append, String.toList_append, ha]
      rfl
    rw [hbar]
    simp
  · have hjoined : (a ++ "__" ++ b).toList = first :: (rest ++ ("__".toList ++ b.toList)) := by
      rw [String.toList_append, String.toList_append, ha, List.append_assoc, List.cons_append]
    rw [hjoined]
    have hbar : "__".toList.all (fun c => c.isAlphanum || c == '_') = true := by decide
    simp only [isWord, List.all_append, Bool.and_eq_true, hbar, true_and, and_assoc]

/-- Texts joined by underscores make an identifier exactly if the first is one and the others are
words. -/
theorem isIdentifier_intercalate (first : String) (rest : List String) :
    isIdentifier ("__".intercalate (first :: rest)) ↔
      isIdentifier first ∧ ∀ text ∈ rest, isWord text := by
  have hwords : ∀ texts : List String,
      isWord ("__".intercalate texts) ↔ ∀ text ∈ texts, isWord text := by
    intro texts
    induction texts with
    | nil => exact iff_of_true rfl (List.forall_mem_nil _)
    | cons text rest ih =>
      cases rest with
      | nil => simp
      | cons next rest =>
        rw [String.intercalate_cons_cons, isWord_append, isWord_append, ih,
          List.forall_mem_cons (l := next :: rest)]
        exact ⟨fun h => ⟨h.1.1, h.2⟩, fun h => ⟨⟨h.1, by decide⟩, h.2⟩⟩
  cases rest with
  | nil => simp
  | cons next rest => rw [String.intercalate_cons_cons, isIdentifier_join, hwords]

theorem ComponentKind.isWord_suffix (kind : ComponentKind) : isWord kind.suffix := by
  cases kind <;> decide +kernel

/-- A check without a name gets an identifier exactly if its owner has one. -/
theorem Part.isIdentifier_nameIn {part : Part} (hnone : part.declaredName? = none)
    (owner : String) : isIdentifier (part.nameIn owner) ↔ isIdentifier owner := by
  unfold Part.nameIn
  rw [hnone, Option.getD_none, isIdentifier_join]
  exact and_iff_left part.kind.isWord_suffix

/-! ## Names taken from binds -/

/-- The attributes after the model are words, and the first of them is an identifier. Without any,
the model itself is one. -/
def Expression.SpellsName : Expression → Prop
  | .path _ root [] _ => isIdentifier root.name
  | .path _ _ (first :: rest) _ => isIdentifier first.name ∧ ∀ hop ∈ rest, isWord hop.name
  | .computed .. => False

/-- The name that a field takes from its bind is an identifier exactly if the bind spells one. -/
theorem Field.isIdentifier_nameOfBind {bind : Expression} {name : String}
    (h : nameOfBind bind = .ok name) : isIdentifier name ↔ bind.SpellsName := by
  rcases bind with ⟨ns, root, _ | ⟨first, rest⟩, state⟩ | ⟨operation, hops, state⟩
  · cases h
    rfl
  · cases h
    rw [List.map_cons, isIdentifier_intercalate, List.forall_mem_map]
    rfl
  · cases h

theorem Field.nameOfBind_reset_ok_iff {bind : Expression} {name : String} :
    nameOfBind bind.reset = .ok name ↔ nameOfBind bind = .ok name := by
  rcases bind with ⟨ns, root, _ | _, state⟩ | ⟨operation, hops, state⟩
  · rfl
  · rfl
  · exact iff_of_false (fun h => by cases h) (fun h => by cases h)

/-- Resolving a bind changes nothing of the name that it gives. -/
theorem setupField_nameOfBind {config : Config} {f f' : Field} {draft draft' : Draft}
    (hr : (setupField config f).run draft = (.ok f', draft')) {name : String} :
    Field.nameOfBind f'.bind = .ok name ↔ Field.nameOfBind f.bind = .ok name := by
  obtain ⟨_, _, hbind, _⟩ := setupField_ok hr
  obtain ⟨_, _, _, hsame, _⟩ := bindField_ok hbind
  rw [hsame, ← Field.nameOfBind_reset_ok_iff, Expression.reset_setup, Field.nameOfBind_reset_ok_iff]

/-! ## The names of models -/

theorem registerModel_name {container : String} {m m' : BoundModel} {d : Descriptor}
    {draft draft' : Draft} (hr : (registerModel container m).run draft = (.ok (m', d), draft')) :
    m'.name = m.name := by
  unfold registerModel at hr
  rw [Step.run_bind, Step.run_get] at hr
  dsimp only at hr
  simp only [throw_bind] at hr
  split at hr
  · cases hr
  split at hr
  · obtain ⟨_, _, _, hr⟩ := Step.run_bind_ok hr
    cases hr
    rfl
  · obtain ⟨declared, _, _, hr⟩ := Step.run_bind_ok hr
    rcases declared with _ | descriptor
    · cases hr
    · obtain ⟨_, _, _, hr⟩ := Step.run_bind_ok hr
      cases hr
      rfl

mutual

/-- Registering models changes nothing that shows in an outline. -/
theorem registerTree_outline {container : String} {draft draft' : Draft} {tree' : ModelTree}
    {d : Descriptor} {depth : Nat} : ∀ {tree : ModelTree},
    (registerTree container tree).run draft = (.ok (tree', d), draft') →
    tree'.outline depth = tree.outline depth
  | .node m nested, hr => by
    unfold registerTree at hr
    obtain ⟨_, _, hm, hr⟩ := Step.run_bind_ok hr
    obtain ⟨_, _, hnested, hr⟩ := Step.run_bind_ok hr
    cases hr
    rw [ModelTree.outline, ModelTree.outline, registerModel_name hm, registerTrees_outline hnested]

theorem registerTrees_outline {container : String} {draft draft' : Draft}
    {trees' : List ModelTree} {depth : Nat} : ∀ {trees : List ModelTree},
    (registerTrees container trees).run draft = (.ok trees', draft') →
    ModelTree.outlineAll depth trees' = ModelTree.outlineAll depth trees
  | [], hr => by
    cases hr
    rfl
  | tree :: rest, hr => by
    unfold registerTrees at hr
    obtain ⟨_, _, htree, hr⟩ := Step.run_bind_ok hr
    obtain ⟨_, _, hrest, hr⟩ := Step.run_bind_ok hr
    cases hr
    rw [ModelTree.outlineAll, ModelTree.outlineAll, registerTree_outline htree,
      registerTrees_outline hrest]

end

/-- However the models come in, they keep their outline. -/
theorem Enters.outline {p : Profile} {model model' : ModelTree}
    {enter : Drafting (ModelTree × Descriptor)} (h : Enters p model enter) {d : Descriptor}
    {draft : Draft} (hr : enter.run (Draft.start p) = (.ok (model', d), draft)) (depth : Nat) :
    model'.outline depth = model.outline depth := by
  cases h with
  | ruleSet => exact registerTree_outline hr
  | extension m nested outer =>
    obtain ⟨_, _, _, _, _, _, hresult, _, hnested⟩ := enterExtension_ok hr
    cases hresult
    rw [ModelTree.outline, ModelTree.outline, linkOuter_name, registerTrees_outline hnested]

theorem Enters.names {p : Profile} {model model' : ModelTree}
    {enter : Drafting (ModelTree × Descriptor)} (h : Enters p model enter) {d : Descriptor}
    {draft : Draft} (hr : enter.run (Draft.start p) = (.ok (model', d), draft)) :
    model'.all.map (·.name) = model.all.map (·.name) := by
  have hnames := congrArg (List.map Entry.name) (h.outline hr 0)
  rwa [ModelTree.map_name_outline, ModelTree.map_name_outline] at hnames

/-! ## Names in a tree -/

/-- The name of the node is taken from a bind that spells none: the node's own bind, or that of a
field further out, to whose name the kind of a check is joined. -/
inductive Tree.Strays (t : Tree) : Node → Prop where
  | field {node : Node} {f : Field} : node.part = some (.field f) →
    Field.nameOfBind f.bind = .ok node.name → ¬ f.bind.SpellsName → Strays t node
  | check {node above : Node} {owner : Nat} : node.owner = .component owner →
    t.get? owner = some above → node.name = above.name ++ "__" ++ node.kind.suffix →
    Strays t above → Strays t node

theorem Tree.Strays.not_isIdentifier {t : Tree} {node : Node} (h : t.Strays node) :
    ¬ isIdentifier node.name := by
  induction h with
  | field _ hname hspells =>
    rw [Field.isIdentifier_nameOfBind hname]
    exact hspells
  | check _ _ hname _ ih =>
    rw [hname, isIdentifier_join]
    exact fun h => ih h.1

section Assembled

variable {E : Expression → Prop} {levels : Nat} {p : Profile} {model : ModelTree}
  {enter : Drafting (ModelTree × Descriptor)} {contents : List Component}
  {providers : List DataVar} {rules : List Validation} {draft : Draft} {tree : Tree}
  (a : Assembly (Container.setupLevels levels) p enter contents providers rules (Draft.start p) tree
    draft)
  (henter : Enters p model enter)
  (hmade : (Container.mk p (.declared model contents providers rules)).WellMade E)

include a henter hmade

/-- All that is laid out is labelled. -/
theorem Assembly.labelled : ∀ entry ∈ Component.preorderAll p.name
    (Tree.components p a.model contents providers rules), entry.2.Labelled := by
  cases hmade with
  | declared _ _ hmodels hchecks hcontents _ _ hproviders hrules =>
    have hentered : ∀ m ∈ a.model.all, isIdentifier m.name := by
      intro m hm
      have hname := List.mem_map_of_mem (f := BoundModel.name) hm
      rw [henter.names a.enters] at hname
      obtain ⟨m₀, hm₀, hsame⟩ := List.mem_map.1 hname
      rcases (hmodels m₀ hm₀).labelled _ rfl with h | ⟨f, hf, _⟩
      · exact hsame ▸ h
      · cases hf
    rw [Tree.parts_of_components]
    simp only [List.forall_mem_append, List.forall_mem_map]
    refine ⟨⟨⟨⟨fun entry he => ?_, ?_⟩, ?_⟩, ?_⟩, ?_⟩
    · obtain ⟨m, hm, hpart⟩ := Component.mem_preorder_ofModel he
      rw [hpart]
      rintro _ ⟨⟩
      exact .inl (hentered m hm)
    · exact fun own hown => (hchecks own hown).labelled
    · exact fun entry he => (hcontents _ entry he).labelled
    · exact fun d hd => (hproviders d hd).labelled
    · exact fun rule hrule => (hrules rule hrule).labelled

/-- A node has an identifier for a name unless it strays. The induction is on the position: a check
without a name depends on its owner, which stands before it. -/
theorem Assembly.strays (id : Nat) : ∀ node, tree.get? id = some node →
    ¬ isIdentifier node.name → tree.Strays node := by
  induction id using Nat.strongRecOn with
  | ind id ih =>
    intro node hnode hname
    rcases Nat.eq_zero_or_pos id with rfl | hpos
    · obtain ⟨_, hroot⟩ := a.root
      rw [hroot] at hnode
      cases hnode
      cases hmade with
      | declared hcontainer => exact absurd hcontainer hname
    · obtain ⟨owner, above, hlt, habove, howner, _, part, he, hnamed, hkind, _, set, d, d', hset,
        hrun⟩ := a.owned hnode hpos
      have hlabelled := a.labelled henter hmade _ he
      rcases hdeclared : part.declaredName? with _ | name
      · rw [hnamed, Part.isIdentifier_nameIn hdeclared] at hname
        refine .check howner habove ?_ (ih owner hlt above habove hname)
        rw [hnamed, Part.nameIn, hdeclared, hkind]
        rfl
      · have hsame : node.name = name := by rw [hnamed, Part.nameIn, hdeclared]; rfl
        rcases hlabelled name hdeclared with h | ⟨f, rfl, hbind⟩
        · exact absurd (hsame ▸ h) hname
        · obtain ⟨f', _, hfield, hrest⟩ := Step.run_bind_ok hrun
          cases hrest
          have hbind' := (setupField_nameOfBind hfield).2 (hsame ▸ hbind)
          refine .field hset hbind' ?_
          rw [← Field.isIdentifier_nameOfBind hbind']
          exact hname

end Assembled

/-! ## The law -/

/-- Names of components are identifiers, unless they are taken from a bind. Let a rule set be built
from whatever expressions, and let its setup succeed. Then, in it and in all that it holds, a
component has an identifier for a name exactly if its name does not stray: it is not that of a field
that is named after a bind whose attributes are other texts than words, nor is it joined from such a
name. -/
theorem names_are_identifiers_unless_taken_from_a_bind {E : Expression → Prop}
    {c c' k : Container} {tree : Tree} {node : Node} (hbuilt : c.Built E)
    (hsetup : c.setup = (.ok (), c')) (hk : c'.Holds k) (htree : k.tree? = some tree)
    (hnode : node ∈ tree.nodes) : isIdentifier node.name ↔ ¬ tree.Strays node := by
  obtain ⟨hmade, henter, h⟩ :=
    (Container.assembled_of_setup hbuilt.wellMade.1 hsetup).holds inherited_wellMade hk
  obtain ⟨tree', draft, hr, rfl⟩ := conclude_ok h
  obtain ⟨a⟩ := assembly_of_run hr
  cases htree
  obtain ⟨id, hid⟩ := List.getElem?_of_mem hnode
  refine ⟨fun hname hstrays => hstrays.not_isIdentifier hname, fun hstrays => ?_⟩
  by_contra hname
  exact hstrays (a.strays henter hmade id node hid hname)

/-- A field for an attribute that is called by two words. -/
def Field.town : Field :=
  ⟨"home town", .ofModels "company" ["home town"], .input, .input, none, none, none, none, none⟩

/-- A company with a home town. -/
def ModelTree.townCompany : ModelTree :=
  let town : ModelField := ⟨"home town", .plain (.scalar .str), true, none⟩
  .node ⟨"company", .type (.plain (.model ⟨"Company", .struct, [town]⟩))⟩ []

/-- An office that shows the home town of its company. -/
def Container.townOffice : Container :=
  .mk (newProfile "office" .ruleSet .townCompany none)
    (.declared .townCompany [.ofField .town [] []] [] [])

theorem Container.townOffice_built : Container.townOffice.Built fun _ => True := by
  have hcompany : BoundModel.ofType "company" (.plain (.model ⟨"Company", .struct,
      [⟨"home town", .plain (.scalar .str), true, none⟩]⟩)) = .ok ModelTree.townCompany.model := rfl
  have hmodel : ModelTree.townCompany.Built fun _ => True :=
    .node (.ofType hcompany) (List.forall_mem_nil _)
  have htown : Field.ofKind (.ofModels "company" ["home town"]) .input = .ok Field.town := rfl
  have hfield : Field.town.Built fun _ => True := .ofKind trivial (fun _ _ => trivial) htown
  have hnew : ruleSet "office" .townCompany = .ok (.mk (newProfile "office" .ruleSet .townCompany none)
      (.declared .townCompany [] [] [])) := rfl
  exact .declaring (.ruleSet hmodel hnew) (List.forall_mem_singleton.2 (.field hfield
    (List.forall_mem_nil _) (List.forall_mem_nil _))) (List.forall_mem_nil _)
    (List.forall_mem_nil _)

theorem Container.townOffice_setup : ∃ c tree node, Container.townOffice.setup = (.ok (), c) ∧
    c.tree? = some tree ∧ node ∈ tree.nodes ∧ node.name = "home town" := by
  have hok : Container.townOffice.setup.1.isOk := by decide +kernel
  have hnames : (Container.townOffice.setup.2.tree?.map fun t => t.nodes.map NodeOf.name) =
      some ["office", "company", "home town"] := by decide +kernel
  generalize Container.townOffice.setup = result at hok hnames
  obtain ⟨_ | ⟨⟩, c⟩ := result
  · cases hok
  obtain ⟨tree, htree, hnames⟩ := Option.map_eq_some_iff.1 hnames
  have hmem : "home town" ∈ tree.nodes.map NodeOf.name := by
    rw [hnames]
    decide
  obtain ⟨node, hnode, hname⟩ := List.mem_map.1 hmem
  exact ⟨c, tree, node, rfl, htree, hnode, hname⟩

/-- The name of the field strays, since it is none. -/
theorem names_are_identifiers_unless_taken_from_a_bind_in_an_office : ∃ c tree node,
    (Container.townOffice.Built fun _ => True) ∧ Container.townOffice.setup = (.ok (), c) ∧
      c.Holds c ∧ c.tree? = some tree ∧ node ∈ tree.nodes ∧ node.name = "home town" ∧
      tree.Strays node := by
  obtain ⟨c, tree, node, hsetup, htree, hnode, hname⟩ := Container.townOffice_setup
  have hiff := names_are_identifiers_unless_taken_from_a_bind Container.townOffice_built hsetup
    (.self c) htree hnode
  have hno : ¬ isIdentifier node.name := by
    rw [hname]
    decide
  exact ⟨c, tree, node, Container.townOffice_built, hsetup, .self c, htree, hnode, hname,
    not_not.1 fun h => hno (hiff.2 h)⟩

/-- A name with a blank is taken from a bind: the office is built as it should be and its setup
succeeds, and still a component is not named by an identifier. -/
theorem a_name_taken_from_a_bind_has_a_blank : ∃ c tree node,
    (Container.townOffice.Built fun _ => True) ∧ Container.townOffice.setup = (.ok (), c) ∧
      c.tree? = some tree ∧ node ∈ tree.nodes ∧ ¬ isIdentifier node.name := by
  obtain ⟨c, tree, node, hsetup, htree, hnode, hname⟩ := Container.townOffice_setup
  refine ⟨c, tree, node, Container.townOffice_built, hsetup, htree, hnode, ?_⟩
  rw [hname]
  decide

end Formwork
