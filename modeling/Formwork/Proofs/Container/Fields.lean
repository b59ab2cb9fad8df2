-- The components of a container and their variables. Every component gets a variable as the tree
-- is laid out, and nothing that happens later adds another one, moves one or opens up one that is
-- denied. A field that is set up is bound to a variable of the models, and both know of each other
-- ever after.
import Formwork.Proofs.Container.Binding

namespace Formwork

open Drafting

/-- The variable of a node has its position and its kind, and is denied unless the node may be
used. -/
theorem nodeVariable_ok (node : Node) :
    (nodeVariable node).data = .component node.id node.kind ∧
      ((nodeVariable node).denied.isSome ↔ node.kind ≠ .field ∧ node.kind ≠ .dataVar) := by
  unfold nodeVariable
  dsimp only
  rcases node.kind <;> simp [ComponentKind.isReferenceable, Variable.deny, Variable.fresh]

/-! ## Variables of components -/

namespace Heap

/-- The names of the components are those of the nodes, in order. Each node has its variable under
its own name, and nobody refers to one that is denied. -/
structure Mirrors (h : Heap) (nodes : List Node) : Prop where
  names : h.namesOf .fields = nodes.map NodeOf.name
  own : ∀ node ∈ nodes, ∃ var v, h.lookup .fields node.name = some var ∧
    h.find? var = some v ∧ v.core = (nodeVariable node).core ∧
    (v.denied.isSome → v.references = [])

namespace Mirrors

variable {mine : Namespace → Prop} {h h' : Heap} {nodes : List Node}

theorem empty (name : String) (maxSuggestions : Nat) : Mirrors (.empty name maxSuggestions) [] :=
  ⟨rfl, List.forall_mem_nil _⟩

/-- A variable of a component has no attributes, so none is added for them. -/
theorem not_member (hm : Mirrors h nodes) {id : VarId} {v : Variable} {name : String}
    {d : Descriptor} (hv : h.Registered .fields id v) (hd : h.memberShape name v = .ok d) :
      False := by
  obtain ⟨⟨other, hl⟩, hfind⟩ := hv
  have hname := mem_namesOf_iff.2 (Option.isSome_of_eq_some hl)
  rw [hm.names] at hname
  obtain ⟨node, hnode, rfl⟩ := List.mem_map.1 hname
  obtain ⟨var, w, hlw, hw, hcore, _⟩ := hm.own node hnode
  obtain rfl : var = id := Option.some.inj (hlw.symm.trans hl)
  obtain rfl : w = v := Option.some.inj (hw.symm.trans hfind)
  have hdata : w.data = .component node.id node.kind :=
    (Variable.eq_of_core hcore).2.1.trans (nodeVariable_ok node).1
  unfold memberShape shapeFor at hd
  rw [hdata] at hd
  cases hd

/-- What is found where it was, and keeps its core and its references, mirrors the same nodes. -/
theorem of_kept (hm : Mirrors h nodes) (hnames : h'.namesOf .fields = h.namesOf .fields)
    (hlookup : ∀ name id, h.lookup .fields name = some id → h'.lookup .fields name = some id)
    (hkept : ∀ id v, h.find? id = some v → ∃ w, h'.find? id = some w ∧ w.core = v.core ∧
      (v.denied.isSome → w.references = v.references)) : Mirrors h' nodes := by
  refine ⟨hnames.trans hm.names, fun node hnode => ?_⟩
  obtain ⟨var, v, hl, hv, hcore, hunused⟩ := hm.own node hnode
  obtain ⟨w, hw, hwv, hrefs⟩ := hkept var v hv
  refine ⟨var, w, hlookup _ _ hl, hw, hwv.trans hcore, fun hd => ?_⟩
  rw [(Variable.eq_of_core hwv).2.2] at hd
  rw [hrefs hd, hunused hd]

/-- Steps that add no variables of components keep those that are there as they are. -/
theorem step (hmine : ¬ mine .fields) (hm : Mirrors h nodes) (hb : BuildStep mine h h') :
    Mirrors h' nodes := by
  have hk := hb.keeps
  cases hb with
  | @member ns id v name d hv hl hd =>
    have hns : ns ≠ .fields := by
      rintro rfl
      exact hm.not_member hv hd
    refine hm.of_kept ?_ (hk.names .fields) fun id w hw => ?_
    · rw [namesOf_withVariable]
      exact (congrArg _ (if_neg hns)).trans (List.append_nil _)
    · exact ⟨w, find?_withVariable_of_some _ _ hw, rfl, fun _ => rfl⟩
  | @refer id v owner hv hd =>
    refine hm.of_kept rfl (hk.names .fields) fun other w hw => ?_
    rw [find?_withChange, hw]
    split
    · rename_i hsame
      rw [hsame, hv] at hw
      cases hw
      exact ⟨_, rfl, rfl, fun hdenied => by rw [hd] at hdenied; cases hdenied⟩
    · exact ⟨w, rfl, rfl, fun _ => rfl⟩
  | bind id b =>
    refine hm.of_kept rfl (hk.names .fields) fun other w hw => ?_
    rw [find?_withChange, hw]
    split
    · exact ⟨_, rfl, bind_core w (b w), fun _ => bind_references w (b w)⟩
    · exact ⟨w, rfl, rfl, fun _ => rfl⟩
  | @add v hv hl hr =>
    have hns : v.ns ≠ .fields := fun he => hmine (he ▸ hv)
    refine hm.of_kept ?_ (hk.names .fields) fun id w hw => ?_
    · rw [namesOf_withVariable, if_neg hns, List.append_nil]
    · exact ⟨w, find?_withVariable_of_some _ _ hw, rfl, fun _ => rfl⟩
  | @named id v name hv _ =>
    have hns : v.ns ≠ .fields := fun he => hmine (he ▸ hv)
    refine hm.of_kept ?_ (hk.names .fields) fun _ w hw => ⟨w, hw, rfl, fun _ => rfl⟩
    rw [namesOf_withName, if_neg hns, List.append_nil]

theorem builds (hmine : ¬ mine .fields) (hm : Mirrors h nodes) (hb : Builds mine h h') :
    Mirrors h' nodes := by
  induction hb with
  | refl => exact hm
  | step _ hs ih => exact ih.step hmine hs

/-- The next node gets its variable. -/
theorem snoc (hm : Mirrors h nodes) {node : Node} (hnew : h.lookup .fields node.name = none) :
    Mirrors (h.withVariable (nodeVariable node) node.name) (nodes ++ [node]) := by
  have hns := nodeVariable_ns node
  refine ⟨?_, fun other hother => ?_⟩
  · rw [namesOf_withVariable, if_pos hns, hm.names, List.map_append]
    rfl
  · rcases List.mem_append.1 hother with hold | hlast
    · obtain ⟨var, v, hl, hv, hcore, hunused⟩ := hm.own other hold
      exact ⟨var, v, (Keeps.withVariable h _ _).names _ _ _ hl, find?_withVariable_of_some _ _ hv,
        hcore, hunused⟩
    · obtain rfl := List.mem_singleton.1 hlast
      refine ⟨⟨h.arena.size⟩, _, ?_, find?_withVariable_new h _ _, rfl,
        fun _ => nodeVariable_references _⟩
      rw [lookup_withVariable, hnew, hns, if_pos rfl, Option.none_or]

/-- The variables depend on the places of the nodes only. -/
theorem congr (hm : Mirrors h nodes) {nodes' : List Node}
    (hplaces : nodes'.map NodeOf.place = nodes.map NodeOf.place) : Mirrors h nodes' := by
  have hnames : nodes'.map NodeOf.name = nodes.map NodeOf.name := by
    have hboth := congrArg (List.map NodeOf.name) hplaces
    rw [List.map_map, List.map_map] at hboth
    exact hboth
  refine ⟨hm.names.trans hnames.symm, fun node hnode => ?_⟩
  have hmem : node.place ∈ nodes.map NodeOf.place := hplaces ▸ List.mem_map_of_mem hnode
  obtain ⟨old, hold, hplace⟩ := List.mem_map.1 hmem
  rw [← nodeVariable_place node, ← (NodeOf.place_eq hplace).2.1, ← hplace]
  exact hm.own old hold

/-- Registering nodes gives each of them its variable, in order. -/
theorem registerNodes : ∀ (more : List Node) {nodes : List Node} {draft draft' : Draft} {u : Unit},
    Mirrors draft.heap nodes → (registerNodes more).run draft = (.ok u, draft') →
    Mirrors draft'.heap (nodes ++ more)
  | [], nodes, _, _, _, hm, hr => by
    cases hr
    rw [List.append_nil]
    exact hm
  | node :: rest, nodes, draft, draft', u, hm, hr => by
    unfold Formwork.registerNodes at hr
    obtain ⟨_, draft₁, hadd, hr⟩ := Step.run_bind_ok hr
    obtain ⟨heap, hrun, rfl⟩ := onHeap_ok hadd
    rcases Heap.add_cases (nodeVariable node) none draft.heap with
      ⟨e, he⟩ | ⟨_, hnew, he⟩ <;> rw [he] at hrun <;> cases hrun
    rw [Option.getD_none, nodeVariable_name, nodeVariable_ns] at hnew
    have hnext := hm.snoc hnew
    rw [← nodeVariable_name node] at hnext
    have hall := registerNodes rest hnext hr
    rwa [List.append_assoc] at hall

end Mirrors

end Heap

/-! ## Setting up the nodes -/

/-- A node with a field keeps one. -/
theorem setupNode_field {extend : ExtensionSetup} {config : Config} {node node' : Node} {f : Field}
    {draft draft' : Draft} (hun : node.finished = false) (hf : node.part = some (.field f))
    (hr : (setupNode extend config node).run draft = (.ok node', draft')) :
    ∃ f', node'.part = some (.field f') ∧ (setupField config f).run draft = (.ok f', draft') := by
  obtain ⟨part', hrun, rfl⟩ := (setupNode_some_iff hun hf).1 hr
  have hkind := setupPart_kind hrun
  cases part' <;> cases hkind
  obtain ⟨f₀, heq, hfield⟩ := setupPart_field hrun
  cases heq
  exact ⟨_, rfl, hfield⟩

/-- A node of the kind of fields has a field, which gives it its name. -/
theorem Tree.field_of_kind {p : Profile} {model : ModelTree} {contents : List Component}
    {providers : List DataVar} {validations : List Validation} {t : Tree} {node : Node}
    (h : ofDeclaration p model contents providers validations = .ok t) (hnode : node ∈ t.nodes)
    (hkind : node.kind = .field) : ∃ f, node.part = some (.field f) ∧ node.name = f.name := by
  rcases mem_ofDeclaration h hnode with ⟨roots, rfl⟩ | ⟨⟨owner, part⟩, _, hstands⟩
  · rcases hrole : p.role with _ | _ <;> simp [containerNode, hrole, Role.kind] at hkind
  · rw [hstands.kind] at hkind
    cases part <;> cases hkind
    exact ⟨_, hstands.part, hstands.name⟩

/-! ## Fields and what they are bound to -/

/-- The field knows its own variable, which is bound to a variable of the models. That one has the
shape that the field is bound to, is found under its own name, and knows who refers to it. -/
def Field.Attached (h : Heap) (f : Field) : Prop :=
  ∃ binding var own id v, f.binding = some binding ∧ binding.ownVariable = some var ∧
    h.lookup .fields f.name = some var ∧ h.find? var = some own ∧ binding.target ∈ own.bound ∧
    binding.target = ⟨h.name, .models, v.name⟩ ∧ h.lookup .models v.name = some id ∧
    h.find? id = some v ∧ v.descriptor? = some binding.descriptor ∧ f.name ∈ v.references

theorem Field.Attached.accrues {h h' : Heap} {f : Field} (hf : f.Attached h)
    (ha : Heap.Accrues h h') : f.Attached h' := by
  obtain ⟨binding, var, own, id, v, hbinding, hvar, hl, hown, hbound, htarget, hlv, hv, hd,
    hrefs⟩ := hf
  obtain ⟨own', hown', _, _, hbound'⟩ := ha.kept var own hown
  obtain ⟨w, hw, hcore, hrefs', _⟩ := ha.kept id v hv
  obtain ⟨hname, hdata, _⟩ := Variable.eq_of_core hcore
  refine ⟨binding, var, own', id, w, hbinding, hvar, ha.names _ _ _ hl, hown', hbound' hbound,
    ?_, ?_,
    hw, ?_, hrefs' hrefs⟩
  · rw [htarget, ha.name, hname]
  · rw [hname]
    exact ha.names _ _ _ hlv
  · rw [← hd, Variable.descriptor?, Variable.descriptor?, hdata]

/-- A bind that is resolved leads to a variable: it is a path, since operations are in no namespace
of the heap. -/
theorem bind_finds {f : Field} {h : Heap} {found : Option VarId} (hns : f.bind.ns = .models)
    (ho : (f.bind.setup f.name h).outcome = .ok found)
    (hresolved : (f.bind.setup f.name h).subject.state.isResolved) : ∃ id, found = some id := by
  apply Option.isSome_iff_exists.1
  apply (Expression.setup_found f.name f.bind h found ho).1.2
  refine ⟨?_, hresolved⟩
  rcases hb : f.bind with ⟨ns, root, hops, state⟩ | ⟨operation, hops, state⟩
  · exact ⟨ns, root, hops, state, rfl⟩
  · rw [hb] at hns
    cases hns

/-- Setup of a field that has a variable attaches it. -/
theorem setupField_attached {config : Config} {f f' : Field} {draft draft' : Draft} {var : VarId}
    (hs : draft.heap.Sound) (hc : draft.heap.Canonical)
    (hvar : draft.heap.lookup .fields f.name = some var)
    (hr : (setupField config f).run draft = (.ok f', draft')) :
    f'.name = f.name ∧ f'.Attached draft'.heap := by
  obtain ⟨binding, draft₁, hbind, hbinding, hname, hrest⟩ := setupField_ok hr
  obtain ⟨found, hns, ho, hsubject, hresolved, hattach⟩ := bindField_ok hbind
  have huses := Expression.uses_setup f.name f.bind draft.heap hs
  obtain ⟨id, rfl⟩ := bind_finds hns ho (by rw [← hsubject]; exact hresolved)
  obtain ⟨v, hv, hrefs, hfound⟩ := Expression.setup_refers hs hc ho
  rw [← hsubject] at hfound
  obtain ⟨_, w, hw, hbound, hd, hchange⟩ := attachField_ok hattach
  obtain rfl : w = v := Except.ok.inj (hw.symm.trans hfound)
  dsimp only at hbound hchange
  have hvar' := huses.keeps.names _ _ _ hvar
  obtain ⟨own, hown, _⟩ := huses.sound hs _ _ _ hvar'
  have hdraft₁ := hchange var hvar'
  have haccrues :=
    Heap.bind_accrues (f.bind.setup f.name draft.heap).heap var fun _ => binding.target
  have hattached : f'.Attached draft₁.heap := by
    rw [hdraft₁]
    obtain ⟨u, hu, hcore, hrefs', _⟩ := haccrues.kept id w hv.2
    obtain ⟨huname, hudata, _⟩ := Variable.eq_of_core hcore
    refine ⟨binding, var, own.bind binding.target, id, u, hbinding, ?_,
      by rw [hname]; exact hvar', ?_,
      Heap.mem_bound_bind own binding.target, ?_, ?_, hu, ?_, by rw [hname]; exact hrefs' hrefs⟩
    · exact (congrArg FieldBinding.ownVariable hbound).trans hvar'
    · rw [Heap.find?_withChange, if_pos rfl, hown]
      rfl
    · rw [huname]
      exact congrArg FieldBinding.target hbound
    · have hcanonical := hc.builds huses id w hv.2
      rw [hv.ns (huses.sound hs), hns] at hcanonical
      rw [huname]
      exact hcanonical
    · rw [← hd, Variable.descriptor?, Variable.descriptor?, hudata]
  have hsound : draft₁.heap.Sound := by
    rw [hdraft₁]
    exact (huses.sound hs).withChange var fun x => Heap.bind_ns x binding.target
  exact ⟨hname, hattached.accrues (hrest hsound).heap.accrues⟩

/-! ## The law -/

/-- A container that was set up has variables for its components, and its fields are attached. -/
theorem Container.Assembled.mirrors {D : Container → Prop} {c : Container} (hc : Assembled D c) :
    ∃ heap tree, c.heap? = some heap ∧ c.tree? = some tree ∧ tree.InStep ∧
      heap.Mirrors tree.nodes ∧
      ∀ node ∈ tree.nodes, node.kind = .field →
        ∃ f, node.part = some (.field f) ∧ f.name = node.name ∧ f.Attached heap := by
  obtain ⟨_, henter, h⟩ := hc
  obtain ⟨entered, provided, registered, equipped, laid, tree, hstaged⟩ :=
    staged_of_conclude henter h
  obtain ⟨_, _, _, hlaid⟩ := hstaged.lays
  have hnone : Heap.Mirrors provided.heap [] :=
    ((Heap.Mirrors.empty _ _).builds (by decide) hstaged.models).builds (by decide)
      hstaged.provides.heap
  have hlaidMirrors : Heap.Mirrors registered.heap laid.nodes :=
    hnone.registerNodes laid.nodes hstaged.registers
  have hfrozen := Heap.Accrues.frozen equipped.heap
  refine ⟨{ equipped.heap with finished := true }, tree, by rw [hstaged.result]; rfl,
    hstaged.tree?_eq, hstaged.inStep, ?_, ?_⟩
  · have hmirrors := (hlaidMirrors.builds (by simp) hstaged.uses.heap).congr
      (setupNodes_places (fun _ hnode => hstaged.unfinished hnode) hstaged.equips)
    exact ⟨hmirrors.names, hmirrors.own⟩
  · intro node hnode hkind
    obtain ⟨node₀, d, d', hnode₀, hbefore, hafter, hrun⟩ :=
      mem_setupNodes (onlyUses_setupLevels _) hstaged.sound hstaged.equips hnode
    obtain ⟨_, hname, hkind₀, _⟩ :=
      NodeOf.place_eq (place_setupNode (hstaged.unfinished hnode₀) hrun)
    obtain ⟨f₀, hpart, hname₀⟩ := Tree.field_of_kind hlaid hnode₀ (hkind₀.symm.trans hkind)
    obtain ⟨f, hf, hfield⟩ := setupNode_field (hstaged.unfinished hnode₀) hpart hrun
    obtain ⟨var, _, hvar, _⟩ := (hlaidMirrors.builds (by simp) hbefore.heap).own node₀ hnode₀
    rw [hname₀] at hvar
    obtain ⟨hfname, hattached⟩ := setupField_attached (hbefore.heap.sound hstaged.sound)
      (hstaged.canonical.builds hbefore.heap) hvar hfield
    exact ⟨f, hf, by rw [hfname, hname, hname₀],
      (hattached.accrues hafter.heap.accrues).accrues hfrozen⟩

/-- In every container that a setup has finished, at any depth, the components and their variables
agree. The names in the namespace of the components are those of the nodes, in their order. The
variable of a node has its position and its kind; it is denied unless the node is a field or a data
variable, and nobody refers to it if it is. And every field is attached to a variable of a model. -/
theorem variables_mirror_components {c c' k : Container} (hsetup : c.setup = (.ok (), c'))
    (hk : c'.Holds k) :
    ∃ heap tree, k.heap? = some heap ∧ k.tree? = some tree ∧ heap.namesOf .fields = tree.names ∧
      (∀ id node, tree.get? id = some node → ∃ var v, heap.lookup .fields node.name = some var ∧
        heap.find? var = some v ∧ v.data = .component id node.kind ∧
        (v.denied.isSome ↔ node.kind ≠ .field ∧ node.kind ≠ .dataVar) ∧
        (v.denied.isSome → v.references = [])) ∧
      ∀ node ∈ tree.nodes, node.kind = .field →
        ∃ f, node.part = some (.field f) ∧ f.name = node.name ∧ f.Attached heap := by
  have hassembled := (Container.assembled_of_setup trivial hsetup).holds inherited_true hk
  obtain ⟨heap, tree, hheap, htree, hstep, hmirrors, hfields⟩ := hassembled.mirrors
  refine ⟨heap, tree, hheap, htree, hmirrors.names.trans hstep.names_eq.symm, fun id node hn => ?_,
    hfields⟩
  obtain ⟨var, v, hl, hv, hcore, hunused⟩ := hmirrors.own node (List.mem_of_getElem? hn)
  obtain ⟨_, hdata, hdenied⟩ := Variable.eq_of_core hcore
  obtain ⟨hcomponent, hiff⟩ := nodeVariable_ok node
  rw [hstep.ids id node hn] at hcomponent
  exact ⟨var, v, hl, hv, hdata.trans hcomponent, by rw [hdenied]; exact hiff, hunused⟩

/-- The only field of the office is attached. -/
theorem variables_mirror_components_of_an_office :
    ∃ (c : Container) (heap : Heap) (tree : Tree) (f : Field),
      Container.sample.setup = (.ok (), c) ∧ c.heap? = some heap ∧
      c.tree? = some tree ∧ heap.namesOf .fields = tree.names ∧ f.name = "age" ∧
      f.Attached heap := by
  obtain ⟨c, root, model, node, index, f, hsetup, _, htree, hname, hkind, _⟩ :=
    Container.sample_setup
  obtain ⟨heap, tree, hheap, htree', hnames, _, hfields⟩ :=
    variables_mirror_components hsetup (.self c)
  obtain rfl := Option.some.inj (htree.symm.trans htree')
  obtain ⟨f', _, hname', hattached⟩ := hfields node (by simp) hkind
  exact ⟨c, heap, _, f', hsetup, hheap, htree, hnames, hname'.trans hname, hattached⟩

end Formwork
