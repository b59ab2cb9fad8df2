-- Extensions and the containers around them. The main model of an extension is linked to a
-- variable of the container around while that is still being set up. Both ends of the link stay as
-- they are, whatever else is set up in the two heaps.
import Formwork.Container.Query
import Formwork.Proofs.Container.Binding

namespace Formwork

open Drafting

/-! ## Main models as they are declared -/

/-- The main model that a container notes is the one that it is declared with, and so it is in the
extensions declared inside it. -/
inductive Container.WellDeclared : Container → Prop where
  | declared {p : Profile} {model : ModelTree} {contents : List Component}
    {providers : List DataVar} {validations : List Validation} : p.mainModel = model.model.name →
    (∀ owner, ∀ entry ∈ Component.preorderAll owner contents, ∀ inner,
      entry.2 = .extension inner → WellDeclared inner) →
    WellDeclared (.mk p (.declared model contents providers validations))
  | finished (p : Profile) (heap : Heap) (tree : Tree) : WellDeclared (.mk p (.finished heap tree))
  | failed (p : Profile) : WellDeclared (.mk p .failed)

theorem Container.WellDeclared.withProfile {p p' : Profile} {phase : Phase}
    (hw : WellDeclared (.mk p phase)) (hmain : p'.mainModel = p.mainModel) :
    WellDeclared (.mk p' phase) := by
  cases hw with
  | declared hname hinside => exact .declared (hmain.trans hname) hinside
  | finished _ heap tree => exact .finished p' heap tree
  | failed => exact .failed p'

theorem inherited_wellDeclared : Inherited Container.WellDeclared where
  config _ hw := hw.withProfile rfl
  inside hw entry he _ c howned := by
    cases hw with
    | declared _ hinside =>
      obtain ⟨p, phase, hpart, rfl⟩ := Part.eq_extension_of_ownedBy howned
      exact (hinside _ entry he _ hpart).withProfile rfl

/-! ## The ends of a link -/

/-- The variable of the models that is found at `id`, under its own name, is bound to `other`. -/
structure Heap.Linked (h : Heap) (id : VarId) (other : BoundVar) (v : Variable) : Prop where
  named : h.lookup .models v.name = some id
  found : h.find? id = some v
  bound : other ∈ v.bound

theorem Heap.Linked.accrues {h h' : Heap} {id : VarId} {other : BoundVar} {v : Variable}
    (hl : h.Linked id other v) (ha : Heap.Accrues h h') :
    ∃ w, h'.Linked id other w ∧ w.core = v.core ∧ v.references ⊆ w.references := by
  obtain ⟨w, hw, hcore, hrefs, hbound⟩ := ha.kept id v hl.found
  refine ⟨w, ⟨?_, hw, hbound hl.bound⟩, hcore, hrefs⟩
  rw [(Variable.eq_of_core hcore).1]
  exact ha.names _ _ _ hl.named

/-- Binding a variable that has its own name makes it an end of a link. -/
theorem Heap.linked_of_bind {h : Heap} {id : VarId} {v : Variable} (other : BoundVar)
    (hl : h.lookup .models v.name = some id) (hv : h.find? id = some v) :
    (h.withChange id fun w => w.bind other).Linked id other (v.bind other) := by
  refine ⟨?_, ?_, mem_bound_bind v other⟩
  · rw [(Variable.eq_of_core (bind_core v other)).1]
    exact hl
  · rw [find?_withChange, if_pos rfl, hv]
    rfl

/-- Adding a variable that is bound before makes it an end of a link, too. -/
theorem Heap.linked_of_add {h h' : Heap} {id : VarId} {other : BoundVar} {v : Variable}
    (hns : v.ns = .models) (hbound : other ∈ v.bound) (hr : (add v none).run h = (.ok id, h')) :
    h'.Linked id other v := by
  rcases add_cases v none h with ⟨e, he⟩ | ⟨_, hnew, he⟩ <;> rw [he] at hr <;> cases hr
  rw [Option.getD_none] at hnew ⊢
  refine ⟨?_, find?_withVariable_new h v v.name, hbound⟩
  rw [lookup_withVariable, ← hns, hnew, if_pos rfl, Option.none_or]

/-! ## The outer end -/

theorem bindOuter_ok {container model : String} {e : Expression} {id : VarId} {h h' : Heap}
    {d : Descriptor} {outer : BoundVar}
    (hr : (bindOuter container model e id).run h = (.ok (d, outer), h')) :
    ∃ v, h.find? id = some v ∧ v.descriptor? = some d ∧ outer = ⟨h.name, .models, v.name⟩ ∧
      h' = h.withChange id fun v => v.bind ⟨container, .models, model⟩ := by
  unfold bindOuter at hr
  obtain ⟨v, h₁, hat, hrest⟩ := Step.run_bind_ok hr
  obtain ⟨hv, hsame⟩ := Heap.variableAt_ok hat
  rw [hsame] at hrest
  rcases hd : v.descriptor? with _ | descriptor <;> rw [hd] at hrest
  · cases hrest
  obtain ⟨_, h₂, hshape, hrest⟩ := Step.run_bind_ok hrest
  rw [(Step.run_ofExcept_ok hshape).2, Step.run_bind, Step.run_get] at hrest
  obtain ⟨_, h₃, hbound, hrest⟩ := Step.run_bind_ok hrest
  obtain rfl := Heap.addBound_ok hbound
  cases hrest
  exact ⟨v, hv, hd, rfl, rfl⟩

/-- A link that succeeds has resolved the expression of the main model, and bound its variable. -/
theorem linkOuter_cases {container : String} {m : BoundModel} {h : Heap}
    {result : Descriptor × BoundVar}
    (ho : (linkOuter container m h).outcome = .ok result) :
    ∃ (e : Expression) (id : VarId), e.ns = .models ∧
      (e.setup container h).outcome = .ok (some id) ∧
      (bindOuter container m.name (e.setup container h).subject id).run (e.setup container h).heap =
        (.ok result, (linkOuter container m h).heap) := by
  unfold linkOuter at ho ⊢
  rcases hsource : m.source with declared | e | ⟨load, save⟩ <;> simp only [hsource] at ho ⊢
  · cases ho
  · by_cases hns : e.ns ≠ .models
    · rw [if_pos hns] at ho
      cases ho
    · rw [if_neg hns] at ho ⊢
      rcases hsetup : (e.setup container h).outcome with error | found | id <;>
        simp only [hsetup] at ho ⊢
      · cases ho
      · cases ho
      · exact ⟨e, id, by simpa using hns, hsetup, Prod.ext ho rfl⟩
  · cases ho

/-- A link that succeeds leaves its outer end in the heap of the container around, with a reference
from the extension, and gives what it has found there. -/
theorem linkOuter_ok {container : String} {m : BoundModel} {h : Heap} (hs : h.Sound)
    (hc : h.Canonical) {d : Descriptor} {outer : BoundVar}
    (ho : (linkOuter container m h).outcome = .ok (d, outer)) :
    ∃ id v, (linkOuter container m h).heap.Linked id ⟨container, .models, m.name⟩ v ∧
      container ∈ v.references ∧ v.descriptor? = some d ∧
      outer = ⟨(linkOuter container m h).heap.name, .models, v.name⟩ := by
  obtain ⟨e, id, hns, hsetup, hr⟩ := linkOuter_cases ho
  obtain ⟨v, hv, hd, rfl, hheap⟩ := bindOuter_ok hr
  obtain ⟨w, hw, hrefs, _⟩ := Expression.setup_refers hs hc hsetup
  obtain rfl := Option.some.inj (hw.2.symm.trans hv)
  have huses := Expression.uses_setup container e h hs
  have hown := hc.builds huses id w hv
  rw [hw.ns (huses.sound hs), hns] at hown
  have hcore := Heap.bind_core w ⟨container, .models, m.name⟩
  refine ⟨id, w.bind ⟨container, .models, m.name⟩, ?_, ?_, ?_, ?_⟩
  · rw [hheap]
    exact Heap.linked_of_bind _ hown hv
  · rw [Heap.bind_references]
    exact hrefs
  · rw [Variable.descriptor?_of_core hcore]
    exact hd
  · rw [(Variable.eq_of_core hcore).1, hheap]
    rfl

/-! ## The inner end -/

/-- The main model of an extension is an inner end, and is noted with the shape that was found
around it, whatever models are nested in it. -/
theorem enterExtension_linked {container : String} {m : BoundModel} {nested : List ModelTree}
    {link : Except Error (Descriptor × BoundVar)} {result : ModelTree × Descriptor}
    {draft draft' : Draft} (hs : draft.heap.Sound)
    (hr : (enterExtension container m nested link).run draft = (.ok result, draft')) :
    ∃ d outer id w, link = .ok (d, outer) ∧ draft'.heap.Linked id outer w ∧ w.name = m.name ∧
      w.descriptor? = some d ∧ draft'.boundVariable = some outer ∧
      draft'.models.find? m.name = some ⟨d, id⟩ := by
  obtain ⟨d, outer, id, draft₁, nested', hlink, _, hadd, hnested⟩ := enterExtension_ok hr
  obtain ⟨heap, hrun, rfl⟩ := onHeap_ok hadd
  have hcore := Heap.bind_core (.fresh m.name .models (.typed d)) outer
  have hlinked := Heap.linked_of_add (Heap.ns_of_core hcore) (Heap.mem_bound_bind _ outer) hrun
  have hbuilds : Heap.Builds (· = .models) draft.heap heap :=
    Heap.builds_of_add (Heap.ns_of_core hcore) (Heap.bind_references _ outer) hrun
  have hregisters := registerTrees_registers hnested
  obtain ⟨w, hw, hkept, _⟩ := hlinked.accrues (hregisters.builds (hbuilds.sound hs)).accrues
  have hsame := hkept.trans hcore
  refine ⟨d, outer, id, w, hlink, hw, (Variable.eq_of_core hsame).1, ?_, hregisters.boundVariable,
    ?_⟩
  · rw [Variable.descriptor?_of_core hsame]
    rfl
  · exact hregisters.models m.name ⟨d, id⟩ (by rw [Ordered.find?_put, if_pos rfl])

/-! ## Links -/

/-- The extension is finished and linked to the heap of the container around it. What it is bound to
there refers to the extension, and is bound to the main model in the heap of the extension; that one
is bound back. Both have the shape that the extension has noted for its main model. -/
def Container.LinkedTo (c : Container) (outer : Heap) : Prop :=
  ∃ own id v ownId w d, c.heap? = some own ∧ own.finished = true ∧
    c.profile.boundVariable = some ⟨outer.name, .models, v.name⟩ ∧
    outer.Linked id ⟨own.name, .models, c.profile.mainModel⟩ v ∧ c.name ∈ v.references ∧
    own.Linked ownId ⟨outer.name, .models, v.name⟩ w ∧ w.name = c.profile.mainModel ∧
    v.descriptor? = some d ∧ w.descriptor? = some d ∧
    c.profile.models.find? c.profile.mainModel = some ⟨d, ownId⟩

theorem Container.LinkedTo.accrues {c : Container} {outer outer' : Heap} (hl : c.LinkedTo outer)
    (ha : Heap.Accrues outer outer') : c.LinkedTo outer' := by
  obtain ⟨own, id, v, ownId, w, d, hown, hfinished, htarget, hv, hrefs, hw, hname, hd, hd',
    hinfo⟩ := hl
  obtain ⟨u, hu, hcore, hmore⟩ := hv.accrues ha
  have hend : (⟨outer'.name, .models, u.name⟩ : BoundVar) = ⟨outer.name, .models, v.name⟩ := by
    rw [ha.name, (Variable.eq_of_core hcore).1]
  refine ⟨own, id, u, ownId, w, d, hown, hfinished, ?_, hu, hmore hrefs, ?_, hname, ?_, hd', hinfo⟩
  · rw [hend]
    exact htarget
  · rw [hend]
    exact hw
  · rw [Variable.descriptor?_of_core hcore]
    exact hd

/-- An extension whose setup succeeded is linked to the heap that it leaves around it. -/
theorem Container.setupLevels_linked {levels : Nat} {config : Config} {c : Container} {outer : Heap}
    (hs : outer.Sound) (hc : outer.Canonical) (hdeclared : c.WellDeclared)
    (ho : (setupLevels levels config c outer).outcome = .ok ()) :
    (setupLevels levels config c outer).subject.LinkedTo
      (setupLevels levels config c outer).heap := by
  obtain ⟨n, p, m, nested, contents, providers, validations, rfl, rfl, hheap, hrun⟩ :=
    setupLevels_ok ho
  have hmain : m.name = p.mainModel := by
    cases hdeclared with
    | declared hname _ => exact hname.symm
  obtain ⟨_, _, _, equipped, _, _, hstaged⟩ :=
    staged_of_conclude (p := { p with config }) (.extension m nested outer) hrun
  obtain ⟨_, hentered⟩ := hstaged.enters
  obtain ⟨d, bound, ownId, w, hlink, hw, hname, hd', htarget, hinfo⟩ :=
    enterExtension_linked (start_sound _) hentered
  rw [linkOuter_name, hmain] at hname hinfo
  obtain ⟨id, v, hv, hrefs, hd, rfl⟩ := linkOuter_ok hs hc hlink
  obtain ⟨own, hown, hfinished, hfrozen⟩ := hstaged.heap?_ok
  obtain ⟨u, hu, hcore, _⟩ := hw.accrues (hstaged.accrues.trans hfrozen)
  have howner : own.name = p.name := hfrozen.name.trans hstaged.name_eq
  obtain ⟨hsubject, hmodel⟩ := hstaged.profile_eq
  refine ⟨own, id, v, ownId, u, d, hown, hfinished, ?_, ?_, ?_, ?_, ?_, hd, ?_, ?_⟩
  · rw [hheap]
    exact hstaged.boundVariable_eq.trans htarget
  · rw [hheap, howner, hmodel]
    exact hmain ▸ hv
  · exact hsubject ▸ hrefs
  · rw [hheap]
    exact hu
  · exact (Variable.eq_of_core hcore).1.trans (hname.trans hmodel.symm)
  · rw [Variable.descriptor?_of_core hcore]
    exact hd'
  · rw [hstaged.models_eq, hmodel]
    exact hinfo

/-! ## The law -/

theorem Container.mem_extensions {c inner : Container} (h : inner ∈ c.extensions) :
    ∃ tree node, c.tree? = some tree ∧ node ∈ tree.nodes ∧ node.part = some (.extension inner) := by
  obtain ⟨p, _ | ⟨heap, tree⟩ | _⟩ := c
  · cases h
  · obtain ⟨node, hnode, hpart⟩ := List.mem_filterMap.1 h
    refine ⟨tree, node, rfl, hnode, ?_⟩
    split at hpart <;> cases hpart
    assumption
  · cases h

/-- The only extension of a container is held by it. -/
theorem Container.holds_of_extensions {c inner : Container} (h : c.extensions = [inner]) :
    c.Holds inner := by
  have hmem : inner ∈ c.extensions := by rw [h]; exact List.mem_singleton_self inner
  obtain ⟨tree, node, htree, hnode, hpart⟩ := mem_extensions hmem
  exact .inside htree hnode hpart (.self inner)

/-- Both ends of the link of an extension agree, at any depth. When setup of a rule set succeeds,
then in the rule set and in all that it holds, the extensions are finished and linked to the heap
around them, which is finished too. -/
theorem both_ends_of_a_link_agree {c c' k inner : Container} (hdeclared : c.WellDeclared)
    (hsetup : c.setup = (.ok (), c')) (hk : c'.Holds k) (hinner : inner ∈ k.extensions) :
    ∃ outer, k.heap? = some outer ∧ outer.finished = true ∧ inner.LinkedTo outer := by
  obtain ⟨tree, node, htree, hnode, hpart⟩ := Container.mem_extensions hinner
  obtain ⟨hwell, henter, h⟩ :=
    (Container.assembled_of_setup hdeclared hsetup).holds inherited_wellDeclared hk
  obtain ⟨_, _, _, _, _, tree', hstaged⟩ := staged_of_conclude henter h
  obtain rfl : tree' = tree := Option.some.inj (hstaged.tree?_eq.symm.trans htree)
  obtain ⟨entry, he, hplaceable, c₀, d, d', howned, hbefore, hheap, hafter, ho, rfl⟩ :=
    hstaged.extension_ok hnode hpart
  have hlinked := Container.setupLevels_linked (hbefore.heap.sound hstaged.sound)
    (hstaged.canonical.builds hbefore.heap)
    (inherited_wellDeclared.inside hwell entry he hplaceable c₀ howned) ho
  obtain ⟨outer, houter, hfinished, hfrozen⟩ := hstaged.heap?_ok
  rw [← hheap] at hlinked
  exact ⟨outer, houter, hfinished, hlinked.accrues (hafter.heap.accrues.trans hfrozen)⟩

/-- A desk of whoever has the chair. -/
def Container.desk : Container :=
  let model : ModelTree := .node ⟨"person", .expression (.ofModels "chair" [])⟩ []
  .mk (newProfile "desk" (.extension none) model none) (.declared model [] [] [])

/-- A board with the boss of the company in the chair. -/
def Container.board : Container :=
  let model : ModelTree := .node ⟨"chair", .expression (.ofModels "company" ["boss"])⟩ []
  .mk (newProfile "board" (.extension none) model none)
    (.declared model [.leaf (.extension desk)] [] [])

/-- An office with a board. -/
def Container.headOffice : Container :=
  .mk .sample (.declared .sample [.leaf (.extension board)] [] [])

/-- The board is linked to the office, and the desk on it to the board. -/
theorem both_ends_of_a_link_agree_on_a_board : ∃ c board desk,
    Container.headOffice.setup = (.ok (), c) ∧ c.extensions = [board] ∧ board.extensions = [desk] ∧
      (∃ outer, c.heap? = some outer ∧ outer.finished = true ∧ board.LinkedTo outer) ∧
      ∃ outer, board.heap? = some outer ∧ outer.finished = true ∧ desk.LinkedTo outer := by
  have hdeclared : Container.headOffice.WellDeclared := by
    have hdesk : Container.desk.WellDeclared := .declared rfl fun _ _ he => by cases he
    have hboard : Container.board.WellDeclared := .declared rfl fun _ entry he inner hinner => by
      obtain rfl := List.mem_singleton.1 he
      cases hinner
      exact hdesk
    refine .declared rfl fun _ entry he inner hinner => ?_
    obtain rfl := List.mem_singleton.1 he
    cases hinner
    exact hboard
  have hok : Container.headOffice.setup.1.isOk := by decide +kernel
  have hnames : Container.headOffice.setup.2.extensions.map (·.name) = ["board"] := by
    decide +kernel
  have hinside : Container.headOffice.setup.2.extensions.map (·.extensions.map (·.name)) =
      [["desk"]] := by decide +kernel
  generalize hsetup : Container.headOffice.setup = result at hok hnames hinside
  obtain ⟨_ | ⟨⟩, c⟩ := result
  · cases hok
  obtain ⟨board, hboard, _⟩ := List.map_eq_singleton_iff.1 hnames
  rw [hboard, List.map_singleton, List.singleton_inj] at hinside
  obtain ⟨desk, hdesk, _⟩ := List.map_eq_singleton_iff.1 hinside
  have hmem : board ∈ c.extensions := by rw [hboard]; exact List.mem_singleton_self board
  obtain ⟨tree, node, htree, hnode, hpart⟩ := Container.mem_extensions hmem
  refine ⟨c, board, desk, rfl, hboard, hdesk, ?_, ?_⟩
  · exact both_ends_of_a_link_agree hdeclared hsetup (.self c) hmem
  · exact both_ends_of_a_link_agree hdeclared hsetup (.inside htree hnode hpart (.self board))
      (by rw [hdesk]; exact List.mem_singleton_self desk)

end Formwork
