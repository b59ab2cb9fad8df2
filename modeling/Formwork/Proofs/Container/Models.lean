-- Registering models. Every model gets a name of its own in the heap, for a variable of its own or
-- for one that an expression leads to, and the names of the models keep leading to their shapes.
import Formwork.Container.Setup
import Formwork.Proofs.Component.Binding
import Formwork.Proofs.Container.Names
import Formwork.Proofs.Heap.Accruing

namespace Formwork

open Drafting
open Heap (Typed Fits)

/-! ## Models with plain names -/

/-- The record models that the models reach have identifiers for field names. -/
def PlainModels (models : Ordered ModelInfo) : Prop :=
  ∀ name info, models.find? name = some info → PlainType.WellNamed info.descriptor.underlying

/-! ## Two ways to register a model -/

namespace Heap.Typed

variable {models : Ordered ModelInfo} {h : Heap} {name : String} {d : Descriptor}

theorem find?_put_of_some (hn : models.find? name = none) (info : ModelInfo) (other : String)
    (found : ModelInfo) (hf : models.find? other = some found) :
    (models.put name info).find? other = some found := by
  rw [Ordered.find?_put]
  split
  · rename_i he
    rw [he, hn] at hf
    cases hf
  · exact hf

/-- A model with a variable of its own. -/
theorem withModel (ht : Typed models h) (hname : isIdentifier name)
    (hn : models.find? name = none) {v : Variable} (hv : v.name = name) (hd : v.data = .typed d)
    (hwell : PlainType.WellNamed d.underlying) (id : VarId) :
    Typed (models.put name ⟨d, id⟩) (h.withVariable v name) := by
  refine ht.extend (Keeps.withVariable h v name) (ht.sound.withVariable v name)
    (find?_put_of_some hn ⟨d, id⟩) ?_
  intro other found hl
  rcases lookup_withVariable_cases hl with ho | ⟨_, _, rfl, rfl⟩
  · exact .inl ho
  · refine .inr ⟨v, find?_withVariable_new h v other, by rw [hv]; exact hl, ⟨d, hd, hwell⟩, ?_, ?_⟩
    · intro _
      exact ⟨⟨d, id⟩, by rw [Ordered.find?_put, if_pos rfl], hd⟩
    · intro hp
      exact absurd hp (not_pointed_of_isIdentifier hname)

/-- A model that shares the variable of another one, or of an attribute. -/
theorem withAlias (ht : Typed models h) (hname : isIdentifier name)
    (hn : models.find? name = none) {id : VarId} {v : Variable} (hv : h.Registered .models id v)
    (hd : v.data = .typed d) : Typed (models.put name ⟨d, id⟩) (h.withName .models name id) := by
  obtain ⟨hown, hshape⟩ := ht.registered hv
  have hk := Keeps.withName h .models name id
  have hns : v.ns = .models := hv.ns ht.sound
  have hs : (h.withName .models name id).Sound := by
    have := ht.sound.withName hv.2 name
    rwa [hns] at this
  refine ht.extend hk hs (find?_put_of_some hn ⟨d, id⟩) ?_
  intro other found hl
  rcases lookup_withName_cases hl with ho | ⟨_, rfl, rfl⟩
  · exact .inl ho
  · refine .inr ⟨v, hv.2, hk.names _ _ _ hown, hshape, ?_, ?_⟩
    · intro _
      exact ⟨⟨d, found⟩, by rw [Ordered.find?_put, if_pos rfl], hd⟩
    · intro hp
      exact absurd hp (not_pointed_of_isIdentifier hname)

end Heap.Typed

/-! ## Registering models -/

/-- What a step that registers models does: it builds up the heap in the namespace of the models,
the models that were there stay, and so does what the container is bound to. If the models that it
registers have identifiers for names, and all models are plain in the end, then the names of the
models fit afterwards when they did before. -/
structure Registers (named : Prop) (draft draft' : Draft) : Prop where
  builds : draft.heap.Sound → Heap.Builds (· = .models) draft.heap draft'.heap
  models : ∀ name info, draft.models.find? name = some info → draft'.models.find? name = some info
  boundVariable : draft'.boundVariable = draft.boundVariable
  typed : named → PlainModels draft'.models → Typed draft.models draft.heap →
    Typed draft'.models draft'.heap

theorem Registers.trans {named named' : Prop} {draft draft' draft'' : Draft}
    (hr : Registers named draft draft') (hr' : Registers named' draft' draft'') :
    Registers (named ∧ named') draft draft'' := by
  refine ⟨fun hs => (hr.builds hs).trans (hr'.builds ((hr.builds hs).sound hs)),
    fun name info hi => hr'.models name info (hr.models name info hi),
    hr'.boundVariable.trans hr.boundVariable, fun hn hp ht => ?_⟩
  exact hr'.typed hn.2 hp
    (hr.typed hn.1 (fun name info hi => hp name info (hr'.models name info hi)) ht)

theorem Registers.refl (named : Prop) (draft : Draft) : Registers named draft draft :=
  ⟨fun _ => .refl draft.heap, fun _ _ hi => hi, rfl, fun _ _ ht => ht⟩

/-- A model that an expression leads to shares the variable of the models that is found. Its name
becomes an alias of it unless the variable has that name already. -/
theorem registerPointer_ok {name : String} {e e' : Expression} {d : Descriptor} {id : VarId}
    {draft draft' : Draft}
    (hr : (registerPointer name e).run draft = (.ok (e', d, id), draft')) :
    ∃ v heap, e.ns = .models ∧ (e.setup name draft.heap).outcome = .ok (some id) ∧
      e' = (e.setup name draft.heap).subject ∧ (e.setup name draft.heap).heap = heap ∧
      heap.find? id = some v ∧ v.descriptor? = some d ∧
      (draft.heap.Sound → Heap.Uses draft.heap heap ∧ heap.Registered .models id v ∧
        v.ns = .models) ∧
      ((v.name = name ∧ draft' = { draft with heap }) ∨
        heap.lookup v.ns name = none ∧
          draft' = { draft with heap := (heap.withChange id fun w =>
            w.bind ⟨heap.name, w.ns, name⟩).withName v.ns name id }) := by
  unfold registerPointer at hr
  dsimp only at hr
  simp only [throw_bind] at hr
  split at hr
  · cases hr
  rename_i hns
  obtain ⟨⟨e₁, found⟩, draft₁, hresolve, hr⟩ := Step.run_bind_ok hr
  obtain ⟨ho, hsubject, rfl⟩ := resolve_ok hresolve
  rcases found with _ | found
  · cases hr
  dsimp only at hr
  obtain ⟨v, draft₂, hat, hr⟩ := Step.run_bind_ok hr
  obtain ⟨heap, hfind, rfl⟩ := onHeap_ok hat
  obtain ⟨hv, rfl⟩ := Heap.variableAt_ok hfind
  have hmodels : e.ns = .models := by simpa using hns
  have hfound : draft.heap.Sound → Heap.Uses draft.heap (e.setup name draft.heap).heap ∧
      (e.setup name draft.heap).heap.Registered .models found v ∧ v.ns = .models := by
    intro hs
    have huses := Expression.uses_setup name e draft.heap hs
    obtain ⟨w, hw⟩ := Expression.setup_registered name hs ho
    rw [hmodels] at hw
    obtain rfl : w = v := Option.some.inj (hw.2.symm.trans hv)
    exact ⟨huses, hw, hw.ns (huses.sound hs)⟩
  rcases hd : v.descriptor? with _ | descriptor
  · rw [hd] at hr
    cases hr
  rw [hd] at hr
  dsimp only at hr
  obtain ⟨_, draft₃, hshape, hr⟩ := Step.run_bind_ok hr
  obtain ⟨_, rfl⟩ := Step.run_ofExcept_ok hshape
  by_cases hsame : v.name = name
  · simp only [hsame, ne_eq, not_true_eq_false, if_false] at hr
    cases hr
    exact ⟨v, _, hmodels, ho, hsubject, rfl, hv, hd, hfound, .inl ⟨hsame, rfl⟩⟩
  · simp only [hsame, ne_eq, not_false_eq_true, if_true] at hr
    obtain ⟨_, draft₄, halias, hr⟩ := Step.run_bind_ok hr
    obtain ⟨heap, hrun, rfl⟩ := onHeap_ok halias
    cases hr
    obtain ⟨hnew, rfl⟩ := Heap.addAlias_ok hv hrun
    exact ⟨v, _, hmodels, ho, hsubject, rfl, hv, hd, hfound, .inr ⟨hnew, rfl⟩⟩

theorem registerPointer_registers {name : String} {e e' : Expression} {d : Descriptor} {id : VarId}
    {draft draft' : Draft} (hnew : draft.models.find? name = none)
    (hr : (registerPointer name e).run draft = (.ok (e', d, id), draft')) :
    draft' = { draft with heap := draft'.heap } ∧
      (draft.heap.Sound → Heap.Builds (· = .models) draft.heap draft'.heap) ∧
      (isIdentifier name → Typed draft.models draft.heap →
        Typed (draft.models.put name ⟨d, id⟩) draft'.heap) := by
  obtain ⟨v, heap, _, _, _, _, _, hd, hfound, hend⟩ := registerPointer_ok hr
  have hbind : Heap.BuildStep (fun _ => False) heap
      (heap.withChange id fun w => w.bind ⟨heap.name, w.ns, name⟩) := .bind id _
  refine ⟨by rcases hend with ⟨_, rfl⟩ | ⟨_, rfl⟩ <;> rfl, fun hs => ?_, fun hname ht => ?_⟩
  · obtain ⟨huses, hw, hmodels⟩ := hfound hs
    rcases hend with ⟨_, rfl⟩ | ⟨_, rfl⟩
    · exact huses.builds
    · obtain ⟨w, hw, hcore⟩ := hw.keeps hbind.keeps
      have hwns : w.ns = v.ns := Heap.ns_of_core hcore
      have halias : Heap.BuildStep (· = .models) _ _ := .named name (hwns.trans hmodels) hw.2
      rw [hwns] at halias
      exact .step (Heap.Uses.builds (huses.trans hbind.builds)) halias
  · obtain ⟨huses, hw, hmodels⟩ := hfound ht.sound
    have hu : Typed draft.models heap := ht.uses huses
    obtain ⟨hown, d', hdata, _⟩ := hu.registered hw
    obtain rfl : d' = d := by
      simpa [Variable.descriptor?, VariableData.descriptor?, hdata] using hd
    rcases hend with ⟨hsame, rfl⟩ | ⟨_, rfl⟩
    · -- A variable with the name of the model is a model of that name, and there is none yet.
      rw [hsame] at hown
      obtain ⟨u, hfits⟩ := hu.fits name id hown
      obtain ⟨info, hinfo, _⟩ := hfits.named (not_pointed_of_isIdentifier hname)
      rw [hnew] at hinfo
      cases hinfo
    · obtain ⟨u, hu', hcore⟩ := hw.keeps hbind.keeps
      rw [hmodels]
      exact (hu.uses hbind.builds).withAlias hname hnew hu'
        ((Variable.eq_of_core hcore).2.1.trans hdata)

/-- A variable of its own for a model whose name is new. -/
theorem addModel_registers {name : String} {d : Descriptor} {id : VarId} {draft draft' : Draft}
    {v : Variable} (hnew : draft.models.find? name = none) (hv : v.name = name)
    (hns : v.ns = .models) (hrefs : v.references = []) (hd : v.data = .typed d)
    (hr : (onHeap (Heap.add v none)).run draft = (.ok id, draft')) :
    draft' = { draft with heap := draft'.heap } ∧
      (draft.heap.Sound → Heap.Builds (· = .models) draft.heap draft'.heap) ∧
      (isIdentifier name → PlainType.WellNamed d.underlying → Typed draft.models draft.heap →
        Typed (draft.models.put name ⟨d, id⟩) draft'.heap) := by
  obtain ⟨heap, hrun, rfl⟩ := onHeap_ok hr
  have hbuilds : Heap.Builds (· = .models) draft.heap heap := Heap.builds_of_add hns hrefs hrun
  obtain ⟨_, rfl⟩ := Heap.add_ok hrun
  rw [Option.getD_none, hv] at hbuilds ⊢
  exact ⟨rfl, fun _ => hbuilds, fun hname hwell ht => ht.withModel hname hnew hv hd hwell id⟩

/-- Registering a model under a new name, when the name fits afterwards. -/
theorem registers_put {name : String} {d : Descriptor} {id : VarId} {draft draft' : Draft}
    (hnew : draft.models.find? name = none)
    (hmodels : draft'.models = draft.models.put name ⟨d, id⟩)
    (hbound : draft'.boundVariable = draft.boundVariable)
    (hbuilds : draft.heap.Sound → Heap.Builds (· = .models) draft.heap draft'.heap)
    (htyped : isIdentifier name → PlainType.WellNamed d.underlying →
      Typed draft.models draft.heap → Typed (draft.models.put name ⟨d, id⟩) draft'.heap) :
    Registers (isIdentifier name) draft draft' := by
  refine ⟨hbuilds, ?_, hbound, fun hname hp ht => ?_⟩
  · rw [hmodels]
    exact Heap.Typed.find?_put_of_some hnew _
  · rw [hmodels] at hp ⊢
    exact htyped hname (hp name ⟨d, id⟩ (by rw [Ordered.find?_put, if_pos rfl])) ht

theorem registerModel_registers {container : String} {m m' : BoundModel} {d : Descriptor}
    {draft draft' : Draft} (hr : (registerModel container m).run draft = (.ok (m', d), draft')) :
    Registers (isIdentifier m.name) draft draft' := by
  unfold registerModel at hr
  rw [Step.run_bind, Step.run_get] at hr
  dsimp only at hr
  simp only [throw_bind] at hr
  split at hr
  · cases hr
  rename_i hhas
  have hnew : draft.models.find? m.name = none := by simpa [Ordered.has] using hhas
  split at hr
  · obtain ⟨⟨e, descriptor, id⟩, draft₁, hpointer, hr⟩ := Step.run_bind_ok hr
    obtain ⟨hsame, hbuilds, htyped⟩ := registerPointer_registers hnew hpointer
    cases hr
    exact registers_put hnew (by rw [hsame]) (by rw [hsame]) hbuilds fun hname _ => htyped hname
  · obtain ⟨declared, draft₁, hdeclared, hr⟩ := Step.run_bind_ok hr
    obtain ⟨_, rfl⟩ := Step.run_ofExcept_ok hdeclared
    rcases declared with _ | descriptor
    · cases hr
    dsimp only at hr
    obtain ⟨id, draft₂, hadd, hr⟩ := Step.run_bind_ok hr
    obtain ⟨hsame, hbuilds, htyped⟩ := addModel_registers hnew rfl rfl rfl rfl hadd
    cases hr
    exact registers_put hnew (by rw [hsame]) (by rw [hsame]) hbuilds htyped

mutual

theorem registerTree_registers {container : String} {draft draft' : Draft}
    {result : ModelTree × Descriptor} : ∀ {tree : ModelTree},
    (registerTree container tree).run draft = (.ok result, draft') →
    Registers tree.WellNamed draft draft'
  | .node m nested, hr => by
    unfold registerTree at hr
    obtain ⟨⟨m', d⟩, draft₁, hm, hr⟩ := Step.run_bind_ok hr
    obtain ⟨nested', draft₂, hnested, hr⟩ := Step.run_bind_ok hr
    cases hr
    exact (registerModel_registers hm).trans (registerTrees_registers hnested)

theorem registerTrees_registers {container : String} {draft draft' : Draft}
    {result : List ModelTree} : ∀ {trees : List ModelTree},
    (registerTrees container trees).run draft = (.ok result, draft') →
    Registers (ModelTree.AllWellNamed trees) draft draft'
  | [], hr => by
    cases hr
    exact .refl _ draft
  | tree :: rest, hr => by
    unfold registerTrees at hr
    obtain ⟨first, draft₁, htree, hr⟩ := Step.run_bind_ok hr
    obtain ⟨others, draft₂, hrest, hr⟩ := Step.run_bind_ok hr
    cases hr
    exact (registerTree_registers htree).trans (registerTrees_registers hrest)

end

/-- The main model of an extension gets a variable of its own, which is bound to the variable in the
container around; then the nested models are registered. -/
theorem enterExtension_ok {container : String} {m : BoundModel} {nested : List ModelTree}
    {link : Except Error (Descriptor × BoundVar)} {result : ModelTree × Descriptor}
    {draft draft' : Draft}
    (hr : (enterExtension container m nested link).run draft = (.ok result, draft')) :
    ∃ d outer id draft₁ nested', link = .ok (d, outer) ∧ result = (.node m nested', d) ∧
      (onHeap (Heap.add ((Variable.fresh m.name .models (.typed d)).bind outer) none)).run draft =
        (.ok id, draft₁) ∧
      (registerTrees container nested).run { draft₁ with
        models := draft₁.models.put m.name ⟨d, id⟩, boundVariable := some outer } =
        (.ok nested', draft') := by
  unfold enterExtension at hr
  obtain ⟨⟨d, outer⟩, _, hlink, hr⟩ := Step.run_bind_ok hr
  obtain ⟨hlink, hsame⟩ := Step.run_ofExcept_ok hlink
  rw [hsame] at hr
  obtain ⟨id, draft₁, hadd, hr⟩ := Step.run_bind_ok hr
  obtain ⟨_, _, hbound, hr⟩ := Step.run_bind_ok hr
  obtain ⟨_, _, hremember, hr⟩ := Step.run_bind_ok hr
  obtain ⟨nested', _, hnested, hr⟩ := Step.run_bind_ok hr
  cases hr
  cases hbound
  cases hremember
  exact ⟨d, outer, id, draft₁, nested', hlink, rfl, hadd, hnested⟩

/-- The main model of an extension is registered as long as nothing else is. -/
theorem enterExtension_registers {container : String} {m : BoundModel} {nested : List ModelTree}
    {link : Except Error (Descriptor × BoundVar)} {result : ModelTree × Descriptor}
    {draft draft' : Draft} (hempty : draft.models = [])
    (hr : (enterExtension container m nested link).run draft = (.ok result, draft')) :
    ∃ outer, Registers (ModelTree.node m nested).WellNamed
      { draft with boundVariable := some outer } draft' := by
  obtain ⟨d, outer, id, draft₁, nested', _, _, hadd, hnested⟩ := enterExtension_ok hr
  have hnew : draft.models.find? m.name = none := by rw [hempty]; rfl
  have hcore := Heap.bind_core (.fresh m.name .models (.typed d)) outer
  obtain ⟨hname, hdata, _⟩ := Variable.eq_of_core hcore
  obtain ⟨hsame, hbuilds, htyped⟩ := addModel_registers hnew hname (Heap.ns_of_core hcore)
    (Heap.bind_references _ outer) hdata hadd
  refine ⟨outer, Registers.trans ?_ (registerTrees_registers hnested)⟩
  exact registers_put hnew (by rw [hsame]) rfl hbuilds htyped

/-! ## What is noted of the models -/

/-- Every noted model has a variable in the namespace of the models, which is found under its name
and has the shape that is noted. -/
def Heap.Records (h : Heap) (models : Ordered ModelInfo) : Prop :=
  ∀ name info, models.find? name = some info → h.lookup .models name = some info.id ∧
    ∃ v, h.find? info.id = some v ∧ v.descriptor? = some info.descriptor

theorem Heap.Records.accrues {h h' : Heap} {models : Ordered ModelInfo} (hr : h.Records models)
    (ha : Heap.Accrues h h') : h'.Records models := by
  intro name info hi
  obtain ⟨hl, v, hv, hd⟩ := hr name info hi
  obtain ⟨w, hw, hcore, _⟩ := ha.kept info.id v hv
  exact ⟨ha.names _ _ _ hl, w, hw, (Variable.descriptor?_of_core hcore).trans hd⟩

/-- The models that a step registers are noted after the others, in order, and all are recorded if
they were before. -/
structure Enrolls (models : List BoundModel) (draft draft' : Draft) : Prop where
  keys : draft'.models.keys = draft.models.keys ++ models.map (·.name)
  records : draft.heap.Records draft.models → draft'.heap.Records draft'.models

theorem Enrolls.append {models more : List BoundModel} {draft draft' draft'' : Draft}
    (h : Enrolls models draft draft') (h' : Enrolls more draft' draft'') :
    Enrolls (models ++ more) draft draft'' := by
  refine ⟨?_, fun hr => h'.records (h.records hr)⟩
  rw [h'.keys, h.keys, List.append_assoc, List.map_append]

/-- A model is enrolled that is noted under a new name, with the variable that is found under it. -/
theorem enrolls_put {m : BoundModel} {d : Descriptor} {id : VarId} {v : Variable}
    {draft draft' : Draft} (hnew : draft.models.find? m.name = none)
    (hmodels : draft'.models = draft.models.put m.name ⟨d, id⟩)
    (ha : Heap.Accrues draft.heap draft'.heap) (hl : draft'.heap.lookup .models m.name = some id)
    (hv : draft'.heap.find? id = some v) (hd : v.descriptor? = some d) :
    Enrolls [m] draft draft' := by
  refine ⟨?_, fun hr name info hi => ?_⟩
  · rw [hmodels, Ordered.keys_put, if_neg (Ordered.find?_eq_none_iff.1 hnew)]
    rfl
  · rw [hmodels, Ordered.find?_put] at hi
    split at hi
    · rename_i hname
      cases hi
      rw [hname]
      exact ⟨hl, v, hv, hd⟩
    · exact hr.accrues ha name info hi

theorem registerPointer_found {name : String} {e e' : Expression} {d : Descriptor} {id : VarId}
    {draft draft' : Draft} (hs : draft.heap.Sound) (hc : draft.heap.Canonical)
    (hr : (registerPointer name e).run draft = (.ok (e', d, id), draft')) :
    draft'.heap.lookup .models name = some id ∧
      ∃ v, draft'.heap.find? id = some v ∧ v.descriptor? = some d := by
  obtain ⟨v, heap, _, _, _, _, hv, hd, hfound, hend⟩ := registerPointer_ok hr
  obtain ⟨huses, _, hns⟩ := hfound hs
  rcases hend with ⟨hname, rfl⟩ | ⟨hnew, rfl⟩
  · -- Every variable is found under its own name.
    rw [← hname, ← hns]
    exact ⟨hc.builds huses id v hv, v, hv, hd⟩
  · rw [hns] at hnew
    refine ⟨?_, v.bind ⟨heap.name, v.ns, name⟩, ?_, ?_⟩
    · rw [Heap.lookup_withName, Heap.lookup_withChange, hns, hnew, Option.none_or, if_pos rfl]
    · show (heap.withChange id _).find? id = _
      rw [Heap.find?_withChange, if_pos rfl, hv]
      rfl
    · rw [Variable.descriptor?_of_core (Heap.bind_core v _), hd]

theorem registerModel_enrolls {container : String} {m m' : BoundModel} {d : Descriptor}
    {draft draft' : Draft} (hs : draft.heap.Sound) (hc : draft.heap.Canonical)
    (hr : (registerModel container m).run draft = (.ok (m', d), draft')) :
    Enrolls [m'] draft draft' ∧ ∃ id, draft'.models.find? m.name = some ⟨d, id⟩ := by
  have haccrues := ((registerModel_registers hr).builds hs).accrues
  unfold registerModel at hr
  rw [Step.run_bind, Step.run_get] at hr
  dsimp only at hr
  simp only [throw_bind] at hr
  split at hr
  · cases hr
  rename_i hhas
  have hnew : draft.models.find? m.name = none := by simpa [Ordered.has] using hhas
  split at hr
  · obtain ⟨⟨e, descriptor, id⟩, draft₁, hpointer, hr⟩ := Step.run_bind_ok hr
    obtain ⟨hsame, _⟩ := registerPointer_registers hnew hpointer
    obtain ⟨hl, v, hv, hd⟩ := registerPointer_found hs hc hpointer
    cases hr
    refine ⟨enrolls_put hnew (by rw [hsame]) haccrues hl hv hd, id, ?_⟩
    rw [Ordered.find?_put, if_pos rfl]
  · obtain ⟨declared, draft₁, hdeclared, hr⟩ := Step.run_bind_ok hr
    obtain ⟨_, rfl⟩ := Step.run_ofExcept_ok hdeclared
    rcases declared with _ | descriptor
    · cases hr
    dsimp only at hr
    obtain ⟨id, draft₂, hadd, hr⟩ := Step.run_bind_ok hr
    obtain ⟨heap, hrun, rfl⟩ := onHeap_ok hadd
    obtain ⟨hl, hv⟩ := Heap.add_found hrun
    cases hr
    refine ⟨enrolls_put hnew rfl haccrues hl hv rfl, id, ?_⟩
    rw [Ordered.find?_put, if_pos rfl]

mutual

/-- The model at the top is noted with the shape that is returned. -/
theorem registerTree_enrolls {container : String} {draft draft' : Draft} {tree' : ModelTree}
    {d : Descriptor} : ∀ {tree : ModelTree}, draft.heap.Sound → draft.heap.Canonical →
    (registerTree container tree).run draft = (.ok (tree', d), draft') →
    Enrolls tree'.all draft draft' ∧
      ∃ id, draft'.models.find? tree.model.name = some ⟨d, id⟩
  | .node m nested, hs, hc, hr => by
    unfold registerTree at hr
    obtain ⟨⟨m', d⟩, draft₁, hm, hr⟩ := Step.run_bind_ok hr
    obtain ⟨nested', draft₂, hnested, hr⟩ := Step.run_bind_ok hr
    cases hr
    obtain ⟨hfirst, id, hi⟩ := registerModel_enrolls hs hc hm
    have hbuilds := (registerModel_registers hm).builds hs
    have hrest := registerTrees_enrolls (hbuilds.sound hs) (hc.builds hbuilds) hnested
    exact ⟨hfirst.append hrest, id, (registerTrees_registers hnested).models _ _ hi⟩

theorem registerTrees_enrolls {container : String} {draft draft' : Draft}
    {trees' : List ModelTree} : ∀ {trees : List ModelTree}, draft.heap.Sound →
    draft.heap.Canonical → (registerTrees container trees).run draft = (.ok trees', draft') →
    Enrolls (ModelTree.allOf trees') draft draft'
  | [], _, _, hr => by
    cases hr
    exact ⟨(List.append_nil _).symm, fun hr => hr⟩
  | tree :: rest, hs, hc, hr => by
    unfold registerTrees at hr
    obtain ⟨⟨first, d⟩, draft₁, htree, hr⟩ := Step.run_bind_ok hr
    obtain ⟨others, draft₂, hrest, hr⟩ := Step.run_bind_ok hr
    cases hr
    have hbuilds := (registerTree_registers htree).builds hs
    exact (registerTree_enrolls hs hc htree).1.append
      (registerTrees_enrolls (hbuilds.sound hs) (hc.builds hbuilds) hrest)

end

end Formwork
