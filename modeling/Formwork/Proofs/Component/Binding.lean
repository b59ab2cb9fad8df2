-- What a field is bound to. Setup resolves the bind in the heap and remembers the variable at its
-- end, whose shape is the one that the attributes of the bind lead to.
import Formwork.Proofs.Component.Uses
import Formwork.Proofs.Heap.Typed

namespace Formwork

open Drafting

theorem onHeap_ok {α : Type} {action : HeapAction α} {a : α} {draft draft' : Draft}
    (hr : (onHeap action).run draft = (.ok a, draft')) :
    ∃ heap, action.run draft.heap = (.ok a, heap) ∧ draft' = { draft with heap } := by
  simp only [onHeap, Step.run_mk] at hr
  rcases ha : action.run draft.heap with ⟨result, heap⟩
  rw [ha] at hr
  cases hr
  exact ⟨heap, rfl, rfl⟩

/-- Attaching a field notes the variable that its resolved bind leads to, and binds the field's own
variable to it if there is one. -/
theorem attachField_ok {f : Field} {e e' : Expression} {binding : FieldBinding}
    {draft draft' : Draft} (hr : (attachField f e).run draft = (.ok (e', binding), draft')) :
    e' = e ∧ ∃ v, draft.heap.byExpression e = .ok v ∧
      binding = ⟨⟨draft.heap.name, .models, v.name⟩, binding.descriptor,
        draft.heap.lookup .fields f.name⟩ ∧ v.descriptor? = some binding.descriptor ∧
      ∀ id, draft.heap.lookup .fields f.name = some id →
        draft' = { draft with
          heap := draft.heap.withChange id fun own => own.bind binding.target } := by
  unfold attachField at hr
  rw [Step.run_bind, Step.run_get] at hr
  obtain ⟨v, draft₁, hv, hr⟩ := Step.run_bind_ok hr
  obtain ⟨hv, rfl⟩ := Step.run_ofExcept_ok hv
  dsimp only at hr
  rcases hd : v.descriptor? with _ | d
  · rw [hd] at hr
    cases hr
  · rw [hd] at hr
    dsimp only at hr
    rcases hown : draft₁.heap.lookup .fields f.name with _ | own
    · rw [hown] at hr
      cases hr
      exact ⟨rfl, v, hv, rfl, hd, fun _ h => by cases h⟩
    · rw [hown] at hr
      obtain ⟨_, _, hbound, hr⟩ := Step.run_bind_ok hr
      obtain ⟨heap, hrun, rfl⟩ := onHeap_ok hbound
      cases hr
      refine ⟨rfl, v, hv, rfl, hd, fun id hid => ?_⟩
      cases hid
      rw [Heap.addBound_ok hrun]

theorem resolve_ok {owner : String} {e e' : Expression} {found : Option VarId}
    {draft draft' : Draft} (hr : (resolve owner e).run draft = (.ok (e', found), draft')) :
    (e.setup owner draft.heap).outcome = .ok found ∧ e' = (e.setup owner draft.heap).subject ∧
      draft' = { draft with heap := (e.setup owner draft.heap).heap } := by
  simp only [resolve, Step.run_mk] at hr
  rcases ho : (e.setup owner draft.heap).outcome with error | id <;> rw [ho] at hr <;> cases hr
  exact ⟨rfl, rfl, rfl⟩

/-- Binding a field has resolved its bind, and attached the field to what that leads to. -/
theorem bindField_ok {f : Field} {e : Expression} {binding : FieldBinding} {draft draft' : Draft}
    (hr : (bindField f).run draft = (.ok (e, binding), draft')) :
    ∃ found, f.bind.ns = .models ∧ (f.bind.setup f.name draft.heap).outcome = .ok found ∧
      e = (f.bind.setup f.name draft.heap).subject ∧ e.state.isResolved ∧
      (attachField f e).run { draft with heap := (f.bind.setup f.name draft.heap).heap } =
        (.ok (e, binding), draft') := by
  rw [bindField_eq] at hr
  split at hr
  · cases hr
  · rename_i hns
    obtain ⟨⟨bind, found⟩, draft₁, hresolve, hr⟩ := Step.run_bind_ok hr
    obtain ⟨ho, hsubject, rfl⟩ := resolve_ok hresolve
    simp only at hr
    split at hr
    · cases hr
    · rename_i hresolved
      obtain ⟨rfl, _⟩ := attachField_ok hr
      exact ⟨found, by simpa using hns, ho, hsubject, by simpa using hresolved, hr⟩

/-- A field that is set up is bound first. What comes after that only uses the heap. -/
theorem setupField_ok {config : Config} {f f' : Field} {draft draft' : Draft}
    (hr : (setupField config f).run draft = (.ok f', draft')) :
    ∃ binding draft₁, (bindField f).run draft = (.ok (f'.bind, binding), draft₁) ∧
      f'.binding = some binding ∧ f'.name = f.name ∧
      (draft₁.heap.Sound → Draft.Uses draft₁ draft') := by
  unfold setupField at hr
  obtain ⟨⟨bind, binding⟩, draft₁, hbind, hr⟩ := Step.run_bind_ok hr
  obtain ⟨_, draft₂, hrequired, hr⟩ := Step.run_bind_ok hr
  obtain ⟨_, draft₃, heditable, hr⟩ := Step.run_bind_ok hr
  obtain ⟨_, draft₄, havailable, hr⟩ := Step.run_bind_ok hr
  obtain ⟨_, draft₅, hdefault, hr⟩ := Step.run_bind_ok hr
  obtain ⟨_, draft₆, hkind, hr⟩ := Step.run_bind_ok hr
  cases hr
  refine ⟨binding, draft₁, hbind, rfl, rfl, fun hs => ?_⟩
  have h₂ := (onlyUses_settleOption f.name f.required).builds hs hrequired
  have h₃ := h₂.trans ((onlyUses_settleOption f.name f.editable).builds (h₂.heap.sound hs)
    heditable)
  have h₄ := h₃.trans
    ((onlyUses_settleOption f.name f.available).builds (h₃.heap.sound hs) havailable)
  have h₅ := h₄.trans ((onlyUses_settleOption f.name f.default).builds (h₄.heap.sound hs) hdefault)
  exact h₅.trans ((onlyBuilds_ownedBy (onlyUses_settleKind config f _ _)).builds
    (h₅.heap.sound hs) hkind)

/-! ## The shape of what a field is bound to -/

/-- A bind whose names are plain is a path through the models. It is ready to be read, and the field
is bound to what its attributes lead to from the model that it starts at. -/
theorem bindField_along {models : Ordered ModelInfo} {f : Field} {e : Expression}
    {binding : FieldBinding} {draft draft' : Draft} (ht : Heap.Typed models draft.heap)
    (hr : (bindField f).run draft = (.ok (e, binding), draft')) {root : Hop} {hops : List Hop}
    (hhops : e.hops = root :: hops) (hplain : ∀ hop ∈ root :: hops, ¬ Pointed hop.name) :
    ∃ name info, e = .path .models root hops
        (.resolved ⟨(root :: hops).map .attribute, some name⟩) ∧
      models.find? root.name = some info ∧
      info.descriptor.along (hops.map Hop.name) = .ok binding.descriptor := by
  obtain ⟨found, hns, ho, rfl, hresolved, hattach⟩ := bindField_ok hr
  obtain ⟨_, v, hv, _, hd, _⟩ := attachField_ok hattach
  dsimp only at hv
  rcases hb : f.bind with ⟨ns, first, rest, state⟩ | ⟨operation, rest, state⟩
  · rw [hb] at hns ho hhops hresolved hv
    obtain rfl : ns = .models := hns
    obtain rfl : state = .pending := Expression.pending_of_setup_ok f.name ho
    rcases Expression.setup_path_cases f.name .models first rest draft.heap with
      ⟨id, h₁, name, h₂, hfollow, hrefer, hs⟩ | ⟨_, _, _, _, _, _, hs⟩ |
        ⟨_, _, failed, _, hsoft, hs⟩ | ⟨_, _, _, _, hs⟩
    · rw [hs] at hhops hv ⊢
      obtain ⟨rfl, rfl⟩ : first = root ∧ rest = hops := by
        simpa [Expression.hops] using hhops
      have hwalk := (Heap.walks_path .models ht.sound first rest).uses
      have huses := Heap.uses_refer (Heap.follow_usable hfollow) f.name
      rw [hfollow] at hwalk
      rw [hrefer] at huses
      obtain ⟨info, w, d, hinfo, hw, hwd, halong⟩ := ht.along_path
        (hplain first List.mem_cons_self)
        (fun hop hh => hplain hop (List.mem_cons_of_mem _ hh)) hfollow
      -- The variable at the end is found again under its own name.
      obtain ⟨u, hu, hcore⟩ := hw.keeps huses.keeps
      obtain ⟨u', hu', rfl⟩ := Heap.refer_ok f.name hrefer
      obtain rfl : u' = u := Option.some.inj (hu'.symm.trans hu.2)
      have hown := ((ht.uses (hwalk.trans huses)).registered hu).1
      have hfound : h₂.byExpression (.path .models first rest
          (.resolved ⟨(first :: rest).map .attribute, some u'.name⟩)) = .ok u' := by
        simp [Heap.byExpression, Expression.target?, Expression.state, Expression.ns, Heap.named,
          Heap.get?, hown, hu']
      obtain rfl : u' = v := Except.ok.inj (hfound.symm.trans hv)
      refine ⟨_, info, rfl, hinfo, ?_⟩
      have hdata : u'.data = .typed d := (Variable.eq_of_core hcore).2.1.trans hwd
      simp only [Variable.descriptor?, hdata, VariableData.descriptor?, Option.some.injEq] at hd
      rw [halong, hd]
    · simp [hs] at ho
    · simp only [hs, Expression.state, (Error.softState?_failed hsoft).2] at hresolved
      cases hresolved
    · simp [hs] at ho
  · rw [hb] at hns
    cases hns

end Formwork
