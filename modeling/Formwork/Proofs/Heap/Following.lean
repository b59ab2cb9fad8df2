-- What a path leads to, said of a heap alone: no variable is added and none is remembered.
-- Following the path through a heap that has grown from it leads to the same, or fails in the same
-- way.
import Formwork.Proofs.Expression.Setup
import Formwork.Proofs.Heap.Growth

namespace Formwork.Heap

variable {base h : Heap} {ns : Namespace}

/-! ## What a path leads to -/

/-- The variable, unless expressions may not use it. -/
def allowed (v : Variable) : Except String Variable :=
  if v.denied.isSome then .error "SetupValue" else .ok v

/-- What a name at the start of a path stands for, or the kind of the error. -/
def rootOf (h : Heap) (ns : Namespace) (name : String) : Except String Variable :=
  if name.toList.head? == some '_' then .error "SetupName"
  else
    match h.get? ns name with
    | some v => allowed v.core
    | none => .error (if ns.isHeapBacked then "SetupNameNotFound" else "SetupUnsupported")

/-- What an attribute of a variable stands for, or the kind of the error. -/
def memberOf (h : Heap) (ns : Namespace) (v : Variable) (name : String) : Except String Variable :=
  if name.toList.head? == some '_' then .error "SetupName"
  else
    match h.get? ns (v.name ++ "." ++ name) with
    | some w => allowed w.core
    | none =>
      match h.memberShape name v with
      | .ok d => .ok (.fresh (v.name ++ "." ++ name) ns (.typed d))
      | .error e => .error e.kindName

/-- What the attributes of a variable lead to, one after the other. -/
def membersOf (h : Heap) (ns : Namespace) (v : Variable) (hops : List Hop) :
    Except String Variable :=
  hops.foldlM (fun v hop => h.memberOf ns v hop.name) v

/-- What a path leads to, or the kind of the error. -/
def pathOf (h : Heap) (ns : Namespace) (root : Hop) (hops : List Hop) : Except String Variable := do
  h.membersOf ns (← h.rootOf ns root.name) hops

/-! ## Runs that lead there -/

/-- A run through a heap that has grown from `base` ends where it is said to end, and leaves such a
heap behind. -/
structure LeadsTo (base : Heap) (ns : Namespace) (expected : Except String Variable)
    (run : Except Error VarId × Heap) : Prop where
  grown : Grown base run.2
  ends : (∃ id v, run.1 = .ok id ∧ run.2.Registered ns id v ∧ expected = .ok v.core) ∨
    ∃ e : Error, run.1 = .error e ∧ expected = .error e.kindName

theorem LeadsTo.found {id : VarId} {v : Variable} (hg : Grown base h) (hv : h.Registered ns id v) :
    LeadsTo base ns (.ok v.core) (.ok id, h) :=
  ⟨hg, .inl ⟨id, v, rfl, hv, rfl⟩⟩

theorem LeadsTo.failed (hg : Grown base h) (e : Error) :
    LeadsTo base ns (.error e.kindName) (.error e, h) :=
  ⟨hg, .inr ⟨e, rfl, rfl⟩⟩

/-- Going on from where a run ends. -/
theorem LeadsTo.bind {expected : Except String Variable} {x : HeapAction VarId}
    {f : VarId → HeapAction VarId} {g : Variable → Except String Variable}
    (hx : LeadsTo base ns expected (x.run h))
    (hf : ∀ id h' v, Grown base h' → h'.Registered ns id v →
      LeadsTo base ns (g v.core) ((f id).run h')) :
    LeadsTo base ns (expected >>= g) ((x >>= f).run h) := by
  obtain ⟨hg, hends⟩ := hx
  rw [Step.run_bind]
  rcases hr : x.run h with ⟨result, h'⟩
  rw [hr] at hg hends
  rcases hends with ⟨id, v, he, hv, rfl⟩ | ⟨e, he, rfl⟩
  · obtain rfl : result = .ok id := he
    exact hf id h' v hg hv
  · obtain rfl : result = .error e := he
    exact LeadsTo.failed hg e

/-! ## One hop -/

theorem leadsTo_usable {id : VarId} {v : Variable} (hg : Grown base h) (hv : h.Registered ns id v) :
    LeadsTo base ns (allowed v.core) ((usable id).run h) := by
  have hdenied : v.core.denied = v.denied := rfl
  rw [usable, Step.run_bind, run_variableAt_of_some hv.2, allowed, hdenied]
  rcases hd : v.denied with _ | reason
  · simp only [hd, Option.isSome_none, Bool.false_eq_true, if_false]
    exact LeadsTo.found hg hv
  · simp only [hd, Option.isSome_some, if_true]
    exact LeadsTo.failed hg (.ofKind .value _)

/-- The first hop of a path, if its name has no point or is there from the start. -/
theorem leadsTo_root (hg : Grown base h) {hop : Hop}
    (hspelled : Pointed hop.name → (base.lookup ns hop.name).isSome) :
    LeadsTo base ns (base.rootOf ns hop.name) ((step ns none hop).run h) := by
  rw [run_step, Step.run_bind]
  unfold attributeVariable rootOf
  by_cases hu : hop.name.toList.head? == some '_'
  · simp only [hu, if_true, Step.run_bind, Step.run_throw]
    exact LeadsTo.failed hg (.ofKind .name _)
  · simp only [hu, if_false, Bool.false_eq_true]
    rcases run_rootVariable ns hop.name h with ⟨id, hl, hr⟩ | ⟨hl, e, hr, hkind⟩
    · simp only [hr]
      rcases hg.lookup_cases ns hop.name with
        ⟨other, v, w, hget, hl', hw, hwv⟩ | ⟨_, hl'⟩ | ⟨hb, _, _, _, hd⟩
      · rw [hl] at hl'
        cases hl'
        simp only [hget, ← hwv]
        exact leadsTo_usable hg hw
      · rw [hl] at hl'
        cases hl'
      · -- The name is that of an attribute, so it has a point and was there from the start.
        obtain ⟨_, p, attr, _, _, _, _, hname, _⟩ := hd
        have := hspelled (hname ▸ pointed_join p.name attr)
        rw [hb] at this
        cases this
    · simp only [hr]
      rcases hg.lookup_cases ns hop.name with ⟨_, _, _, _, hl', _⟩ | ⟨hget, _⟩ | ⟨_, _, _, hl', _⟩
      · rw [hl] at hl'
        cases hl'
      · simp only [hget, ← hkind]
        exact LeadsTo.failed hg e
      · rw [hl] at hl'
        cases hl'

/-- The first hop of any path leads somewhere, without a change. -/
theorem exists_leadsTo_root (ns : Namespace) (hg : Grown base h) (hop : Hop) :
    ∃ expected, LeadsTo base ns expected ((step ns none hop).run h) := by
  rw [run_step, Step.run_bind]
  unfold attributeVariable
  by_cases hu : hop.name.toList.head? == some '_'
  · simp only [hu, if_true, Step.run_bind, Step.run_throw]
    exact ⟨_, LeadsTo.failed hg (.ofKind .name _)⟩
  · simp only [hu, if_false, Bool.false_eq_true]
    rcases run_rootVariable ns hop.name h with ⟨id, hl, hr⟩ | ⟨_, e, hr, _⟩
    · obtain ⟨v, hv, _⟩ := hg.sound ns hop.name id hl
      simp only [hr]
      exact ⟨_, leadsTo_usable hg ⟨⟨hop.name, hl⟩, hv⟩⟩
    · simp only [hr]
      exact ⟨_, LeadsTo.failed hg e⟩

/-- A variable of an attribute that is new in the heap is what the attribute stands for. -/
theorem Grown.derived_core (hg : Grown base h) {parent id : VarId} {p v : Variable} {name : String}
    (hp : h.Registered ns parent p) (hname : ¬ Pointed name)
    (hd : h.Derived ns (p.name ++ "." ++ name) id) (hv : h.find? id = some v) :
    ∃ d, h.memberShape name p = .ok d ∧
      v.core = .fresh (p.name ++ "." ++ name) ns (.typed d) := by
  obtain ⟨other, q, attr, d, w, hq, hattr, heq, hshape, hw, hcore⟩ := hd
  obtain ⟨hpq, rfl⟩ := join_inj hname hattr heq
  -- The parent it was derived from is this one: there are no two with one name.
  obtain rfl := hg.unambiguous.unique ns parent other p q hp hq hpq
  have hpq : q = p := by
    have := hq.2
    rw [hp.2] at this
    cases this
    rfl
  rw [hv] at hw
  cases hw
  exact ⟨d, hpq ▸ hshape, hcore⟩

/-- A later hop of a path, if its name has no point. -/
theorem leadsTo_member (hg : Grown base h) (hopen : base.finished = false) {parent : VarId}
    {p : Variable} (hp : h.Registered ns parent p) {hop : Hop} (hname : ¬ Pointed hop.name) :
    LeadsTo base ns (base.memberOf ns p.core hop.name) ((step ns (some parent) hop).run h) := by
  rw [run_step, Step.run_bind]
  unfold attributeVariable memberOf
  by_cases hu : hop.name.toList.head? == some '_'
  · simp only [hu, if_true, Step.run_bind, Step.run_throw]
    exact LeadsTo.failed hg (.ofKind .name _)
  simp only [hu, if_false, Bool.false_eq_true, run_memberVariable hp.2]
  have hshape : h.memberShape hop.name p = base.memberShape hop.name p.core :=
    hg.keeps.memberShape (v := p.core) rfl hop.name
  have hfull : p.core.name = p.name := rfl
  rw [← hshape, hfull]
  rcases hg.lookup_cases ns (p.name ++ "." ++ hop.name) with
    ⟨id, v, w, hget, hl, hw, hwv⟩ | ⟨hget, hl⟩ | ⟨_, hget, id, hl, hd⟩
  · simp only [hl, hget, ← hwv]
    exact leadsTo_usable hg hw
  · simp only [hl, hget]
    rcases hd : h.memberShape hop.name p with e | d
    · exact LeadsTo.failed hg e
    · have hgrown := hg.withMember hp hname hl hd
      have hadd : (add (.fresh (p.name ++ "." ++ hop.name) ns (.typed d)) none).run h = _ :=
        run_add (hg.finished.trans hopen) hl
      have hnew := find?_withVariable_new h (.fresh (p.name ++ "." ++ hop.name) ns (.typed d))
        (p.name ++ "." ++ hop.name)
      simp only [hadd]
      refine leadsTo_usable hgrown ⟨⟨p.name ++ "." ++ hop.name, ?_⟩, hnew⟩
      rw [lookup_withVariable, hl]
      simp [Variable.fresh]
  · obtain ⟨v, hv, _⟩ := hg.sound ns _ id hl
    obtain ⟨d, hd, hcore⟩ := hg.derived_core hp hname hd hv
    simp only [hl, hget, hd]
    have := leadsTo_usable hg ⟨⟨_, hl⟩, hv⟩
    rw [hcore] at this
    exact this

/-! ## The whole path -/

theorem leadsTo_members (hopen : base.finished = false) :
    ∀ (hops : List Hop) (h : Heap) (id : VarId) (v : Variable), Grown base h →
      h.Registered ns id v → (∀ hop ∈ hops, ¬ Pointed hop.name) →
      LeadsTo base ns (base.membersOf ns v.core hops)
        ((hops.foldlM (fun id hop => step ns (some id) hop) id).run h)
  | [], h, id, v, hg, hv, _ => LeadsTo.found hg hv
  | hop :: rest, h, id, v, hg, hv, hplain => by
    rw [membersOf, List.foldlM_cons, List.foldlM_cons]
    refine (leadsTo_member hg hopen hv (hplain hop List.mem_cons_self)).bind ?_
    intro next h' w hg' hw
    exact leadsTo_members hopen rest h' next w hg' hw fun hop hh =>
      hplain hop (List.mem_cons_of_mem _ hh)

/-- Following a path leads where the heap that was there first says, however much it has grown. -/
theorem leadsTo_path (hg : Grown base h) (hopen : base.finished = false) {root : Hop}
    {hops : List Hop} (hspelled : Pointed root.name → (base.lookup ns root.name).isSome)
    (hplain : ∀ hop ∈ hops, ¬ Pointed hop.name) :
    LeadsTo base ns (base.pathOf ns root hops) ((follow ns root hops).run h) := by
  rw [pathOf, follow]
  refine (leadsTo_root hg hspelled).bind ?_
  intro id h' v hg' hv
  exact leadsTo_members hopen hops h' id v hg' hv hplain

/-- Following any path whose later names have no point leads somewhere, and the heap grows. -/
theorem exists_leadsTo_path (ns : Namespace) (root : Hop) {hops : List Hop} (hg : Grown base h)
    (hopen : base.finished = false) (hplain : ∀ hop ∈ hops, ¬ Pointed hop.name) :
    ∃ expected, LeadsTo base ns expected ((follow ns root hops).run h) := by
  rw [follow]
  obtain ⟨expected, hroot⟩ := exists_leadsTo_root ns hg root
  refine ⟨expected >>= fun v => base.membersOf ns v hops, hroot.bind ?_⟩
  intro id h' v hg' hv
  exact leadsTo_members hopen hops h' id v hg' hv hplain

end Formwork.Heap
