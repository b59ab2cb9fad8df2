-- What each action does to a heap. There are only three ways in which a heap changes: a variable is
-- added under a new name, a known variable gets another name, and a known variable changes in
-- place. Every action is one of them, or leaves the heap alone.
import Formwork.Heap.Basic
import Formwork.Proofs.Run

namespace Formwork.Heap

/-! ## The three changes -/

/-- The heap with a variable more, registered under a name. -/
def withVariable (h : Heap) (v : Variable) (name : String) : Heap :=
  { h with
    names := h.names ++ [((v.ns, name), ⟨h.arena.size⟩)]
    count := h.count + 1
    arena := h.arena.push v }

/-- The heap with another name for a variable. -/
def withName (h : Heap) (ns : Namespace) (name : String) (id : VarId) : Heap :=
  { h with names := h.names ++ [((ns, name), id)], count := h.count + 1 }

/-- The heap with a variable changed in place. -/
def withChange (h : Heap) (id : VarId) (f : Variable → Variable) : Heap :=
  { h with arena := h.arena.modify id.index f }

theorem lookup_append (h : Heap) (key : Namespace × String) (id : VarId) (ns : Namespace)
    (name : String) :
    List.lookup (ns, name) (h.names ++ [(key, id)]) =
      (h.lookup ns name).or (if (ns, name) = key then some id else none) := by
  rw [List.lookup_append]
  simp only [lookup, List.lookup_cons, List.lookup_nil]
  by_cases hk : (ns, name) = key
  · simp [hk]
  · simp [beq_false_of_ne hk, hk]

theorem lookup_withVariable (h : Heap) (v : Variable) (name : String) (ns : Namespace)
    (other : String) :
    (h.withVariable v name).lookup ns other =
      (h.lookup ns other).or (if (ns, other) = (v.ns, name) then some ⟨h.arena.size⟩ else none) :=
  lookup_append h _ _ ns other

theorem lookup_withName (h : Heap) (key : Namespace) (name : String) (id : VarId) (ns : Namespace)
    (other : String) :
    (h.withName key name id).lookup ns other =
      (h.lookup ns other).or (if (ns, other) = (key, name) then some id else none) :=
  lookup_append h _ _ ns other

/-- What a name leads to after a variable was added: what it led to before, or the new variable. -/
theorem lookup_withVariable_cases {h : Heap} {v : Variable} {name other : String} {ns : Namespace}
    {id : VarId} (hl : (h.withVariable v name).lookup ns other = some id) :
    h.lookup ns other = some id ∨
      (h.lookup ns other = none ∧ ns = v.ns ∧ other = name ∧ id = ⟨h.arena.size⟩) := by
  rw [lookup_withVariable] at hl
  rcases ho : h.lookup ns other with _ | old <;> rw [ho] at hl
  · split at hl
    · rename_i he
      cases he
      cases hl
      exact .inr ⟨rfl, rfl, rfl, rfl⟩
    · cases hl
  · cases hl
    exact .inl rfl

theorem lookup_withName_cases {h : Heap} {key ns : Namespace} {name other : String}
    {id found : VarId}
    (hl : (h.withName key name id).lookup ns other = some found) :
    h.lookup ns other = some found ∨ (ns = key ∧ other = name ∧ found = id) := by
  rw [lookup_withName] at hl
  rcases ho : h.lookup ns other with _ | old <;> rw [ho] at hl
  · split at hl
    · rename_i he
      cases he
      cases hl
      exact .inr ⟨rfl, rfl, rfl⟩
    · cases hl
  · cases hl
    exact .inl rfl

@[simp] theorem lookup_withChange (h : Heap) (id : VarId) (f : Variable → Variable)
    (ns : Namespace) (name : String) : (h.withChange id f).lookup ns name = h.lookup ns name := rfl

theorem mem_namesOf_iff {h : Heap} {ns : Namespace} {name : String} :
    name ∈ h.namesOf ns ↔ (h.lookup ns name).isSome := by
  rw [Option.isSome_iff_ne_none, ne_eq, lookup, List.lookup_eq_none_iff]
  simp only [namesOf, entries, List.mem_map, List.mem_filterMap, Option.ite_none_right_eq_some,
    Option.some.injEq, Prod.exists, Prod.mk.injEq, bne_iff_ne, ne_eq,
    Classical.not_forall, Classical.not_not, exists_prop]
  constructor
  · rintro ⟨_, id, ⟨space, other, id', hmem, rfl, rfl, rfl⟩, rfl⟩
    exact ⟨space, other, id', hmem, rfl, rfl⟩
  · rintro ⟨_, _, id, hmem, rfl, rfl⟩
    exact ⟨name, id, ⟨ns, name, id, hmem, rfl, rfl, rfl⟩, rfl⟩

theorem namesOf_withVariable (h : Heap) (v : Variable) (name : String) (ns : Namespace) :
    (h.withVariable v name).namesOf ns =
      h.namesOf ns ++ if v.ns = ns then [name] else [] := by
  by_cases hns : v.ns = ns <;> simp [namesOf, entries, withVariable, hns]

theorem namesOf_withName (h : Heap) (space ns : Namespace) (name : String) (id : VarId) :
    (h.withName space name id).namesOf ns =
      h.namesOf ns ++ if space = ns then [name] else [] := by
  by_cases hns : space = ns <;> simp [namesOf, entries, withName, hns]

theorem find?_withVariable (h : Heap) (v : Variable) (name : String) (id : VarId) :
    (h.withVariable v name).find? id =
      if id.index = h.arena.size then some v else h.find? id := by
  simp only [find?, withVariable, Array.getElem?_push]

theorem find?_withChange (h : Heap) (id other : VarId) (f : Variable → Variable) :
    (h.withChange id f).find? other =
      if other = id then (h.find? other).map f else h.find? other := by
  simp only [find?, withChange, Array.getElem?_modify]
  by_cases hi : other = id
  · simp [hi]
  · have : ¬ id.index = other.index := by
      intro he
      apply hi
      cases other
      cases id
      simp_all
    simp [hi, this]

/-- A variable that is there has a place below the next one. -/
theorem index_lt_of_find? {h : Heap} {id : VarId} {v : Variable} (hv : h.find? id = some v) :
    id.index < h.arena.size := by
  simp only [find?] at hv
  exact (Array.getElem?_eq_some_iff.1 hv).1

theorem find?_withVariable_of_some {h : Heap} {id : VarId} {w : Variable} (v : Variable)
    (name : String) (hw : h.find? id = some w) : (h.withVariable v name).find? id = some w := by
  have := index_lt_of_find? hw
  rw [find?_withVariable, if_neg (by omega), hw]

theorem find?_withVariable_new (h : Heap) (v : Variable) (name : String) :
    (h.withVariable v name).find? ⟨h.arena.size⟩ = some v := by
  rw [find?_withVariable, if_pos rfl]

/-! ## Runs of the actions -/

theorem run_ensureOpen (action : String) (h : Heap) :
    (ensureOpen action).run h =
      if h.finished then
        (.error (.internal none s!"Heap {h.name} is finished, can not {action}"), h)
      else (.ok (), h) := by
  simp only [ensureOpen, Step.run_bind, Step.run_get]
  split <;> rfl

theorem run_variableAt (id : VarId) (h : Heap) :
    (variableAt id).run h =
      match h.find? id with
      | some v => (.ok v, h)
      | none => (.error (h.missing id), h) := by
  simp only [variableAt, Step.run_bind, Step.run_get]
  cases h.find? id <;> rfl

theorem run_variableAt_of_some {id : VarId} {h : Heap} {v : Variable} (hv : h.find? id = some v) :
    (variableAt id).run h = (.ok v, h) := by
  rw [run_variableAt, hv]

theorem variableAt_ok {id : VarId} {h h' : Heap} {v : Variable}
    (hr : (variableAt id).run h = (.ok v, h')) : h.find? id = some v ∧ h' = h := by
  rw [run_variableAt] at hr
  rcases hv : h.find? id with _ | w <;> rw [hv] at hr <;> cases hr
  exact ⟨rfl, rfl⟩

theorem run_change (id : VarId) (f : Variable → Variable) (h : Heap) :
    (change id f).run h =
      match h.find? id with
      | some _ => (.ok (), h.withChange id f)
      | none => (.error (h.missing id), h) := by
  simp only [change, Step.run_bind, run_variableAt]
  cases h.find? id <;> rfl

/-- No heap is without a namespace. -/
@[simp] theorem run_ensureNamespace (ns : Namespace) (h : Heap) :
    (ensureNamespace ns).run h = (.ok (), h) := by
  simp only [ensureNamespace, Step.run_bind, Step.run_get, List.contains_iff_mem.2 (h.complete ns)]
  rfl

theorem run_register (ns : Namespace) (name : String) (id : VarId) (h : Heap) :
    (register ns name id).run h =
      if (h.lookup ns name).isSome then
        (.error (.ofKind .name s!"Variable '{name}' already registered in {h.name}.{ns.text}"), h)
      else (.ok (), h.withName ns name id) := by
  simp only [register, Step.run_bind, run_ensureNamespace, Step.run_get]
  split <;> rfl

theorem run_ensureOpen_of_open {h : Heap} (hopen : h.finished = false) (action : String) :
    (ensureOpen action).run h = (.ok (), h) := by
  rw [run_ensureOpen, hopen, if_neg Bool.false_ne_true]

theorem ensureOpen_fails {h : Heap} (hf : h.finished = true) (action : String) :
    ∃ e, (ensureOpen action).run h = (.error e, h) :=
  ⟨_, by rw [run_ensureOpen, if_pos hf]⟩

theorem variableAt_fails {h : Heap} {id : VarId} (hv : h.find? id = none) :
    ∃ e, (variableAt id).run h = (.error e, h) :=
  ⟨_, by rw [run_variableAt, hv]⟩

theorem change_fails {h : Heap} {id : VarId} (hv : h.find? id = none) (f : Variable → Variable) :
    ∃ e, (change id f).run h = (.error e, h) :=
  ⟨_, by rw [run_change, hv]⟩

theorem register_fails {h : Heap} {ns : Namespace} {name : String} {other : VarId}
    (hn : h.lookup ns name = some other) (id : VarId) :
    ∃ e, (register ns name id).run h = (.error e, h) :=
  ⟨_, by rw [run_register, if_pos (by rw [hn]; rfl)]⟩

/-- Adding a variable under a name that is new in an open heap. -/
theorem run_add {v : Variable} {altName : Option String} {h : Heap} (hopen : h.finished = false)
    (hnew : h.lookup v.ns (altName.getD v.name) = none) :
    (add v altName).run h = (.ok ⟨h.arena.size⟩, h.withVariable v (altName.getD v.name)) := by
  simp only [add, Step.run_bind, run_ensureOpen_of_open hopen, run_ensureNamespace, Step.run_get,
    run_register, hnew,
    Option.isSome_none, Bool.false_eq_true, if_false, Step.run_modify, Step.run_pure]
  rfl

/-- Adding a variable fails and changes nothing, or it adds the variable. -/
theorem add_cases (v : Variable) (altName : Option String) (h : Heap) :
    (∃ e, (add v altName).run h = (.error e, h)) ∨
      (h.finished = false ∧ h.lookup v.ns (altName.getD v.name) = none ∧
        (add v altName).run h = (.ok ⟨h.arena.size⟩, h.withVariable v (altName.getD v.name))) := by
  rcases hf : h.finished with _ | _
  · rcases hn : h.lookup v.ns (altName.getD v.name) with _ | id
    · exact .inr ⟨rfl, rfl, run_add hf hn⟩
    · obtain ⟨e, he⟩ := register_fails hn ⟨h.arena.size⟩
      refine .inl ⟨e, ?_⟩
      simp only [add, Step.run_bind, run_ensureOpen_of_open hf, run_ensureNamespace, Step.run_get,
        he]
  · obtain ⟨e, he⟩ := ensureOpen_fails hf s!"add variable {v.name}"
    refine .inl ⟨e, ?_⟩
    simp only [add, Step.run_bind, he]

/-- Adding a variable has succeeded when it is there. -/
theorem add_ok {v : Variable} {altName : Option String} {h h' : Heap} {id : VarId}
    (hr : (add v altName).run h = (.ok id, h')) :
    id = ⟨h.arena.size⟩ ∧ h' = h.withVariable v (altName.getD v.name) := by
  rcases add_cases v altName h with ⟨e, he⟩ | ⟨_, _, he⟩ <;> rw [he] at hr <;> cases hr
  exact ⟨rfl, rfl⟩

/-- A variable that was added is found under the name it was added with. -/
theorem add_found {v : Variable} {altName : Option String} {h h' : Heap} {id : VarId}
    (hr : (add v altName).run h = (.ok id, h')) :
    h'.lookup v.ns (altName.getD v.name) = some id ∧ h'.find? id = some v := by
  rcases add_cases v altName h with ⟨e, he⟩ | ⟨_, hnew, he⟩ <;> rw [he] at hr <;> cases hr
  refine ⟨?_, find?_withVariable_new h v _⟩
  rw [lookup_withVariable, hnew, Option.none_or, if_pos rfl]

/-- A second name binds the variable first, and is refused after that if it is taken. -/
theorem run_addAlias {id : VarId} {h : Heap} {v : Variable} (hopen : h.finished = false)
    (hv : h.find? id = some v) (name : String) :
    (addAlias id name).run h =
      (register v.ns name id).run (h.withChange id fun v => v.bind ⟨h.name, v.ns, name⟩) := by
  simp only [addAlias, Step.run_bind, run_ensureOpen_of_open hopen, run_variableAt_of_some hv,
    Step.run_get, run_change, hv]

/-- An alias that fails leaves the binding behind if only its name is taken. -/
theorem addAlias_cases (id : VarId) (name : String) (h : Heap) :
    (∃ e, (addAlias id name).run h = (.error e, h)) ∨
      ∃ v, h.finished = false ∧ h.find? id = some v ∧
        (((h.lookup v.ns name).isSome ∧ ∃ e, (addAlias id name).run h =
            (.error e, h.withChange id fun v => v.bind ⟨h.name, v.ns, name⟩)) ∨
          (h.lookup v.ns name = none ∧ (addAlias id name).run h =
            (.ok (), (h.withChange id fun v => v.bind ⟨h.name, v.ns, name⟩).withName v.ns name
              id))) := by
  rcases hf : h.finished with _ | _
  · rcases hv : h.find? id with _ | v
    · obtain ⟨e, he⟩ := variableAt_fails hv
      refine .inl ⟨e, ?_⟩
      simp only [addAlias, Step.run_bind, run_ensureOpen_of_open hf, he]
    · refine .inr ⟨v, rfl, rfl, ?_⟩
      rw [run_addAlias hf hv name]
      rcases hn : h.lookup v.ns name with _ | other
      · exact .inr ⟨rfl, by rw [run_register, lookup_withChange, hn]; rfl⟩
      · exact .inl ⟨rfl, register_fails (by rw [lookup_withChange, hn]) id⟩
  · obtain ⟨e, he⟩ := ensureOpen_fails hf s!"add alias {name}"
    refine .inl ⟨e, ?_⟩
    simp only [addAlias, Step.run_bind, he]

/-- Referring to a variable of an open heap. -/
theorem run_addReference {id : VarId} {h : Heap} {v : Variable} (hopen : h.finished = false)
    (hv : h.find? id = some v) (owner : String) :
    (addReference id owner).run h = (.ok (), h.withChange id fun v => v.refer owner) := by
  simp only [addReference, Step.run_bind, run_ensureOpen_of_open hopen, run_change, hv]

theorem addReference_cases (id : VarId) (owner : String) (h : Heap) :
    (∃ e, (addReference id owner).run h = (.error e, h)) ∨
      ∃ v, h.finished = false ∧ h.find? id = some v ∧
        (addReference id owner).run h = (.ok (), h.withChange id fun v => v.refer owner) := by
  rcases hf : h.finished with _ | _
  · rcases hv : h.find? id with _ | v
    · obtain ⟨e, he⟩ := change_fails hv fun v => v.refer owner
      exact .inl ⟨e, by simp only [addReference, Step.run_bind, run_ensureOpen_of_open hf, he]⟩
    · exact .inr ⟨v, rfl, rfl, run_addReference hf hv owner⟩
  · obtain ⟨e, he⟩ := ensureOpen_fails hf s!"add reference from {owner}"
    exact .inl ⟨e, by simp only [addReference, Step.run_bind, he]⟩

theorem addBound_cases (id : VarId) (b : BoundVar) (h : Heap) :
    (∃ e, (addBound id b).run h = (.error e, h)) ∨
      ∃ v, h.finished = false ∧ h.find? id = some v ∧
        (addBound id b).run h = (.ok (), h.withChange id fun v => v.bind b) := by
  rcases hf : h.finished with _ | _
  · rcases hv : h.find? id with _ | v
    · obtain ⟨e, he⟩ := change_fails hv fun v => v.bind b
      exact .inl ⟨e, by simp only [addBound, Step.run_bind, run_ensureOpen_of_open hf, he]⟩
    · refine .inr ⟨v, rfl, rfl, ?_⟩
      simp only [addBound, Step.run_bind, run_ensureOpen_of_open hf, run_change, hv]
  · obtain ⟨e, he⟩ := ensureOpen_fails hf s!"bind to {b.text}"
    exact .inl ⟨e, by simp only [addBound, Step.run_bind, he]⟩

/-- An alias that is added binds the variable to its second name, which was new. -/
theorem addAlias_ok {id : VarId} {name : String} {h h' : Heap} {v : Variable} {u : Unit}
    (hv : h.find? id = some v) (hr : (addAlias id name).run h = (.ok u, h')) :
    h.lookup v.ns name = none ∧
      h' = (h.withChange id fun w => w.bind ⟨h.name, w.ns, name⟩).withName v.ns name id := by
  rcases addAlias_cases id name h with ⟨e, he⟩ | ⟨w, _, hw, ⟨_, e, he⟩ | ⟨hnew, he⟩⟩ <;>
    rw [he] at hr <;> cases hr
  obtain rfl : w = v := Option.some.inj (hw.symm.trans hv)
  exact ⟨hnew, rfl⟩

/-- Binding a variable changes nothing else. -/
theorem addBound_ok {id : VarId} {b : BoundVar} {h h' : Heap} {u : Unit}
    (hr : (addBound id b).run h = (.ok u, h')) : h' = h.withChange id fun v => v.bind b := by
  rcases addBound_cases id b h with ⟨e, he⟩ | ⟨_, _, _, he⟩ <;> rw [he] at hr <;> cases hr
  rfl

theorem finish_cases (h : Heap) :
    (∃ e, finish.run h = (.error e, h)) ∨
      (h.finished = false ∧ finish.run h = (.ok (), { h with finished := true })) := by
  simp only [finish, Step.run_bind, Step.run_get]
  rcases h.finished with _ | _
  · rcases h.firstFault? with _ | e
    · exact .inr ⟨rfl, rfl⟩
    · exact .inl ⟨_, rfl⟩
  · exact .inl ⟨_, rfl⟩

/-! ## Attribute variables -/

theorem run_rootVariable (ns : Namespace) (name : String) (h : Heap) :
    (∃ id, h.lookup ns name = some id ∧ (rootVariable ns name).run h = (.ok id, h)) ∨
      (h.lookup ns name = none ∧
        ∃ e : Error, (rootVariable ns name).run h = (.error e, h) ∧
          e.kindName = if ns.isHeapBacked then "SetupNameNotFound" else "SetupUnsupported") := by
  simp only [rootVariable, Step.run_bind, Step.run_get]
  rcases hl : h.lookup ns name with _ | id
  · refine .inr ⟨rfl, ?_⟩
    by_cases hb : ns.isHeapBacked
    · exact ⟨_, by simp only [hb, if_true]; rfl, by simp [hb, Error.kindName]⟩
    · exact ⟨_, by simp only [hb]; rfl, by simp [hb, Error.kindName, Error.ofKind]⟩
  · exact .inl ⟨id, rfl, rfl⟩

/-- The shape of an attribute of a variable. -/
def memberShape (h : Heap) (name : String) (v : Variable) : Except Error Descriptor := do
  (← shapeFor name v).attr name h.maxSuggestions

/-- The variable of an attribute is the one registered under the joined name, or a new one. -/
theorem run_memberVariable {ns : Namespace} {name : String} {parent : VarId} {h : Heap}
    {v : Variable} (hv : h.find? parent = some v) :
    (memberVariable ns name parent).run h =
      match h.lookup ns (v.name ++ "." ++ name) with
      | some id => (.ok id, h)
      | none =>
        match h.memberShape name v with
        | .ok d => (add (.fresh (v.name ++ "." ++ name) ns (.typed d)) none).run h
        | .error e => (.error e, h) := by
  simp only [memberVariable, Step.run_bind, run_variableAt, hv, Step.run_get]
  rcases h.lookup ns (v.name ++ "." ++ name) with _ | id
  · simp only [Step.run_bind, Step.run_ofExcept, memberShape]
    rcases shapeFor name v with e | shape
    · rfl
    · simp only [bind, Except.bind]
      rcases shape.attr name h.maxSuggestions with e | d <;> rfl
  · rfl

theorem run_memberVariable_of_none (ns : Namespace) (name : String) {parent : VarId} {h : Heap}
    (hv : h.find? parent = none) :
    ∃ e, (memberVariable ns name parent).run h = (.error e, h) := by
  simp only [memberVariable, Step.run_bind, run_variableAt, hv]
  exact ⟨_, rfl⟩

/-- Asking for an attribute variable leaves the heap alone, or adds the variable of an attribute. -/
theorem attributeVariable_cases (ns : Namespace) (name : String) (parent : Option VarId)
    (h : Heap) :
    ((attributeVariable ns name parent).run h).2 = h ∨
      ∃ id v d, parent = some id ∧ h.find? id = some v ∧ h.finished = false ∧
        h.lookup ns (v.name ++ "." ++ name) = none ∧ h.memberShape name v = .ok d ∧
        (attributeVariable ns name parent).run h = (.ok ⟨h.arena.size⟩,
          h.withVariable (.fresh (v.name ++ "." ++ name) ns (.typed d))
            (v.name ++ "." ++ name)) := by
  unfold attributeVariable
  by_cases hu : name.toList.head? == some '_'
  · left
    simp only [hu, if_true, Step.run_bind, Step.run_throw]
  · simp only [hu, if_false, Bool.false_eq_true]
    rcases parent with _ | id
    · left
      rcases run_rootVariable ns name h with ⟨id, _, hr⟩ | ⟨_, e, hr, _⟩ <;> rw [hr]
    · rcases hv : h.find? id with _ | v
      · obtain ⟨e, he⟩ := run_memberVariable_of_none ns name hv
        left
        simp only [he]
      · simp only [run_memberVariable hv]
        rcases hl : h.lookup ns (v.name ++ "." ++ name) with _ | other
        · rcases hd : h.memberShape name v with e | d
          · left
            rfl
          · simp only
            rcases add_cases (.fresh (v.name ++ "." ++ name) ns (.typed d)) none h with
              ⟨e, he⟩ | ⟨hopen, _, hadd⟩
            · left
              rw [he]
            · exact .inr ⟨id, v, d, rfl, hv, hopen, hl, hd, hadd⟩
        · left
          rfl

end Formwork.Heap
