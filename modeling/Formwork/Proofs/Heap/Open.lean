-- Open heaps, on which every action is orderly. An open heap is not finished, its names lead to
-- variables of their namespaces, and a name that is not the one of its variable is explained by a
-- binding. So a heap can always be finished, and no action asks for a variable that is not there.
import Formwork.Proofs.Heap.Uses
import Formwork.Proofs.Orderly

namespace Formwork

/-! ## Types -/

theorem DeclaredType.describe_inOrder (t : DeclaredType) (origin : Origin) :
    InOrder (t.describe origin) := by
  unfold DeclaredType.describe
  dsimp only
  split
  · exact inOrder_ok _
  · exact inOrder_error rfl

theorem Descriptor.attr_inOrder (d : Descriptor) (name : String) (limit : Nat) :
    InOrder (d.attr name limit) := by
  unfold Descriptor.attr
  split
  · exact inOrder_error rfl
  · split
    · exact DeclaredType.describe_inOrder _ _
    · exact inOrder_error rfl

theorem Signature.result_inOrder (f : Signature) : InOrder f.result := by
  unfold Signature.result
  split
  · exact inOrder_error rfl
  · exact inOrder_error rfl
  · exact DeclaredType.describe_inOrder _ _

namespace Heap

variable {h h' : Heap}

theorem shapeFor_inOrder (attr : String) (v : Variable) : InOrder (shapeFor attr v) := by
  unfold shapeFor
  split
  · exact inOrder_ok _
  · exact inOrder_ok _
  · exact Signature.result_inOrder _
  · exact inOrder_error rfl
  · exact inOrder_error rfl

/-! ## Aliases -/

/-- Every registered name is that of its variable, or the variable is bound to it. -/
def Explained (h : Heap) : Prop :=
  ∀ entry ∈ h.names, ∃ v, h.find? entry.2 = some v ∧
    (entry.1.2 = v.name ∨ v.isBoundTo entry.1.2)

theorem bind_name (v : Variable) (b : BoundVar) : (v.bind b).name = v.name := by
  unfold Variable.bind
  split <;> rfl

theorem isBoundTo_bind (v : Variable) (b : BoundVar) {name : String}
    (hn : b.name = name ∨ v.isBoundTo name) : (v.bind b).isBoundTo name := by
  unfold Variable.bind Variable.isBoundTo at *
  split
  · rename_i hc
    rcases hn with hn | hn
    · exact List.any_eq_true.2 ⟨b, List.contains_iff_mem.1 hc, by simp [hn]⟩
    · exact hn
  · rw [List.any_append]
    rcases hn with hn | hn
    · simp [hn]
    · simp [hn]

theorem Explained.withVariable (he : h.Explained) (v : Variable) :
    (h.withVariable v v.name).Explained := by
  refine List.forall_mem_append.2 ⟨fun entry hm => ?_, List.forall_mem_singleton.2 ?_⟩
  · obtain ⟨w, hw, hname⟩ := he entry hm
    exact ⟨w, find?_withVariable_of_some v _ hw, hname⟩
  · exact ⟨v, find?_withVariable_new h v _, .inl rfl⟩

theorem Explained.withChange (he : h.Explained) (id : VarId) {f : Variable → Variable}
    (hname : ∀ v, (f v).name = v.name)
    (hbound : ∀ v name, v.isBoundTo name → (f v).isBoundTo name) :
    (h.withChange id f).Explained := by
  intro entry hm
  obtain ⟨v, hv, hn⟩ := he entry hm
  rw [find?_withChange]
  split
  · exact ⟨f v, by rw [hv]; rfl, hn.imp (·.trans (hname v).symm) (hbound v _)⟩
  · exact ⟨v, hv, hn⟩

theorem Explained.withBinding (he : h.Explained) (id : VarId) (b : Variable → BoundVar) :
    (h.withChange id fun v => v.bind (b v)).Explained :=
  he.withChange id (fun v => bind_name v (b v)) fun v _ hn => isBoundTo_bind v (b v) (.inr hn)

/-- A second name is explained if the variable is bound to it. -/
theorem Explained.withName (he : h.Explained) {id : VarId} {v : Variable}
    (hv : h.find? id = some v) {name : String} (hb : v.isBoundTo name) (ns : Namespace) :
    (h.withName ns name id).Explained :=
  List.forall_mem_append.2 ⟨he, List.forall_mem_singleton.2 ⟨v, hv, .inr hb⟩⟩

theorem Explained.fault? (he : h.Explained) {ns : Namespace} {name : String} {id : VarId}
    (hm : ((ns, name), id) ∈ h.names) : h.fault? ns name id = none := by
  obtain ⟨v, hv, hn⟩ := he _ hm
  have hnamed : (name == v.name || v.isBoundTo name) = true := by
    rcases hn with hn | hn
    · simp [show name = v.name from hn]
    · simp [show v.isBoundTo name = true from hn]
  simp only [Heap.fault?, hv, hnamed, if_true]

/-- Where every name is explained there is nothing wrong. -/
theorem Explained.firstFault? (he : h.Explained) : h.firstFault? = none := by
  refine List.findSome?_eq_none_iff.2 fun ns _ => List.findSome?_eq_none_iff.2 ?_
  rintro ⟨name, id⟩ hm
  obtain ⟨⟨⟨space, other⟩, id'⟩, hentry, hsame⟩ := List.mem_filterMap.1 hm
  dsimp only at hsame
  split at hsame
  · cases hsame
    rename_i hspace
    exact he.fault? (hspace ▸ hentry)
  · cases hsame

/-! ## Open heaps -/

/-- The heap is not finished, and its names lead where they should. -/
structure Open (h : Heap) : Prop where
  unfinished : h.finished = false
  sound : h.Sound
  explained : h.Explained

theorem open_empty (name : String) (maxSuggestions : Nat) : (empty name maxSuggestions).Open :=
  ⟨rfl, sound_empty name maxSuggestions, fun _ hm => by cases hm⟩

theorem Open.withVariable (ho : h.Open) (v : Variable) : (h.withVariable v v.name).Open :=
  ⟨ho.unfinished, ho.sound.withVariable v _, ho.explained.withVariable v⟩

theorem Open.withBinding (ho : h.Open) (id : VarId) (b : Variable → BoundVar) :
    (h.withChange id fun v => v.bind (b v)).Open :=
  ⟨ho.unfinished, ho.sound.withChange id fun v => bind_ns v (b v), ho.explained.withBinding id b⟩

theorem Open.uses (ho : h.Open) (hu : Uses h h') : h'.Open := by
  induction hu with
  | refl => exact ho
  | step _ hstep ih =>
    cases hstep with
    | member => exact ih.withVariable (.fresh _ _ _)
    | @refer id _ owner _ _ =>
      exact ⟨ih.unfinished, ih.sound.withChange id fun _ => rfl,
        ih.explained.withChange id (fun _ => rfl) fun _ _ hn => hn⟩
    | bind id b => exact ih.withBinding id b
    | add hmine => exact hmine.elim
    | named _ hmine => exact hmine.elim

theorem Open.find?_of_lookup (ho : h.Open) {ns : Namespace} {name : String} {id : VarId}
    (hl : h.lookup ns name = some id) : ∃ v, h.find? id = some v := by
  obtain ⟨v, hv, _⟩ := ho.sound ns name id hl
  exact ⟨v, hv⟩

/-! ## Actions -/

theorem orderly_variableAt (ho : h.Open) {id : VarId} {v : Variable} (hv : h.find? id = some v) :
    Orderly Open (variableAt id) h fun w h' => w = v ∧ h' = h :=
  orderly_of_ok (run_variableAt_of_some hv) ho ⟨rfl, rfl⟩

theorem register_taken {ns : Namespace} {name : String} {other : VarId}
    (hl : h.lookup ns name = some other) (id : VarId) :
    ∃ e, (register ns name id).run h = (.error e, h) ∧ e.isInternal = false :=
  ⟨_, by rw [run_register, if_pos (by rw [hl]; rfl)], rfl⟩

/-- A variable is added under its own name, if that is new. -/
theorem orderly_add (ho : h.Open) (v : Variable) :
    Orderly Open (add v none) h fun id h' => h'.find? id = some v := by
  rcases hl : h.lookup v.ns v.name with _ | other
  · exact orderly_of_ok (run_add ho.unfinished hl) (ho.withVariable v)
      (find?_withVariable_new h v v.name)
  · obtain ⟨e, hr, he⟩ := register_taken hl ⟨h.arena.size⟩
    refine orderly_of_error ?_ ho he
    simp only [add, Step.run_bind, run_ensureOpen_of_open ho.unfinished, run_ensureNamespace,
      Step.run_get, Option.getD_none, hr]

/-- Whether its name is taken or not, an alias is explained by the binding that comes first. -/
theorem orderly_addAlias (ho : h.Open) {id : VarId} {v : Variable} (hv : h.find? id = some v)
    (name : String) : Orderly Open (addAlias id name) h fun _ _ => True := by
  have hbound := ho.withBinding id fun v => ⟨h.name, v.ns, name⟩
  have hfind : (h.withChange id fun v => v.bind ⟨h.name, v.ns, name⟩).find? id =
      some (v.bind ⟨h.name, v.ns, name⟩) := by
    rw [find?_withChange, if_pos rfl, hv]
    rfl
  have hrun := run_addAlias ho.unfinished hv name
  rcases hl : h.lookup v.ns name with _ | other
  · have hnew : (h.withChange id fun v => v.bind ⟨h.name, v.ns, name⟩).lookup v.ns name = none := by
      rw [lookup_withChange, hl]
    rw [run_register, hnew] at hrun
    refine orderly_of_ok hrun ⟨hbound.unfinished, ?_, ?_⟩ trivial
    · have hsound := hbound.sound.withName hfind name
      rwa [bind_ns] at hsound
    · exact hbound.explained.withName hfind (isBoundTo_bind v _ (.inl rfl)) v.ns
  · -- The binding stays, though the name is taken: a bound name needs no registration.
    obtain ⟨e, hr, he⟩ := register_taken
      ((lookup_withChange h id (fun v => v.bind ⟨h.name, v.ns, name⟩) _ _).trans hl) id
    exact orderly_of_error (hrun.trans hr) hbound he

theorem orderly_addBound (ho : h.Open) {id : VarId} {v : Variable} (hv : h.find? id = some v)
    (b : BoundVar) : Orderly Open (addBound id b) h fun _ _ => True := by
  have hrun : (addBound id b).run h = (.ok (), h.withChange id fun v => v.bind b) := by
    simp only [addBound, Step.run_bind, run_ensureOpen_of_open ho.unfinished, run_change, hv]
  exact orderly_of_ok hrun (ho.withBinding id fun _ => b) trivial

theorem orderly_refer (ho : h.Open) {id : VarId} (hu : h.Usable id) (owner : String) :
    Orderly Open (refer id owner) h fun _ _ => True := by
  obtain ⟨v, hv, hd⟩ := hu
  have hopen := ho.uses (BuildStep.refer owner hv hd).builds
  have hfind : (h.withChange id fun v => v.refer owner).find? id = some (v.refer owner) := by
    rw [find?_withChange, if_pos rfl, hv]
    rfl
  have hrun : (refer id owner).run h = (.ok v.name, h.withChange id fun v => v.refer owner) := by
    simp only [refer, Step.run_bind, run_addReference ho.unfinished hv, run_variableAt_of_some hfind]
    rfl
  exact orderly_of_ok hrun hopen trivial

/-- A heap whose names are explained can be finished. -/
theorem finish_ok (ho : h.Open) : finish.run h = (.ok (), { h with finished := true }) := by
  simp only [finish, Step.run_bind, Step.run_get, ho.unfinished, Bool.false_eq_true, if_false,
    ho.explained.firstFault?]
  rfl

/-! ## Paths -/

theorem orderly_rootVariable (ho : h.Open) (ns : Namespace) (name : String) :
    Orderly Open (rootVariable ns name) h fun id h' => ∃ v, h'.find? id = some v := by
  rcases run_rootVariable ns name h with ⟨id, hl, hr⟩ | ⟨_, e, hr, hkind⟩
  · exact orderly_of_ok hr ho (ho.find?_of_lookup hl)
  · refine orderly_of_error hr ho (Error.isInternal_of_kindName ?_)
    rw [hkind]
    split <;> decide

theorem orderly_memberVariable (ho : h.Open) {parent : VarId} {v : Variable}
    (hv : h.find? parent = some v) (ns : Namespace) (name : String) :
    Orderly Open (memberVariable ns name parent) h fun id h' => ∃ v, h'.find? id = some v := by
  unfold memberVariable
  refine orderly_bind (orderly_variableAt ho hv) ?_
  rintro w h₁ ho₁ ⟨rfl, rfl⟩
  refine orderly_get_bind ?_
  split
  · rename_i id hl
    exact orderly_pure ho₁ (ho₁.find?_of_lookup hl)
  · refine orderly_ofExcept_bind ho₁ (shapeFor_inOrder _ _) fun shape _ => ?_
    refine orderly_ofExcept_bind ho₁ (Descriptor.attr_inOrder _ _ _) fun d _ => ?_
    exact (orderly_add ho₁ _).mono fun id h' hid => ⟨_, hid⟩

theorem orderly_attributeVariable (ho : h.Open) (ns : Namespace) (name : String)
    {parent : Option VarId} (hp : ∀ id ∈ parent, ∃ v, h.find? id = some v) :
    Orderly Open (attributeVariable ns name parent) h fun id h' => ∃ v, h'.find? id = some v := by
  unfold attributeVariable
  by_cases hu : name.toList.head? == some '_'
  · simp only [hu, if_true]
    exact orderly_of_error (by rw [Step.run_bind, Step.run_throw]) ho (Error.isInternal_ofKind _ _)
  · simp only [hu, if_false, Bool.false_eq_true]
    cases parent with
    | some id =>
      obtain ⟨v, hv⟩ := hp id rfl
      exact orderly_memberVariable ho hv ns name
    | none => exact orderly_rootVariable ho ns name

theorem orderly_step (ho : h.Open) (ns : Namespace) (hop : Hop) {parent : Option VarId}
    (hp : ∀ id ∈ parent, ∃ v, h.find? id = some v) :
    Orderly Open (step ns parent hop) h fun id h' => h'.Usable id := by
  unfold step
  refine orderly_bind (orderly_attributeVariable ho ns hop.name hp) ?_
  rintro id h₁ ho₁ ⟨v, hv⟩
  refine orderly_bind (orderly_variableAt ho₁ hv) ?_
  rintro w h₂ ho₂ ⟨rfl, rfl⟩
  split
  · exact orderly_throw ho₂ rfl
  · rename_i hd
    exact orderly_pure ho₂ ⟨w, hv, hd⟩

theorem orderly_members (ns : Namespace) : ∀ (hops : List Hop) {h : Heap} {id : VarId}, h.Open →
    h.Usable id → Orderly Open (hops.foldlM (fun id hop => step ns (some id) hop) id) h
      fun id h' => h'.Usable id
  | [], _, _, ho, hu => orderly_pure ho hu
  | hop :: rest, h, id, ho, hu => by
    obtain ⟨v, hv, _⟩ := hu
    rw [List.foldlM_cons]
    refine orderly_bind (orderly_step ho ns hop ?_) fun next h₁ ho₁ hnext =>
      orderly_members ns rest ho₁ hnext
    rintro _ ⟨⟩
    exact ⟨v, hv⟩

/-- Following a path is orderly, and leads to a variable that expressions may use. -/
theorem orderly_follow (ho : h.Open) (ns : Namespace) (root : Hop) (hops : List Hop) :
    Orderly Open (follow ns root hops) h fun id h' => h'.Usable id :=
  orderly_bind (orderly_step ho ns root fun _ hp => by cases hp) fun _ _ ho₁ hu =>
    orderly_members ns hops ho₁ hu

end Heap

end Formwork
