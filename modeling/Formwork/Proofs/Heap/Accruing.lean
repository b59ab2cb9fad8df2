-- What a heap never loses while it is built up: its name, where names lead, who refers to a
-- variable and what the variable is bound to. Every variable is found under its own name.
import Formwork.Proofs.Heap.Uses

namespace Formwork.Heap

variable {mine : Namespace → Prop} {h h' h'' : Heap}

/-! ## Only more -/

/-- The heap `h'` has what `h` has: variables are referred to and bound more often at most. -/
structure Accrues (h h' : Heap) : Prop where
  name : h'.name = h.name
  names : ∀ ns name id, h.lookup ns name = some id → h'.lookup ns name = some id
  kept : ∀ id v, h.find? id = some v → ∃ w, h'.find? id = some w ∧ w.core = v.core ∧
    v.references ⊆ w.references ∧ v.bound ⊆ w.bound

theorem Accrues.refl (h : Heap) : Accrues h h :=
  ⟨rfl, fun _ _ _ hl => hl, fun _ v hv => ⟨v, hv, rfl, fun _ hm => hm, fun _ hm => hm⟩⟩

theorem Accrues.trans (ha : Accrues h h') (ha' : Accrues h' h'') : Accrues h h'' := by
  refine ⟨ha'.name.trans ha.name,
    fun ns name id hl => ha'.names ns name id (ha.names ns name id hl),
    fun id v hv => ?_⟩
  obtain ⟨w, hw, hcore, hrefs, hbound⟩ := ha.kept id v hv
  obtain ⟨u, hu, hcore', hrefs', hbound'⟩ := ha'.kept id w hw
  exact ⟨u, hu, hcore'.trans hcore, fun _ hm => hrefs' (hrefs hm), fun _ hm => hbound' (hbound hm)⟩

theorem Accrues.withChange (h : Heap) (id : VarId) {f : Variable → Variable}
    (hf : ∀ v, (f v).core = v.core ∧ v.references ⊆ (f v).references ∧ v.bound ⊆ (f v).bound) :
    Accrues h (h.withChange id f) := by
  refine ⟨rfl, fun _ _ _ hl => hl, fun other v hv => ?_⟩
  rw [find?_withChange, hv]
  split
  · exact ⟨f v, rfl, hf v⟩
  · exact ⟨v, rfl, rfl, fun _ hm => hm, fun _ hm => hm⟩

/-- Freezing a heap changes nothing else. -/
theorem Accrues.frozen (h : Heap) : Accrues h { h with finished := true } :=
  ⟨rfl, fun _ _ _ hl => hl, fun _ v hv => ⟨v, hv, rfl, fun _ hm => hm, fun _ hm => hm⟩⟩

theorem Accrues.withVariable (h : Heap) (v : Variable) (name : String) :
    Accrues h (h.withVariable v name) :=
  ⟨rfl, (Keeps.withVariable h v name).names, fun _ w hw =>
    ⟨w, find?_withVariable_of_some v name hw, rfl, fun _ hm => hm, fun _ hm => hm⟩⟩

theorem refer_accrues (h : Heap) (id : VarId) (owner : String) :
    Accrues h (h.withChange id fun v => v.refer owner) :=
  .withChange h id fun _ => ⟨rfl, List.subset_append_left _ _, fun _ hm => hm⟩

theorem bound_subset_bind (v : Variable) (b : BoundVar) : v.bound ⊆ (v.bind b).bound := by
  unfold Variable.bind
  split
  · exact fun _ hm => hm
  · exact List.subset_append_left _ _

/-- What a variable is bound to is among what it is bound to. -/
theorem mem_bound_bind (v : Variable) (b : BoundVar) : b ∈ (v.bind b).bound := by
  unfold Variable.bind
  split
  · rename_i hb
    exact List.contains_iff_mem.1 hb
  · simp

theorem bind_accrues (h : Heap) (id : VarId) (b : Variable → BoundVar) :
    Accrues h (h.withChange id fun v => v.bind (b v)) :=
  .withChange h id fun v => ⟨bind_core v (b v), by rw [bind_references]; exact fun _ hm => hm,
    bound_subset_bind v (b v)⟩

theorem BuildStep.accrues (hb : BuildStep mine h h') : Accrues h h' := by
  cases hb with
  | member _ _ _ => exact .withVariable h _ _
  | refer owner _ _ => exact refer_accrues h _ owner
  | bind id b => exact bind_accrues h id b
  | add _ _ _ => exact .withVariable h _ _
  | named name _ _ =>
    exact ⟨rfl, (Keeps.withName h _ name _).names,
      fun _ v hv => ⟨v, hv, rfl, fun _ hm => hm, fun _ hm => hm⟩⟩

theorem Builds.accrues (hb : Builds mine h h') : Accrues h h' := by
  induction hb with
  | refl => exact .refl h
  | step _ hs ih => exact ih.trans hs.accrues

/-! ## Own names -/

/-- The variables of a name are registered under it. -/
def CanonicalAt (h : Heap) (ns : Namespace) (name : String) : Prop :=
  ∀ id v, h.find? id = some v → v.ns = ns → v.name = name → h.lookup ns name = some id

/-- Every variable is registered under its own name. -/
def Canonical (h : Heap) : Prop := ∀ id v, h.find? id = some v → h.lookup v.ns v.name = some id

theorem canonical_iff : h.Canonical ↔ ∀ ns name, h.CanonicalAt ns name :=
  ⟨fun hc _ _ id v hv hns hname => hns ▸ hname ▸ hc id v hv,
    fun hc id v hv => hc v.ns v.name id v hv rfl rfl⟩

theorem canonical_empty (name : String) (maxSuggestions : Nat) :
    (empty name maxSuggestions).Canonical := by
  intro id v hv
  simp [find?, empty] at hv

namespace CanonicalAt

variable {ns : Namespace} {name : String}

/-- A variable of the name has to be added under it. -/
theorem withVariable (hc : h.CanonicalAt ns name) {v : Variable} {under : String}
    (hnew : h.lookup v.ns under = none) (hunder : v.ns = ns → v.name = name → under = name) :
    (h.withVariable v under).CanonicalAt ns name := by
  intro id w hw hns hname
  rw [find?_withVariable] at hw
  rw [lookup_withVariable]
  split at hw
  · rename_i hi
    cases hw
    cases id
    obtain rfl : _ = h.arena.size := hi
    obtain rfl := hunder hns hname
    subst hns
    rw [hnew, if_pos rfl, Option.none_or]
  · rw [hc id w hw hns hname, Option.some_or]

theorem withName (hc : h.CanonicalAt ns name) (space : Namespace) (other : String) (id : VarId) :
    (h.withName space other id).CanonicalAt ns name := fun found v hv hns hname =>
  (Keeps.withName h space other id).names _ _ _ (hc found v hv hns hname)

theorem withChange (hc : h.CanonicalAt ns name) (id : VarId) {f : Variable → Variable}
    (hf : ∀ v, (f v).core = v.core) : (h.withChange id f).CanonicalAt ns name := by
  intro other w hw hns hname
  rw [find?_withChange] at hw
  rw [lookup_withChange]
  split at hw
  · rcases hv : h.find? other with _ | v <;> rw [hv] at hw <;> cases hw
    rw [ns_of_core (hf v)] at hns
    rw [(Variable.eq_of_core (hf v)).1] at hname
    exact hc other v hv hns hname
  · exact hc other w hw hns hname

theorem step (hc : h.CanonicalAt ns name) (hb : BuildStep mine h h') : h'.CanonicalAt ns name := by
  cases hb with
  | member _ hl _ => exact hc.withVariable hl fun _ hname => hname
  | refer owner _ _ => exact hc.withChange _ fun v => rfl
  | bind id b => exact hc.withChange id fun v => bind_core v (b v)
  | add _ hl _ => exact hc.withVariable hl fun _ hname => hname
  | named other _ _ => exact hc.withName _ other _

theorem builds (hc : h.CanonicalAt ns name) (hb : Builds mine h h') : h'.CanonicalAt ns name := by
  induction hb with
  | refl => exact hc
  | step _ hs ih => exact ih.step hs

end CanonicalAt

theorem Canonical.builds (hc : h.Canonical) (hb : Builds mine h h') : h'.Canonical :=
  canonical_iff.2 fun ns name => (canonical_iff.1 hc ns name).builds hb

end Formwork.Heap

/-! ## What an expression leads to -/

namespace Formwork

/-- Setup does not change the namespace of an expression. -/
theorem Expression.ns_setup (owner : String) (e : Expression) (h : Heap) :
    (e.setup owner h).subject.ns = e.ns := by
  have hns : ∀ d : Expression, d.reset.ns = d.ns := fun d => by cases d <;> rfl
  rw [← hns, Expression.reset_setup, hns]

/-- The variable that setup finds is registered in the namespace of the expression. The owner refers
to it, and the resolved expression leads to it. -/
theorem Expression.setup_refers {owner : String} {e : Expression} {h : Heap} {id : VarId}
    (hs : h.Sound) (hc : h.Canonical) (ho : (e.setup owner h).outcome = .ok (some id)) :
    ∃ v, (e.setup owner h).heap.Registered e.ns id v ∧ owner ∈ v.references ∧
      (e.setup owner h).heap.byExpression (e.setup owner h).subject = .ok v := by
  obtain ⟨v, hv⟩ := Expression.setup_registered owner hs ho
  obtain ⟨hiff, hfound⟩ := Expression.setup_found owner e h (some id) ho
  obtain ⟨w, hw, htarget⟩ := hfound id rfl
  obtain rfl : w = v := Option.some.inj (hw.symm.trans hv.2)
  have huses := Expression.uses_setup owner e h hs
  refine ⟨w, hv, ?_, ?_⟩
  · obtain ⟨ns, root, hops, state, rfl⟩ := (hiff.1 rfl).1
    obtain rfl : state = .pending := Expression.pending_of_setup_ok owner ho
    obtain ⟨_, h₁, _, ⟨found, u, _, hu, _, hsetup⟩ | ⟨_, hunresolved⟩⟩ :=
      Expression.setup_path_heap owner ns root hops hs
    · rw [hsetup] at ho hw
      cases ho
      rw [Heap.find?_withChange, if_pos rfl, hu] at hw
      cases hw
      simp [Variable.refer]
    · rw [(hiff.1 rfl).2] at hunresolved
      cases hunresolved
  · have hlookup := hc.builds huses id w hv.2
    rw [hv.ns (huses.sound hs)] at hlookup
    simp only [Heap.byExpression, htarget, Heap.named, Expression.ns_setup, Heap.get?, hlookup,
      Option.bind_some, hv.2]

end Formwork
