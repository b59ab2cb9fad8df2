-- The index of a heap: the names that are registered in each namespace, the variables that they lead
-- to, and the count of the names. Whatever a heap is asked for, its names lead to variables and its
-- variables have names. Nothing that was registered goes away, what was handed out stays what it is,
-- and a finished heap stays as it is.
import Formwork.Proofs.Heap.Accruing

namespace Formwork

namespace Heap

variable {h h' : Heap}

/-! ## The index -/

/-- The number of names in all namespaces together. -/
def total (h : Heap) : Nat := (Namespace.all.flatMap h.namesOf).length

/-- Every name leads to a variable of its namespace, no name is there twice in one, every variable
has a name in its namespace, and the names are counted. -/
structure Indexed (h : Heap) : Prop where
  targets : h.Sound
  distinct : ∀ ns, (h.namesOf ns).Nodup
  named : ∀ id v, h.find? id = some v → ∃ name, h.lookup v.ns name = some id
  counted : h.size = h.total

/-- One name more in a single namespace is one more in all of them. -/
theorem total_of_namesOf {space : Namespace} {name : String}
    (hnames : ∀ ns, h'.namesOf ns = h.namesOf ns ++ if space = ns then [name] else []) :
    h'.total = h.total + 1 := by
  simp only [total, Namespace.all, List.flatMap_cons, List.flatMap_nil, hnames, List.length_append]
  cases space <;> simp <;> omega

/-- A name that is new in a namespace is not there twice. -/
theorem nodup_of_namesOf {space ns : Namespace} {name : String} (hold : (h.namesOf ns).Nodup)
    (hnew : h.lookup space name = none) :
    (h.namesOf ns ++ if space = ns then [name] else []).Nodup := by
  split
  · rename_i hns
    subst hns
    have hfree : name ∉ h.namesOf space := by
      rw [mem_namesOf_iff, hnew]
      exact Bool.false_ne_true
    exact List.nodup_append.2 ⟨hold, List.pairwise_singleton _ _, fun a ha b hb hab =>
      hfree (List.mem_singleton.1 hb ▸ hab ▸ ha)⟩
  · rwa [List.append_nil]

theorem indexed_empty (name : String) (maxSuggestions : Nat) :
    (empty name maxSuggestions).Indexed where
  targets := sound_empty name maxSuggestions
  distinct _ := List.Pairwise.nil
  named id v hv := by simp [find?, empty] at hv
  counted := rfl

/-! ## What every edit keeps -/

namespace Indexed

theorem withVariable (hi : h.Indexed) {v : Variable} {name : String}
    (hnew : h.lookup v.ns name = none) : (h.withVariable v name).Indexed where
  targets := hi.targets.withVariable v name
  distinct ns := by
    rw [namesOf_withVariable]
    exact nodup_of_namesOf (hi.distinct ns) hnew
  named id w hw := by
    rw [find?_withVariable] at hw
    split at hw
    · rename_i hlast
      cases hw
      cases id
      obtain rfl : _ = h.arena.size := hlast
      exact ⟨name, by rw [lookup_withVariable, hnew, if_pos rfl, Option.none_or]⟩
    · obtain ⟨other, hl⟩ := hi.named id w hw
      exact ⟨other, by rw [lookup_withVariable, hl, Option.some_or]⟩
  counted := by
    rw [total_of_namesOf (namesOf_withVariable h v name), ← hi.counted]
    rfl

theorem withName (hi : h.Indexed) {id : VarId} {v : Variable} {name : String}
    (hv : h.find? id = some v) (hnew : h.lookup v.ns name = none) :
    (h.withName v.ns name id).Indexed where
  targets := hi.targets.withName hv name
  distinct ns := by
    rw [namesOf_withName]
    exact nodup_of_namesOf (hi.distinct ns) hnew
  named other w hw := by
    obtain ⟨old, hl⟩ := hi.named other w hw
    exact ⟨old, by rw [lookup_withName, hl, Option.some_or]⟩
  counted := by
    rw [total_of_namesOf fun ns => namesOf_withName h v.ns ns name id, ← hi.counted]
    rfl

theorem withChange (hi : h.Indexed) (id : VarId) {f : Variable → Variable}
    (hf : ∀ v, (f v).ns = v.ns) : (h.withChange id f).Indexed where
  targets := hi.targets.withChange id hf
  distinct := hi.distinct
  named other w hw := by
    rw [find?_withChange] at hw
    split at hw
    · rcases hv : h.find? other with _ | v <;> rw [hv] at hw <;> cases hw
      rw [hf]
      exact hi.named other v hv
    · exact hi.named other w hw
  counted := hi.counted

theorem edit (hi : h.Indexed) (he : Edit h h') : h'.Indexed := by
  cases he with
  | add _ hnew => exact hi.withVariable hnew
  | named _ hv hnew => exact hi.withName hv hnew
  | refer id owner _ => exact hi.withChange id fun v => rfl
  | bind id b _ => exact hi.withChange id fun v => bind_ns v (b v)
  | freeze _ => exact ⟨hi.targets, hi.distinct, hi.named, hi.counted⟩

theorem edits (hi : h.Indexed) (he : Edits h h') : h'.Indexed := by
  induction he with
  | refl => exact hi
  | tail _ hedit ih => exact ih.edit hedit

end Indexed

/-- Names come at the end, and nothing that is there is lost. -/
theorem Edit.accrues (he : Edit h h') : h.names <+: h'.names ∧ Accrues h h' := by
  cases he with
  | add _ _ => exact ⟨List.prefix_append _ _, .withVariable h _ _⟩
  | @named _ v name _ _ _ =>
    exact ⟨List.prefix_append _ _, rfl, (Keeps.withName h _ name _).names,
      fun _ v hv => ⟨v, hv, rfl, fun _ hm => hm, fun _ hm => hm⟩⟩
  | refer id owner _ => exact ⟨List.prefix_refl _, refer_accrues h id owner⟩
  | bind id b _ => exact ⟨List.prefix_refl _, bind_accrues h id b⟩
  | freeze _ => exact ⟨List.prefix_refl _, .frozen h⟩

theorem Edits.accrues (he : Edits h h') : h.names <+: h'.names ∧ Accrues h h' := by
  induction he with
  | refl => exact ⟨List.prefix_refl _, .refl h⟩
  | tail _ hedit ih =>
    exact ⟨ih.1.trans hedit.accrues.1, ih.2.trans hedit.accrues.2⟩

/-- A finished heap has no edits. -/
theorem Edits.eq_of_finished (he : Edits h h') (hf : h.finished = true) : h' = h := by
  induction he with
  | refl => rfl
  | tail _ hedit ih =>
    subst ih
    cases hedit <;> simp_all

/-! ## What requests hand out -/

/-- The variable that a request hands out, if it does. -/
def handsOut (h : Heap) : Request → Option VarId
  | .add name ns data denied altName =>
    ((add { Variable.fresh name ns data with denied } altName).run h).1.toOption
  | .member ns name parent => ((attributeVariable ns name parent).run h).1.toOption
  | _ => none

theorem attributeVariable_registered {ns : Namespace} {name : String} {parent : Option VarId}
    {id : VarId} (hr : (attributeVariable ns name parent).run h = (.ok id, h')) :
    ∃ full, h'.lookup ns full = some id := by
  have hstep := attributeVariable_ok hr
  rcases parent with _ | parent
  · rcases run_rootVariable ns name h with ⟨found, hl, hroot⟩ | ⟨_, e, hroot, _⟩ <;>
      rw [hroot] at hstep <;> cases hstep
    exact ⟨name, hl⟩
  · rcases hv : h.find? parent with _ | v
    · obtain ⟨e, he⟩ := run_memberVariable_of_none ns name hv
      rw [he] at hstep
      cases hstep
    · exact ⟨_, memberVariable_ok hv hstep⟩

/-- What is handed out is a variable of the heap. -/
theorem find?_of_handsOut (hs : h.Sound) {request : Request} {id : VarId}
    (hout : h.handsOut request = some id) : ∃ v, (h.after request).find? id = some v := by
  have hafter := Edits.sound (edits_after h request) hs
  cases request with
  | add name ns data denied altName =>
    rcases add_cases { Variable.fresh name ns data with denied } altName h with
      ⟨e, he⟩ | ⟨_, _, he⟩ <;> rw [handsOut, he] at hout <;> cases hout
    rw [after, he]
    exact ⟨_, (add_found he).2⟩
  | member ns name parent =>
    rw [after] at hafter ⊢
    rw [handsOut] at hout
    rcases hr : (attributeVariable ns name parent).run h with ⟨e | other, h'⟩ <;>
      rw [hr] at hout hafter <;> cases hout
    obtain ⟨full, hl⟩ := attributeVariable_registered hr
    obtain ⟨v, hv, _⟩ := hafter ns full id hl
    exact ⟨v, hv⟩
  | _ => cases hout

end Heap

/-! ## The law -/

/-- What a heap registers stays registered. However a heap came about, its names lead to variables
of their namespaces, none is there twice in a namespace, each variable has a name, and the names are
counted. Whatever is asked for later, the names stay where they are and lead to the same variables,
and these keep their names, namespaces, data and denials; what a request hands out is a variable,
the same one ever after. Once the heap is finished, nothing changes it any more. -/
theorem registrations_stay (name : String) (maxSuggestions : Nat)
    (requests later : List Heap.Request) :
    let h := requests.foldl Heap.after (.empty name maxSuggestions)
    let h' := later.foldl Heap.after h
    h.Indexed ∧ h.names <+: h'.names ∧ h.Accrues h' ∧
      (∀ request id, h.handsOut request = some id → ∃ v w, (h.after request).find? id = some v ∧
        (later.foldl Heap.after (h.after request)).find? id = some w ∧ w.core = v.core) ∧
      ((Heap.finish.run h).1 = .ok () →
        later.foldl Heap.after (h.after .finish) = h.after .finish) := by
  intro h h'
  have hmade : Heap.Edits (.empty name maxSuggestions) h := Heap.edits_requests _ requests
  have hlater := Heap.Edits.accrues (Heap.edits_requests h later)
  have hindexed : h.Indexed := (Heap.indexed_empty name maxSuggestions).edits hmade
  refine ⟨hindexed, hlater.1, hlater.2, fun request id hout => ?_, fun hfinish => ?_⟩
  · obtain ⟨v, hv⟩ := Heap.find?_of_handsOut hindexed.targets hout
    obtain ⟨w, hw, hcore, _⟩ :=
      (Heap.Edits.accrues (Heap.edits_requests (h.after request) later)).2.kept id v hv
    exact ⟨v, w, hv, hw, hcore⟩
  · refine Heap.Edits.eq_of_finished (Heap.edits_requests _ later) ?_
    rcases Heap.finish_cases h with ⟨e, he⟩ | ⟨_, he⟩
    · rw [he] at hfinish
      cases hfinish
    · rw [Heap.after, he]

end Formwork
