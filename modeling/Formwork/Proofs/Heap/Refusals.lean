-- What a request that is refused leaves behind. Requests are refused before they change anything, but
-- for one: a second name binds its variable before it is seen to be taken, and the binding stays. So
-- a name that no binding explains can be explained by a request that fails.
import Formwork.Proofs.Heap.Reachable

namespace Formwork

namespace Heap

/-! ## Refusals -/

/-- A second name is asked for that is taken, and the variable is not bound to it yet. -/
structure Strands (h : Heap) (id : VarId) (name : String) (v : Variable) : Prop where
  unfinished : h.finished = false
  found : h.find? id = some v
  taken : (h.lookup v.ns name).isSome
  unbound : ⟨h.name, v.ns, name⟩ ∉ v.bound

variable {h : Heap} {id : VarId} {v : Variable} {name : String}

/-! ## Changes in place -/

/-- A change in place does as much as it does to the variable that is there. -/
theorem withChange_congr {f g : Variable → Variable} (hv : h.find? id = some v) (hfg : f v = g v) :
    h.withChange id f = h.withChange id g := by
  have harena : h.arena.modify id.index f = h.arena.modify id.index g := by
    refine Array.ext_getElem? fun i => ?_
    rw [Array.getElem?_modify, Array.getElem?_modify]
    split
    · rename_i hi
      subst hi
      rw [show h.arena[id.index]? = some v from hv, Option.map_some, Option.map_some, hfg]
    · rfl
  rw [withChange, withChange, harena]

theorem withChange_self (hv : h.find? id = some v) {f : Variable → Variable} (hf : f v = v) :
    h.withChange id f = h := by
  rw [withChange_congr (g := fun v => v) hv hf]
  have harena : h.arena.modify id.index (fun v => v) = h.arena := by
    refine Array.ext_getElem? fun i => ?_
    rw [Array.getElem?_modify]
    split <;> simp
  exact congrArg (fun arena => { h with arena }) harena

/-- A change that does something to the variable does something to the heap. -/
theorem withChange_ne (hv : h.find? id = some v) {f : Variable → Variable} (hf : f v ≠ v) :
    h.withChange id f ≠ h := by
  intro heq
  have hfind := find?_withChange h id id f
  rw [heq, if_pos rfl, hv] at hfind
  exact hf (Option.some.inj hfind).symm

theorem bind_of_not_mem {b : BoundVar} (hb : b ∉ v.bound) :
    v.bind b = { v with bound := v.bound ++ [b] } := by
  rw [Variable.bind, if_neg (by simpa using hb)]

theorem bind_of_mem {b : BoundVar} (hb : b ∈ v.bound) : v.bind b = v := by
  rw [Variable.bind, if_pos (by simpa using hb)]

/-! ## Second names -/

namespace Strands

/-- The request is refused, and the variable is bound to the name all the same. -/
theorem run (hs : h.Strands id name v) :
    ∃ e, (addAlias id name).run h =
      (.error e, h.withChange id fun v => { v with bound := v.bound ++ [⟨h.name, v.ns, name⟩] }) := by
  have hbind : h.withChange id (fun v => v.bind ⟨h.name, v.ns, name⟩) =
      h.withChange id fun v => { v with bound := v.bound ++ [⟨h.name, v.ns, name⟩] } :=
    withChange_congr hs.found (bind_of_not_mem hs.unbound)
  rw [run_addAlias hs.unfinished hs.found name, run_register, lookup_withChange, if_pos hs.taken,
    hbind]
  exact ⟨_, rfl⟩

theorem refused (hs : h.Strands id name v) : h.serves (.addAlias id name) = false := by
  obtain ⟨e, he⟩ := hs.run
  rw [serves, he]
  rfl

theorem after (hs : h.Strands id name v) :
    h.after (.addAlias id name) =
      h.withChange id fun v => { v with bound := v.bound ++ [⟨h.name, v.ns, name⟩] } := by
  obtain ⟨e, he⟩ := hs.run
  rw [Heap.after, he]

theorem after_ne (hs : h.Strands id name v) : h.after (.addAlias id name) ≠ h := by
  rw [hs.after]
  refine withChange_ne hs.found fun heq => ?_
  simpa using congrArg Variable.bound heq

end Strands

end Heap

/-! ## The law -/

/-- A request that is refused leaves no trace but a binding. The heap is what it was, unless a second
name was asked for that is taken and that the variable was not bound to. Then the variable is bound to
it, and nothing else is changed. -/
theorem refused_requests_leave_no_trace_but_a_binding (h : Heap) (request : Heap.Request)
    (hrefused : h.serves request = false) :
    (h.after request = h ↔ ¬ ∃ id name v, request = .addAlias id name ∧ h.Strands id name v) ∧
      ∀ id name v, request = .addAlias id name → h.Strands id name v →
        h.after request =
          h.withChange id fun v => { v with bound := v.bound ++ [⟨h.name, v.ns, name⟩] } := by
  refine ⟨⟨?_, fun hnot => ?_⟩, ?_⟩
  · rintro hsame ⟨id, name, v, rfl, hs⟩
    exact hs.after_ne hsame
  · have houtcome := Heap.outcome_after h request
    rw [hrefused] at houtcome
    generalize h.after request = h' at houtcome ⊢
    cases houtcome with
    | refused => rfl
    | @stranded id name v hopen hv htaken =>
      by_cases hbound : ⟨h.name, v.ns, name⟩ ∈ v.bound
      · exact Heap.withChange_self hv (Heap.bind_of_mem hbound)
      · exact absurd ⟨id, name, v, rfl, hopen, hv, htaken, hbound⟩ hnot
  · rintro id name v rfl hs
    exact hs.after

/-- Another variable under the name of the employer is refused without a trace. -/
theorem refused_requests_leave_no_trace_but_a_binding_of_an_employer :
    let request : Heap.Request := .add "firm" .models .object none (some "employer")
    Heap.employed.serves request = false ∧ Heap.employed.after request = Heap.employed := by
  intro request
  have hrefused : Heap.employed.serves request = false := rfl
  refine ⟨hrefused, (refused_requests_leave_no_trace_but_a_binding _ _ hrefused).1.2 ?_⟩
  rintro ⟨_, _, _, hrequest, _⟩
  simp [request] at hrequest

/-- The name of the employer is refused as a second name, and explained by that. The heap could not be
finished before, and can be finished after it. -/
theorem a_refused_alias_leaves_a_binding :
    let request : Heap.Request := .addAlias ⟨0⟩ "employer"
    Heap.employed.Reachable ∧ Heap.employed.serves request = false ∧
      Heap.employed.after request ≠ Heap.employed ∧
      Heap.employed.serves .finish = false ∧
      (Heap.employed.after request).serves .finish = true := by
  intro request
  have hstrands : Heap.employed.Strands ⟨0⟩ "employer" (.fresh "company" .models .object) :=
    ⟨rfl, rfl, rfl, List.not_mem_nil⟩
  exact ⟨Heap.employed_reachable, hstrands.refused, hstrands.after_ne, rfl, rfl⟩

end Formwork
