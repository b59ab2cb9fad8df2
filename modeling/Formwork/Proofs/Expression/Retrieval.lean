-- What a resolved expression is looked up by. Setup remembers the own name of the variable that it
-- ended at, and the heap is asked for that name. So an expression leads back to its variable if the
-- variable is registered under its own name. One that was added under another name instead is not:
-- its own name leads nowhere, or to a variable that was registered under it.
import Formwork.Proofs.Heap.Indexed

namespace Formwork

namespace Heap

variable {h : Heap} {ns : Namespace} {name : String}

/-! ## Own names -/

/-- Asks for a variable of the name that is to be found under another one. -/
def Request.Renames (ns : Namespace) (name : String) : Request → Prop
  | .add own space _ _ altName => space = ns ∧ own = name ∧ altName.getD own ≠ own
  | _ => False

/-- The variables of a name are registered under it, unless one was added under another name. -/
theorem CanonicalAt.after (hc : h.CanonicalAt ns name) {request : Request}
    (hkept : ¬ request.Renames ns name) : (h.after request).CanonicalAt ns name := by
  have houtcome := outcome_after h request
  generalize h.serves request = served, h.after request = h' at houtcome ⊢
  cases houtcome with
  | refused | present => exact hc
  | @add own _ _ _ altName _ hnew =>
    refine hc.withVariable hnew fun hns hname => ?_
    have hown : altName.getD own = own :=
      Decidable.byContradiction fun hother => hkept ⟨hns, hname, hother⟩
    exact hown.trans hname
  | stranded _ _ _ => exact hc.withChange _ fun v => bind_core v _
  | named _ _ _ => exact (hc.withChange _ fun v => bind_core v _).withName _ _ _
  | member _ _ hnew _ => exact hc.withVariable hnew fun _ hname => hname
  | refer owner _ _ => exact hc.withChange _ fun v => rfl
  | bind b _ _ => exact hc.withChange _ fun v => bind_core v b
  | freeze _ => exact hc

theorem CanonicalAt.requests (hc : h.CanonicalAt ns name) {requests : List Request}
    (hkept : ∀ request ∈ requests, ¬ request.Renames ns name) :
    (requests.foldl Heap.after h).CanonicalAt ns name := by
  induction requests generalizing h with
  | nil => exact hc
  | cons request rest ih =>
    rw [List.forall_mem_cons] at hkept
    exact ih (hc.after hkept.1) hkept.2

/-! ## Looking up expressions -/

/-- Both ways to look up an expression give the variable. -/
def Retrieves (h : Heap) (e : Expression) (id : VarId) : Prop :=
  ∃ v, h.find? id = some v ∧ h.byExpression? e = some v ∧ h.byExpression e = .ok v

variable {e : Expression}

theorem retrieves_of_lookup (hs : h.Sound) (htarget : e.target? = some name) {id : VarId}
    (hl : h.lookup e.ns name = some id) : h.Retrieves e id := by
  obtain ⟨v, hv, _⟩ := hs e.ns name id hl
  have hget : h.get? e.ns name = some v := by rw [get?, hl, Option.bind_some, hv]
  refine ⟨v, hv, ?_, ?_⟩
  · rw [byExpression?, htarget, Option.bind_some, hget]
  · simp only [byExpression, htarget, named, hget]

theorem byExpression_of_lookup_none (htarget : e.target? = some name)
    (hl : h.lookup e.ns name = none) : h.byExpression? e = none ∧ h.byExpression e =
      .error (.ofKind .name s!"Variable '{name}' not found in {h.name}.{e.ns.text}") := by
  have hget : h.get? e.ns name = none := by rw [get?, hl, Option.bind_none]
  constructor
  · rw [byExpression?, htarget, Option.bind_some, hget]
  · simp only [byExpression, htarget, named, hget]

end Heap

/-! ## The law -/

/-- A resolved expression leads back to its variable by the variable's own name. If no variable of
that name was added under another one, it leads there, whatever is asked for later. In general it
leads where the name leads, which never changes once the name is registered; a name that is not
registered is reported. -/
theorem resolved_expressions_lead_back_by_name (name : String) (maxSuggestions : Nat)
    (requests later : List Heap.Request) (owner : String) (e : Expression) (id : VarId)
    (hfound : (e.setup owner (requests.foldl Heap.after (.empty name maxSuggestions))).outcome =
      .ok (some id)) :
    let attempt := e.setup owner (requests.foldl Heap.after (.empty name maxSuggestions))
    let h := later.foldl Heap.after attempt.heap
    ∃ v, attempt.heap.find? id = some v ∧
      ((∀ request ∈ requests, ¬ request.Renames e.ns v.name) → h.Retrieves attempt.subject id) ∧
      (∀ found, attempt.heap.lookup e.ns v.name = some found →
        h.lookup e.ns v.name = some found) ∧
      (∀ found, h.lookup e.ns v.name = some found → h.Retrieves attempt.subject found) ∧
      (h.lookup e.ns v.name = none → h.byExpression? attempt.subject = none ∧
        h.byExpression attempt.subject =
          .error (.ofKind .name s!"Variable '{v.name}' not found in {h.name}.{e.ns.text}")) := by
  intro attempt h
  have hsound : (requests.foldl Heap.after (.empty name maxSuggestions)).Sound :=
    Heap.Edits.sound (Heap.edits_requests _ requests) (Heap.sound_empty name maxSuggestions)
  have huses := Expression.uses_setup owner e _ hsound
  obtain ⟨v, hv⟩ := Expression.setup_registered owner hsound hfound
  obtain ⟨w, hw, htarget⟩ := (Expression.setup_found owner e _ (some id) hfound).2 id rfl
  obtain rfl : w = v := Option.some.inj (hw.symm.trans hv.2)
  have hns : w.ns = e.ns := hv.ns (huses.sound hsound)
  have hsame : attempt.subject.ns = e.ns := Expression.ns_setup owner e _
  have hlater := Heap.edits_requests attempt.heap later
  have hnames := hlater.accrues.2.names e.ns w.name
  have hretrieves : ∀ found, h.lookup e.ns w.name = some found → h.Retrieves attempt.subject found :=
    fun found hl => Heap.retrieves_of_lookup (hlater.sound (huses.sound hsound)) htarget
      (hsame.symm ▸ hl)
  refine ⟨w, hv.2, fun hkept => hretrieves id (hnames id ?_), hnames, hretrieves, fun hl => ?_⟩
  · have hempty := Heap.canonical_iff.1 (Heap.canonical_empty name maxSuggestions) e.ns w.name
    exact (hempty.requests hkept).builds huses id w hv.2 hns rfl
  · rw [← hsame] at hl ⊢
    exact Heap.byExpression_of_lookup_none htarget hl

/-- The name of a company leads back, also when the heap is finished. -/
theorem resolved_expressions_lead_back_by_name_to_a_company :
    let attempt := (Expression.ofModels "company" ["name"]).setup "rule" Heap.sample
    attempt.outcome = .ok (some ⟨1⟩) ∧
      (attempt.heap.after .finish).Retrieves attempt.subject ⟨1⟩ := by
  intro attempt
  have hfound : attempt.outcome = .ok (some ⟨1⟩) := rfl
  obtain ⟨v, _, hback, _⟩ := resolved_expressions_lead_back_by_name "rules" 10
    [Heap.Request.company] [.finish] "rule" (Expression.ofModels "company" ["name"]) ⟨1⟩ hfound
  exact ⟨hfound, hback (by simp [Heap.Request.company, Heap.Request.Renames])⟩

/-- An employer is a company by its own name. The resolved path of the employer leads nowhere, or to
a company that was registered under that name. -/
theorem a_resolved_employer_does_not_lead_back :
    let e := Expression.ofModels "employer" []
    let alone := e.setup "rule" Heap.employed
    let beside := e.setup "rule" (Heap.employed.after Heap.Request.company)
    Heap.employed.Reachable ∧ alone.outcome = .ok (some ⟨0⟩) ∧
      ¬ alone.heap.Retrieves alone.subject ⟨0⟩ ∧
      beside.outcome = .ok (some ⟨0⟩) ∧ beside.heap.Retrieves beside.subject ⟨1⟩ ∧
      ¬ beside.heap.Retrieves beside.subject ⟨0⟩ := by
  intro e alone beside
  refine ⟨Heap.employed_reachable, rfl, ?_, rfl, ⟨_, rfl, rfl, rfl⟩, ?_⟩
  · rintro ⟨v, _, hv, _⟩
    cases hv
  · rintro ⟨v, hv, hcompany, _⟩
    cases hv
    cases hcompany

end Formwork
