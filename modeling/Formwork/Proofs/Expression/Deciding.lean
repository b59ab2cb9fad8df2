-- Which leaf decides. The first leaf that does not resolve gives its state to everything around it.
-- What stands to its left is resolved, and what stands to its right is left alone.
import Formwork.Proofs.Expression.Leaves

namespace Formwork

variable (owner : String)

/-! ## The leaf that decides -/

/-- Leaf `k` is the first that does not resolve, and its state `s` is that of all nodes around it;
`n` leaves stand to the left of the nodes and leaves that this is about. -/
structure Blocked (n : Nat) (nodes : List Extent) (leaves : List Leaf) (s : Resolution Unit)
    (k : Nat) : Prop where
  failed : s.isFailed
  before : ∀ i < k, ∀ leaf, leaves[i]? = some leaf → leaf.state.isResolved
  deciding : ∃ leaf, leaves[k]? = some leaf ∧ leaf.state.forget = s
  left : ∀ node ∈ nodes, node.last ≤ n + k → node.state = .resolved ()
  around : ∀ node ∈ nodes, node.first ≤ n + k → n + k < node.last → node.state = s
  right : ∀ node ∈ nodes, n + k < node.first → node.state = .pending

/-- Either all leaves and nodes are resolved, or the first leaf that is not decides. -/
def Decided (n : Nat) (nodes : List Extent) (leaves : List Leaf) (s : Resolution Unit) : Prop :=
  (s = .resolved () ∧ (∀ leaf ∈ leaves, leaf.state.isResolved) ∧
    ∀ node ∈ nodes, node.state = .resolved ()) ∨
  ∃ k, Blocked n nodes leaves s k

namespace Decided

variable {n : Nat} {nodes more : List Extent} {leaves others : List Leaf} {s : Resolution Unit}

/-- A node around all the leaves takes the state that they decide. -/
theorem enclose (h : Decided n nodes leaves s) :
    Decided n (⟨n, n + leaves.length, s⟩ :: nodes) leaves s := by
  rcases h with ⟨hs, hleaves, hnodes⟩ | ⟨k, h⟩
  · refine .inl ⟨hs, hleaves, fun node hn => ?_⟩
    rcases List.mem_cons.1 hn with rfl | hn
    · exact hs
    · exact hnodes node hn
  · obtain ⟨leaf, hk, _⟩ := h.deciding
    have hlt : k < leaves.length := (List.getElem?_eq_some_iff.1 hk).1
    refine .inr ⟨k, h.failed, h.before, h.deciding, ?_, ?_, ?_⟩
    · intro node hn hle
      rcases List.mem_cons.1 hn with rfl | hn
      · simp only at hle
        omega
      · exact h.left node hn hle
    · intro node hn hle hlt'
      rcases List.mem_cons.1 hn with rfl | hn
      · rfl
      · exact h.around node hn hle hlt'
    · intro node hn hlt'
      rcases List.mem_cons.1 hn with rfl | hn
      · simp only at hlt'
        omega
      · exact h.right node hn hlt'

/-- When all leaves on the left are resolved, those on the right decide. -/
theorem after_resolved (hleaves : ∀ leaf ∈ leaves, leaf.state.isResolved)
    (hnodes : ∀ node ∈ nodes, node.state = .resolved ())
    (hin : ∀ node ∈ nodes, node.first ≤ node.last ∧ node.last ≤ n + leaves.length)
    (h : Decided (n + leaves.length) more others s) :
    Decided n (nodes ++ more) (leaves ++ others) s := by
  rcases h with ⟨hs, hothers, hmore⟩ | ⟨k, h⟩
  · refine .inl ⟨hs, fun leaf hl => ?_, fun node hn => ?_⟩
    · exact (List.mem_append.1 hl).elim (hleaves leaf) (hothers leaf)
    · exact (List.mem_append.1 hn).elim (hnodes node) (hmore node)
  · refine .inr ⟨leaves.length + k, h.failed, ?_, ?_, ?_, ?_, ?_⟩
    · intro i hi leaf hl
      rcases Nat.lt_or_ge i leaves.length with hlt | hge
      · rw [List.getElem?_append_left hlt] at hl
        exact hleaves leaf (List.mem_of_getElem? hl)
      · rw [List.getElem?_append_right hge] at hl
        exact h.before (i - leaves.length) (by omega) leaf hl
    · obtain ⟨leaf, hk, hs⟩ := h.deciding
      refine ⟨leaf, ?_, hs⟩
      rw [List.getElem?_append_right (by omega), Nat.add_sub_cancel_left]
      exact hk
    · intro node hn hle
      rcases List.mem_append.1 hn with hn | hn
      · exact hnodes node hn
      · exact h.left node hn (by omega)
    · intro node hn hle hlt
      rcases List.mem_append.1 hn with hn | hn
      · have := hin node hn
        omega
      · exact h.around node hn (by omega) (by omega)
    · intro node hn hlt
      rcases List.mem_append.1 hn with hn | hn
      · have := hin node hn
        omega
      · exact h.right node hn (by omega)

end Decided

/-- What stands to the right of a leaf that decides is left alone. -/
theorem Blocked.before_pending {n k : Nat} {nodes more : List Extent} {leaves others : List Leaf}
    {s : Resolution Unit} (h : Blocked n nodes leaves s k)
    (hin : ∀ node ∈ more, n + leaves.length ≤ node.first ∧ node.first ≤ node.last)
    (hmore : ∀ node ∈ more, node.state = .pending) :
    Blocked n (nodes ++ more) (leaves ++ others) s k := by
  obtain ⟨leaf, hk, hs⟩ := h.deciding
  have hlt : k < leaves.length := (List.getElem?_eq_some_iff.1 hk).1
  refine ⟨h.failed, ?_, ⟨leaf, ?_, hs⟩, ?_, ?_, ?_⟩
  · intro i hi leaf hl
    rw [List.getElem?_append_left (by omega)] at hl
    exact h.before i hi leaf hl
  · rw [List.getElem?_append_left hlt]
    exact hk
  · intro node hn hle
    rcases List.mem_append.1 hn with hn | hn
    · exact h.left node hn hle
    · have := hin node hn
      omega
  · intro node hn hle hlt'
    rcases List.mem_append.1 hn with hn | hn
    · exact h.around node hn hle hlt'
    · have := hin node hn
      omega
  · intro node hn hlt'
    rcases List.mem_append.1 hn with hn | hn
    · exact h.right node hn hlt'
    · exact hmore node hn

/-- A path that was set up is a leaf that is resolved or decides. -/
theorem decided_path (n : Nat) (ns : Namespace) (root : Hop) (hops : List Hop)
    (state : Resolution Access) (h : state.isResolved ∨ state.isFailed) :
    Decided n ((Expression.path ns root hops state).nodes n)
      (Expression.path ns root hops state).leaves state.forget := by
  rcases h with h | h
  · refine .inl ⟨(Resolution.forget_eq_resolved state).2 h, ?_, ?_⟩
    · simpa [Expression.leaves] using h
    · simpa [Expression.nodes] using h
  · refine .inr ⟨0, by simpa using h, ?_, ⟨⟨ns, root, hops, state⟩, rfl, rfl⟩, ?_, ?_, ?_⟩
    · intro i hi
      omega
    · intro node hn hle
      simp only [Expression.nodes, List.mem_singleton] at hn
      subst hn
      simp only at hle
      omega
    · intro node hn _ _
      simp only [Expression.nodes, List.mem_singleton] at hn
      subst hn
      rfl
    · intro node hn hlt
      simp only [Expression.nodes, List.mem_singleton] at hn
      subst hn
      simp only at hlt
      omega

/-- Setup of a path that ends without an error leaves it resolved or failed. -/
theorem Expression.setup_path_settled {ns : Namespace} {root : Hop} {hops : List Hop} {heap : Heap}
    {found : Option VarId}
    (h : ((Expression.path ns root hops .pending).setup owner heap).outcome = .ok found) :
    ∃ state, ((Expression.path ns root hops .pending).setup owner heap).subject =
      .path ns root hops state ∧ (state.isResolved ∨ state.isFailed) := by
  rcases Expression.setup_path_cases owner ns root hops heap with
    ⟨_, _, _, _, _, _, hs⟩ | ⟨_, _, _, _, _, _, hs⟩ | ⟨_, _, state, _, hsoft, hs⟩ | ⟨_, _, _, _, hs⟩
  · exact ⟨_, by rw [hs], .inl rfl⟩
  · simp [hs] at h
  · exact ⟨state, by rw [hs], .inr (Error.softState?_failed hsoft).1⟩
  · simp [hs] at h

mutual

/-- Setup without an error of an expression that nothing was set up of. -/
theorem Expression.decided (n : Nat) : ∀ (e : Expression) (heap : Heap) (found : Option VarId),
    e.Fresh → (e.setup owner heap).outcome = .ok found →
    Decided n ((e.setup owner heap).subject.nodes n) (e.setup owner heap).subject.leaves
      (e.setup owner heap).subject.state.forget
  | .path ns root hops state, heap, found, hf, h => by
    obtain rfl := Expression.fresh_path hf
    obtain ⟨state', hs, hsettled⟩ := Expression.setup_path_settled owner h
    rw [hs]
    exact decided_path n ns root hops state' hsettled
  | .computed operation hops state, heap, found, hf, h => by
    obtain ⟨hop, rfl⟩ := Expression.fresh_computed hf
    rw [Expression.setup_computed] at h ⊢
    rcases ho : (operation.setup owner heap).outcome with e | s
    · simp [ho] at h
    · have ih := (Operation.decided n operation heap s hop ho).2
      simpa [ho, Expression.nodes, Expression.leaves, Expression.state] using ih.enclose

/-- Setup without an error of an operation: its state is the outcome. -/
theorem Operation.decided (n : Nat) :
    ∀ (operation : Operation) (heap : Heap) (s : Resolution Unit),
    operation.Fresh → (operation.setup owner heap).outcome = .ok s →
    (operation.setup owner heap).subject.state = s ∧
      Decided n ((operation.setup owner heap).subject.nodes n)
        (operation.setup owner heap).subject.leaves s
  | .negation operand state, heap, s, hf, h => by
    obtain ⟨hoperand, rfl⟩ := Operation.fresh_negation hf
    rw [Operation.setup_negation] at h ⊢
    rcases ho : (operand.setup owner heap).outcome with e | s'
    · simp [ho] at h
    · simp only [ho, Except.ok.injEq] at h ⊢
      subst h
      exact ⟨rfl, (Operand.decided n operand heap s' hoperand ho).enclose⟩
  | .binary op left right state, heap, s, hf, h => by
    obtain ⟨hfl, hfr, rfl⟩ := Operation.fresh_binary hf
    rw [Operation.setup_binary] at h ⊢
    rcases hl : (left.setup owner heap).outcome with e | sl
    · simp [hl] at h
    have ihl := Operand.decided n left heap sl hfl hl
    rcases ihl with ⟨rfl, hleaves, hnodes⟩ | ⟨k, hblocked⟩
    · simp only [hl] at h ⊢
      rcases hr : (right.setup owner (left.setup owner heap).heap).outcome with e | sr
      · simp [hr] at h
      · simp only [hr, Except.ok.injEq] at h
        subst h
        have ihr := Operand.decided (n + (left.setup owner heap).subject.leaves.length) right
          (left.setup owner heap).heap sr hfr hr
        have hin := Operand.nodes_within n (left.setup owner heap).subject
        exact ⟨rfl, (Decided.after_resolved hleaves hnodes (fun node hn => (hin node hn).2)
          ihr).enclose⟩
    · have hne : ∀ u, sl ≠ .resolved u := by
        rintro u rfl
        cases hblocked.failed
      have hpending := Operand.nodes_reset (n + (left.setup owner heap).subject.leaves.length) right
      rw [hfr] at hpending
      have hright := Operand.nodes_within (n + (left.setup owner heap).subject.leaves.length) right
      have hall : Blocked n _ (_ ++ right.leaves) sl k := hblocked.before_pending
        (fun node hn => ⟨(hright node hn).1, (hright node hn).2.1⟩) hpending
      cases sl with
      | resolved u => exact absurd rfl (hne u)
      | _ =>
        simp only [hl, Except.ok.injEq] at h ⊢
        subst h
        exact ⟨rfl, Decided.enclose (.inr ⟨k, hall⟩)⟩

/-- Setup without an error of an operand. -/
theorem Operand.decided (n : Nat) : ∀ (operand : Operand) (heap : Heap) (s : Resolution Unit),
    operand.Fresh → (operand.setup owner heap).outcome = .ok s →
    Decided n ((operand.setup owner heap).subject.nodes n)
      (operand.setup owner heap).subject.leaves s
  | .expression e, heap, s, hf, h => by
    rw [Operand.setup_expression] at h ⊢
    rcases ho : (e.setup owner heap).outcome with error | found
    · simp [ho, Except.map] at h
    · simp only [ho, Except.map, Except.ok.injEq] at h
      subst h
      exact Expression.decided n e heap found (Operand.fresh_expression hf) ho
  | .literal v, heap, s, _, h => by
    rw [Operand.setup_literal] at h ⊢
    simp only [Except.ok.injEq] at h
    subst h
    exact .inl ⟨rfl, by simp [Operand.leaves], by simp [Operand.nodes]⟩

end

/-! ## The law -/

/-- The leftmost leaf that does not resolve decides the whole expression. Setup without an error of
an expression that was never set up tries the leaves from left to right, each on the heap that the
one before leaves behind. If all of them resolve, every node is resolved. Otherwise the nodes to the
left of the first that does not are resolved, those around it have its state with its reason, and
those to its right were never tried. A variable is found for a path that is resolved and for nothing
else, and the path remembers its name. -/
theorem the_leftmost_failing_leaf_decides (e : Expression) (heap : Heap) (found : Option VarId)
    (hfresh : e.Fresh) (hok : (e.setup owner heap).outcome = .ok found) :
    let e' := (e.setup owner heap).subject
    e'.reset = e ∧
      e'.leaves = (Leaf.settleAll owner e.leaves heap).subject ∧
      Decided 0 (e'.nodes 0) e'.leaves e'.state.forget ∧
      (found.isSome ↔
        (∃ ns root hops state, e = .path ns root hops state) ∧ e'.state.isResolved) ∧
      ∀ id, found = some id →
        ∃ v, (e.setup owner heap).heap.find? id = some v ∧ e'.target? = some v.name := by
  have hkept := Expression.reset_setup owner e heap
  have hrun := Expression.setup_eq_settleAll owner e heap hfresh
  have hdecided := Expression.decided owner 0 e heap found hfresh hok
  obtain ⟨hiff, htarget⟩ := Expression.setup_found owner e heap found hok
  exact ⟨by rw [hkept, hfresh], by rw [hrun], hdecided, hiff, htarget⟩

/-- In `(1 + Models.company.name) and (This.x and Models.company)` the second leaf decides: names of
the current record have no variable. -/
theorem the_leftmost_failing_leaf_decides_in_a_conjunction :
    let sum : Expression := .computed (.binary .add (.literal (.integer 1))
      (.expression (.path .models ⟨"company", none⟩ [⟨"name", none⟩] .pending)) .pending) []
      .pending
    let rest : Expression := .computed (.binary .and
      (.expression (.path .this ⟨"x", none⟩ [] .pending))
      (.expression (.path .models ⟨"company", none⟩ [] .pending)) .pending) [] .pending
    let e : Expression := .computed (.binary .and (.expression sum) (.expression rest) .pending) []
      .pending
    let attempt := e.setup "rule" Heap.sample
    (e.Fresh ∧ attempt.outcome = .ok none) ∧ attempt.subject.reset = e ∧
      Decided 0 (attempt.subject.nodes 0) attempt.subject.leaves attempt.subject.state.forget ∧
      attempt.subject.state.status = "ErrUnsupported" := by
  intro sum rest e attempt
  have hfresh : e.Fresh := rfl
  have hok : attempt.outcome = .ok none := rfl
  obtain ⟨hreset, _, hdecided, _⟩ :=
    the_leftmost_failing_leaf_decides "rule" e Heap.sample none hfresh hok
  exact ⟨⟨hfresh, hok⟩, hreset, hdecided, rfl⟩

end Formwork
