-- The leaves of an expression: the paths that stand in it, from left to right. Setup of the whole
-- expression is a run over its leaves, which stops at the first that does not resolve.
import Formwork.Proofs.Expression.Setup

namespace Formwork

/-! ## Leaves and nodes -/

/-- A path of attributes that stands somewhere in an expression. -/
structure Leaf where
  ns : Namespace
  root : Hop
  hops : List Hop
  state : Resolution Access

namespace Leaf

/-- The leaf as an expression of its own. -/
def expression (leaf : Leaf) : Expression := .path leaf.ns leaf.root leaf.hops leaf.state

/-- Resolves the leaf by itself. The outcome is its new state. -/
def settle (owner : String) (leaf : Leaf) (heap : Heap) : Attempt Leaf (Resolution Unit) :=
  let attempt := leaf.expression.setup owner heap
  ⟨attempt.outcome.map fun _ => attempt.subject.state.forget,
    { leaf with state := attempt.subject.state }, attempt.heap⟩

/-- Resolves leaves one after the other, each on the heap that the one before leaves behind, up to
the first that does not resolve. -/
def settleAll (owner : String) : List Leaf → Heap → Attempt (List Leaf) (Resolution Unit)
  | [], heap => ⟨.ok (.resolved ()), [], heap⟩
  | leaf :: rest, heap =>
    match leaf.settle owner heap with
    | ⟨.ok (.resolved _), leaf, heap⟩ =>
      let attempt := settleAll owner rest heap
      ⟨attempt.outcome, leaf :: attempt.subject, attempt.heap⟩
    | ⟨outcome, leaf, heap⟩ => ⟨outcome, leaf :: rest, heap⟩

end Leaf

mutual

/-- The leaf paths of an expression, left to right. -/
def Expression.leaves : Expression → List Leaf
  | .path ns root hops state => [⟨ns, root, hops, state⟩]
  | .computed operation _ _ => operation.leaves

/-- The leaf paths of an operation, left to right. -/
def Operation.leaves : Operation → List Leaf
  | .negation operand _ => operand.leaves
  | .binary _ left right _ => left.leaves ++ right.leaves

/-- The leaf paths of an operand, left to right. A fixed value has none. -/
def Operand.leaves : Operand → List Leaf
  | .expression e => e.leaves
  | .literal _ => []

end

/-- A node of an expression: the leaves inside it are those from `first` up to but not including
`last`. -/
structure Extent where
  first : Nat
  last : Nat
  state : Resolution Unit

mutual

/-- The expressions and operations inside an expression, itself included, when `n` leaves stand to
its left. -/
def Expression.nodes (n : Nat) : Expression → List Extent
  | .path _ _ _ state => [⟨n, n + 1, state.forget⟩]
  | .computed operation _ state =>
    ⟨n, n + operation.leaves.length, state.forget⟩ :: operation.nodes n

/-- The expressions and operations inside an operation, itself included. -/
def Operation.nodes (n : Nat) : Operation → List Extent
  | .negation operand state => ⟨n, n + operand.leaves.length, state⟩ :: operand.nodes n
  | .binary _ left right state =>
    ⟨n, n + (left.leaves ++ right.leaves).length, state⟩
      :: (left.nodes n ++ right.nodes (n + left.leaves.length))

/-- The expressions and operations inside an operand. -/
def Operand.nodes (n : Nat) : Operand → List Extent
  | .expression e => e.nodes n
  | .literal _ => []

end

variable (owner : String)

/-! ## Where the nodes stand -/

mutual

theorem Expression.nodes_within (n : Nat) : ∀ e : Expression, ∀ node ∈ e.nodes n,
    n ≤ node.first ∧ node.first ≤ node.last ∧ node.last ≤ n + e.leaves.length
  | .path _ _ _ _, node, h => by
    simp only [Expression.nodes, List.mem_singleton] at h
    subst h
    simp [Expression.leaves]
  | .computed operation _ _, node, h => by
    simp only [Expression.nodes, List.mem_cons] at h
    rcases h with rfl | h
    · simp [Expression.leaves]
    · exact Operation.nodes_within n operation node h

theorem Operation.nodes_within (n : Nat) : ∀ operation : Operation, ∀ node ∈ operation.nodes n,
    n ≤ node.first ∧ node.first ≤ node.last ∧ node.last ≤ n + operation.leaves.length
  | .negation operand _, node, h => by
    simp only [Operation.nodes, List.mem_cons] at h
    rcases h with rfl | h
    · simp [Operation.leaves]
    · exact Operand.nodes_within n operand node h
  | .binary _ left right _, node, h => by
    simp only [Operation.nodes, List.mem_cons, List.mem_append] at h
    simp only [Operation.leaves, List.length_append]
    rcases h with rfl | h | h
    · simp
    · have := Operand.nodes_within n left node h
      omega
    · have := Operand.nodes_within (n + left.leaves.length) right node h
      omega

theorem Operand.nodes_within (n : Nat) : ∀ operand : Operand, ∀ node ∈ operand.nodes n,
    n ≤ node.first ∧ node.first ≤ node.last ∧ node.last ≤ n + operand.leaves.length
  | .expression e, node, h => Expression.nodes_within n e node h
  | .literal _, node, h => by simp [Operand.nodes] at h

end

mutual

theorem Expression.nodes_reset (n : Nat) : ∀ e : Expression, ∀ node ∈ e.reset.nodes n,
    node.state = .pending
  | .path _ _ _ _, node, h => by
    simp only [Expression.reset, Expression.nodes, List.mem_singleton] at h
    rw [h]
    rfl
  | .computed operation _ _, node, h => by
    simp only [Expression.reset, Expression.nodes, List.mem_cons] at h
    rcases h with rfl | h
    · rfl
    · exact Operation.nodes_reset n operation node h

theorem Operation.nodes_reset (n : Nat) : ∀ operation : Operation,
    ∀ node ∈ operation.reset.nodes n, node.state = .pending
  | .negation operand _, node, h => by
    simp only [Operation.reset, Operation.nodes, List.mem_cons] at h
    rcases h with rfl | h
    · rfl
    · exact Operand.nodes_reset n operand node h
  | .binary _ left right _, node, h => by
    simp only [Operation.reset, Operation.nodes, List.mem_cons, List.mem_append] at h
    rcases h with rfl | h | h
    · rfl
    · exact Operand.nodes_reset n left node h
    · exact Operand.nodes_reset _ right node h

theorem Operand.nodes_reset (n : Nat) : ∀ operand : Operand, ∀ node ∈ operand.reset.nodes n,
    node.state = .pending
  | .expression e, node, h => Expression.nodes_reset n e node h
  | .literal _, node, h => by simp [Operand.reset, Operand.nodes] at h

end

mutual

theorem Expression.leaves_reset : ∀ e : Expression, ∀ leaf ∈ e.reset.leaves, leaf.state = .pending
  | .path ns root hops _, leaf, h => by
    simp only [Expression.reset, Expression.leaves, List.mem_singleton] at h
    rw [h]
  | .computed operation _ _, leaf, h => Operation.leaves_reset operation leaf h

theorem Operation.leaves_reset :
    ∀ operation : Operation, ∀ leaf ∈ operation.reset.leaves, leaf.state = .pending
  | .negation operand _, leaf, h => Operand.leaves_reset operand leaf h
  | .binary _ left right _, leaf, h => by
    simp only [Operation.reset, Operation.leaves, List.mem_append] at h
    exact h.elim (Operand.leaves_reset left leaf) (Operand.leaves_reset right leaf)

theorem Operand.leaves_reset :
    ∀ operand : Operand, ∀ leaf ∈ operand.reset.leaves, leaf.state = .pending
  | .expression e, leaf, h => Expression.leaves_reset e leaf h
  | .literal _, leaf, h => by simp [Operand.reset, Operand.leaves] at h

end

/-- The leaves of an expression that was never set up were never set up. -/
theorem Expression.Fresh.leaves {e : Expression} (hf : e.Fresh) :
    ∀ leaf ∈ e.leaves, leaf.state = .pending := by
  have := Expression.leaves_reset e
  rwa [show e.reset = e from hf] at this

/-! ## Setup as a run over the leaves -/

/-- Leaves on the right are tried only after all those on the left are resolved. -/
theorem Leaf.settleAll_append (xs ys : List Leaf) (heap : Heap) :
    Leaf.settleAll owner (xs ++ ys) heap =
      let l := Leaf.settleAll owner xs heap
      match l.outcome with
      | .ok (.resolved _) =>
        let r := Leaf.settleAll owner ys l.heap
        ⟨r.outcome, l.subject ++ r.subject, r.heap⟩
      | outcome => ⟨outcome, l.subject ++ ys, l.heap⟩ := by
  induction xs generalizing heap with
  | nil => rfl
  | cons leaf rest ih =>
    simp only [List.cons_append, Leaf.settleAll]
    rcases leaf.settle owner heap with ⟨e | s, leaf', heap'⟩
    · rfl
    · cases s with
      | resolved u =>
        simp only [ih heap']
        rcases Leaf.settleAll owner rest heap' with ⟨e | s, rest', heap''⟩
        · rfl
        · cases s <;> rfl
      | _ => rfl

/-- A single leaf. -/
theorem Leaf.settleAll_singleton (leaf : Leaf) (heap : Heap) :
    Leaf.settleAll owner [leaf] heap =
      let attempt := leaf.settle owner heap
      ⟨attempt.outcome, [attempt.subject], attempt.heap⟩ := by
  simp only [Leaf.settleAll]
  rcases leaf.settle owner heap with ⟨e | s, leaf', heap'⟩
  · rfl
  · cases s <;> rfl

mutual

/-- Setup does to the heap and to the leaves what resolving the leaves one after the other does. -/
theorem Expression.setup_eq_settleAll : ∀ (e : Expression) (heap : Heap), e.Fresh →
    Leaf.settleAll owner e.leaves heap =
      let attempt := e.setup owner heap
      ⟨attempt.outcome.map fun _ => attempt.subject.state.forget, attempt.subject.leaves,
        attempt.heap⟩
  | .path ns root hops state, heap, _ => by
    obtain ⟨state', hs⟩ := Expression.setup_path owner ns root hops state heap
    rw [Expression.leaves, Leaf.settleAll_singleton]
    simp only [Leaf.settle, Leaf.expression, hs, Expression.leaves, Expression.state]
  | .computed operation hops state, heap, hf => by
    obtain ⟨hop, rfl⟩ := Expression.fresh_computed hf
    have ih := Operation.setup_eq_settleAll operation heap hop
    rw [Expression.leaves, ih, Expression.setup_computed]
    simp only
    split <;> rename_i ho <;> simp only [ho, Except.map, Expression.leaves, Expression.state,
      Resolution.forget_map, Resolution.forget_unit]

theorem Operation.setup_eq_settleAll : ∀ (operation : Operation) (heap : Heap), operation.Fresh →
    Leaf.settleAll owner operation.leaves heap =
      let attempt := operation.setup owner heap
      ⟨attempt.outcome, attempt.subject.leaves, attempt.heap⟩
  | .negation operand state, heap, hf => by
    obtain ⟨hoperand, rfl⟩ := Operation.fresh_negation hf
    have ih := Operand.setup_eq_settleAll operand heap hoperand
    rw [Operation.leaves, ih, Operation.setup_negation]
    simp only
    split <;> rename_i ho <;> simp only [ho, Operation.leaves]
  | .binary op left right state, heap, hf => by
    obtain ⟨hl, hr, rfl⟩ := Operation.fresh_binary hf
    have ihl := Operand.setup_eq_settleAll left heap hl
    have ihr := fun heap => Operand.setup_eq_settleAll right heap hr
    rw [Operation.leaves, Leaf.settleAll_append, ihl, Operation.setup_binary]
    simp only
    rcases left.setup owner heap with ⟨e | s, l, heap'⟩
    · rfl
    · cases s with
      | resolved u =>
        simp only [ihr heap']
        split <;> rename_i ho <;> simp only [ho, Operation.leaves]
      | _ => rfl

theorem Operand.setup_eq_settleAll : ∀ (operand : Operand) (heap : Heap), operand.Fresh →
    Leaf.settleAll owner operand.leaves heap =
      let attempt := operand.setup owner heap
      ⟨attempt.outcome, attempt.subject.leaves, attempt.heap⟩
  | .expression e, heap, hf => by
    have ih := Expression.setup_eq_settleAll e heap (Operand.fresh_expression hf)
    rw [Operand.leaves, ih, Operand.setup_expression]
    rfl
  | .literal v, heap, _ => by
    rw [Operand.setup_literal]
    rfl

end

end Formwork
