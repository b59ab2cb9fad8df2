-- What is left of an expression whose setup ends in an error. Operands are resolved in place, from
-- left to right. The error comes from a leaf; what stands to its left is resolved and stays so, and
-- everything else is as it was. So the expression can be set up once more if nothing stands to the
-- left of the leaf. Otherwise another setup meets the first thing that is resolved, and is refused.
import Formwork.Proofs.Expression.Deciding

namespace Formwork

variable (owner : String)

/-! ## The leaf that fails -/

/-- The leaves are resolved one after the other, up to leaf `k`, which ends in the error. -/
inductive Leaf.HaltsAt (error : Error) : List Leaf → Heap → Nat → Prop where
  | here {leaf : Leaf} {rest : List Leaf} {heap : Heap} :
    (leaf.settle owner heap).outcome = .error error → HaltsAt error (leaf :: rest) heap 0
  | later {leaf : Leaf} {rest : List Leaf} {heap : Heap} {k : Nat} :
    (leaf.settle owner heap).outcome = .ok (.resolved ()) →
    HaltsAt error rest (leaf.settle owner heap).heap k → HaltsAt error (leaf :: rest) heap (k + 1)

namespace Leaf.HaltsAt

variable {owner} {error : Error} {leaves others : List Leaf} {heap : Heap} {k : Nat}

theorem lt_length (h : HaltsAt owner error leaves heap k) : k < leaves.length := by
  induction h with
  | here _ => exact Nat.succ_pos _
  | later _ _ ih => exact Nat.succ_lt_succ ih

/-- Leaves to the right of one that fails are not reached. -/
theorem append (h : HaltsAt owner error leaves heap k) (others : List Leaf) :
    HaltsAt owner error (leaves ++ others) heap k := by
  induction h with
  | here herror => exact .here herror
  | later hresolved _ ih => exact .later hresolved ih

/-- Leaves that resolve all are passed. -/
theorem after_resolved (hresolved : (settleAll owner leaves heap).outcome = .ok (.resolved ()))
    (h : HaltsAt owner error others (settleAll owner leaves heap).heap k) :
    HaltsAt owner error (leaves ++ others) heap (leaves.length + k) := by
  induction leaves generalizing heap with
  | nil => simpa [settleAll] using h
  | cons leaf rest ih =>
    rw [List.cons_append, List.length_cons, Nat.succ_add]
    rcases hs : leaf.settle owner heap with ⟨e | s, leaf', heap'⟩
    · simp [settleAll, hs] at hresolved
    · cases s with
      | resolved u =>
        simp only [settleAll, hs] at hresolved h
        refine .later (by rw [hs]) ?_
        rw [hs]
        exact ih hresolved h
      | _ => simp [settleAll, hs] at hresolved

end Leaf.HaltsAt

/-! ## The nodes around it -/

/-- What ends before leaf `k` is resolved, and what does not was never tried; `n` leaves stand to the
left of the nodes that this is about. -/
structure Halted (n k : Nat) (nodes : List Extent) : Prop where
  left : ∀ node ∈ nodes, node.last ≤ n + k → node.state = .resolved ()
  rest : ∀ node ∈ nodes, n + k < node.last → node.state = .pending

namespace Halted

variable {n k : Nat} {nodes more : List Extent}

/-- A node around the leaf was never tried. -/
theorem enclose {last : Nat} (h : Halted n k nodes) (hlast : n + k < last) :
    Halted n k (⟨n, last, .pending⟩ :: nodes) where
  left := List.forall_mem_cons.2 ⟨fun hle => absurd hlast (Nat.not_lt.2 hle), h.left⟩
  rest := List.forall_mem_cons.2 ⟨fun _ => rfl, h.rest⟩

/-- What stands to the right of the leaf was never tried. -/
theorem append (h : Halted n k nodes) (hright : ∀ node ∈ more, n + k < node.last)
    (hmore : ∀ node ∈ more, node.state = .pending) : Halted n k (nodes ++ more) where
  left := List.forall_mem_append.2
    ⟨h.left, fun node hn hle => absurd (hright node hn) (Nat.not_lt.2 hle)⟩
  rest := List.forall_mem_append.2 ⟨h.rest, fun node hn _ => hmore node hn⟩

/-- What stands to the left of the leaf is resolved. -/
theorem after_resolved {m : Nat} (h : Halted (n + m) k more)
    (hleft : ∀ node ∈ nodes, node.last ≤ n + m) (hnodes : ∀ node ∈ nodes, node.state = .resolved ()) :
    Halted n (m + k) (nodes ++ more) where
  left := List.forall_mem_append.2
    ⟨fun node hn _ => hnodes node hn, fun node hn hle => h.left node hn (by omega)⟩
  rest := List.forall_mem_append.2 ⟨fun node hn hlt => by have := hleft node hn; omega,
    fun node hn hlt => h.rest node hn (by omega)⟩

/-- Nothing was tried if nothing ends before the leaf. -/
theorem pending_iff (h : Halted n k nodes) :
    (∀ node ∈ nodes, node.state = .pending) ↔ ∀ node ∈ nodes, n + k < node.last := by
  refine ⟨fun hpending node hn => Nat.lt_of_not_le fun hle => ?_,
    fun hlt node hn => h.rest node hn (hlt node hn)⟩
  cases (hpending node hn).symm.trans (h.left node hn hle)

end Halted

/-- An operand that resolves has nothing in it that is not resolved. -/
theorem Operand.all_resolved {operand : Operand} {heap : Heap} (hf : operand.Fresh) (n : Nat)
    (h : (operand.setup owner heap).outcome = .ok (.resolved ())) :
    ∀ node ∈ (operand.setup owner heap).subject.nodes n, node.state = .resolved () := by
  rcases Operand.decided owner n operand heap _ hf h with ⟨_, _, hnodes⟩ | ⟨k, hblocked⟩
  · exact hnodes
  · cases hblocked.failed

/-- Resolving leaves keeps their number. -/
theorem Leaf.length_settleAll (leaves : List Leaf) (heap : Heap) :
    (settleAll owner leaves heap).subject.length = leaves.length := by
  induction leaves generalizing heap with
  | nil => rfl
  | cons leaf rest ih =>
    simp only [settleAll]
    rcases leaf.settle owner heap with ⟨e | s, leaf', heap'⟩
    · rfl
    · cases s with
      | resolved u => exact congrArg Nat.succ (ih heap')
      | _ => rfl

theorem Operation.length_leaves_setup {operation : Operation} (hf : operation.Fresh) (heap : Heap) :
    (operation.setup owner heap).subject.leaves.length = operation.leaves.length := by
  rw [← Leaf.length_settleAll owner operation.leaves heap,
    Operation.setup_eq_settleAll owner operation heap hf]

theorem Operand.length_leaves_setup {operand : Operand} (hf : operand.Fresh) (heap : Heap) :
    (operand.setup owner heap).subject.leaves.length = operand.leaves.length := by
  rw [← Leaf.length_settleAll owner operand.leaves heap,
    Operand.setup_eq_settleAll owner operand heap hf]

/-- Setup of a path with an error leaves it as it was. -/
theorem Expression.setup_path_failed {ns : Namespace} {root : Hop} {hops : List Hop} {heap : Heap}
    {error : Error}
    (h : ((Expression.path ns root hops .pending).setup owner heap).outcome = .error error) :
    ((Expression.path ns root hops .pending).setup owner heap).subject =
      .path ns root hops .pending := by
  rcases Expression.setup_path_cases owner ns root hops heap with
    ⟨_, _, _, _, _, _, hs⟩ | ⟨_, _, _, _, _, _, hs⟩ | ⟨_, _, _, _, _, hs⟩ | ⟨_, _, _, _, hs⟩
  · rw [hs] at h
    cases h
  · rw [hs]
  · rw [hs] at h
    cases h
  · rw [hs]

mutual

/-- Setup with an error of an expression that nothing was set up of. -/
theorem Expression.halted (n : Nat) : ∀ (e : Expression) (heap : Heap) (error : Error),
    e.Fresh → (e.setup owner heap).outcome = .error error →
    ∃ k, Leaf.HaltsAt owner error e.leaves heap k ∧
      Halted n k ((e.setup owner heap).subject.nodes n)
  | .path ns root hops state, heap, error, hf, h => by
    obtain rfl := Expression.fresh_path hf
    have hleaf : (Leaf.settle owner ⟨ns, root, hops, .pending⟩ heap).outcome = .error error := by
      simp only [Leaf.settle, Leaf.expression, h, Except.map]
    rw [Expression.setup_path_failed owner h]
    refine ⟨0, .here hleaf, ?_, ?_⟩ <;> simp [Expression.nodes, Resolution.forget, Resolution.map]
  | .computed operation hops state, heap, error, hf, h => by
    obtain ⟨hop, rfl⟩ := Expression.fresh_computed hf
    rw [Expression.setup_computed] at h ⊢
    rcases ho : (operation.setup owner heap).outcome with e | s
    · simp only [ho, Except.error.injEq] at h ⊢
      subst h
      obtain ⟨k, hleaf, hnodes⟩ := Operation.halted n operation heap e hop ho
      have hlt := hleaf.lt_length
      rw [← Operation.length_leaves_setup owner hop heap] at hlt
      exact ⟨k, hleaf, hnodes.enclose (Nat.add_lt_add_left hlt n)⟩
    · simp [ho] at h

/-- Setup with an error of an operation that nothing was set up of. -/
theorem Operation.halted (n : Nat) : ∀ (operation : Operation) (heap : Heap) (error : Error),
    operation.Fresh → (operation.setup owner heap).outcome = .error error →
    ∃ k, Leaf.HaltsAt owner error operation.leaves heap k ∧
      Halted n k ((operation.setup owner heap).subject.nodes n)
  | .negation operand state, heap, error, hf, h => by
    obtain ⟨hoperand, rfl⟩ := Operation.fresh_negation hf
    rw [Operation.setup_negation] at h ⊢
    rcases ho : (operand.setup owner heap).outcome with e | s
    · simp only [ho, Except.error.injEq] at h ⊢
      subst h
      obtain ⟨k, hleaf, hnodes⟩ := Operand.halted n operand heap e hoperand ho
      have hlt := hleaf.lt_length
      rw [← Operand.length_leaves_setup owner hoperand heap] at hlt
      exact ⟨k, hleaf, hnodes.enclose (Nat.add_lt_add_left hlt n)⟩
    · simp [ho] at h
  | .binary op left right state, heap, error, hf, h => by
    obtain ⟨hfl, hfr, rfl⟩ := Operation.fresh_binary hf
    have hlength := Operand.length_leaves_setup owner hfl heap
    rw [Operation.setup_binary] at h ⊢
    rcases hl : (left.setup owner heap).outcome with e | s
    · simp only [hl, Except.error.injEq] at h ⊢
      subst h
      obtain ⟨k, hleaf, hnodes⟩ := Operand.halted n left heap e hfl hl
      have hlt := hleaf.lt_length
      have hpending := Operand.nodes_reset (n + (left.setup owner heap).subject.leaves.length) right
      rw [hfr] at hpending
      have hright := Operand.nodes_within (n + (left.setup owner heap).subject.leaves.length) right
      refine ⟨k, hleaf.append right.leaves, (hnodes.append (fun node hn => ?_) hpending).enclose ?_⟩
      · have := hright node hn
        omega
      · rw [List.length_append]
        omega
    · cases s with
      | resolved u =>
        simp only [hl] at h ⊢
        rcases hr : (right.setup owner (left.setup owner heap).heap).outcome with e | s
        · simp only [hr, Except.error.injEq] at h ⊢
          subst h
          obtain ⟨k, hleaf, hnodes⟩ := Operand.halted (n + (left.setup owner heap).subject.leaves.length)
            right (left.setup owner heap).heap e hfr hr
          have hlt := hleaf.lt_length
          have hrun := Operand.setup_eq_settleAll owner left heap hfl
          rw [← Operand.length_leaves_setup owner hfr (left.setup owner heap).heap] at hlt
          have hleft := Operand.nodes_within n (left.setup owner heap).subject
          refine ⟨left.leaves.length + k, .after_resolved (by rw [hrun, hl]) (by rwa [hrun]), ?_⟩
          rw [← hlength]
          refine (hnodes.after_resolved (fun node hn => (hleft node hn).2.2)
            (Operand.all_resolved owner hfl n hl)).enclose ?_
          rw [List.length_append]
          omega
        · simp [hr] at h
      | _ => simp [hl] at h

/-- Setup with an error of an operand that nothing was set up of. -/
theorem Operand.halted (n : Nat) : ∀ (operand : Operand) (heap : Heap) (error : Error),
    operand.Fresh → (operand.setup owner heap).outcome = .error error →
    ∃ k, Leaf.HaltsAt owner error operand.leaves heap k ∧
      Halted n k ((operand.setup owner heap).subject.nodes n)
  | .expression e, heap, error, hf, h => by
    rw [Operand.setup_expression] at h ⊢
    rcases ho : (e.setup owner heap).outcome with failure | found
    · simp only [ho, Except.map, Except.error.injEq] at h
      subst h
      exact Expression.halted n e heap failure (Operand.fresh_expression hf) ho
    · simp [ho, Except.map] at h
  | .literal v, heap, error, _, h => by
    rw [Operand.setup_literal] at h
    cases h

end

/-! ## Another setup -/

/-- Whoever tries it, setup meets an expression that is resolved. It is refused, and leaves the
subject and the heap as they are. -/
def Refuses {σ α : Type} (setup : String → Heap → Attempt σ α) (subject : σ) : Prop :=
  ∃ met : Expression, met.state.isResolved ∧ ∀ owner heap, setup owner heap =
    ⟨.error (.internal none s!"Setup of {met.text} already called (status {met.state.status})"),
      subject, heap⟩

/-- Something among the nodes is resolved, and another setup is refused for it. -/
structure Spent {σ α : Type} (setup : String → Heap → Attempt σ α) (subject : σ)
    (nodes : List Extent) : Prop where
  refused : Refuses setup subject
  resolved : ∃ node ∈ nodes, node.state = .resolved ()

/-- An expression is among its own nodes. -/
theorem Expression.mem_nodes (n : Nat) (e : Expression) :
    ∃ node ∈ e.nodes n, node.state = e.state.forget := by
  cases e <;> exact ⟨_, List.mem_cons_self, rfl⟩

/-- What is resolved itself is spent. -/
theorem Expression.spent_of_resolved {e : Expression} (h : e.state.isResolved) (n : Nat) :
    Spent (fun owner => e.setup owner) e (e.nodes n) := by
  obtain ⟨node, hn, hnode⟩ := e.mem_nodes n
  refine ⟨⟨e, h, fun owner heap => ?_⟩, node, hn,
    hnode.trans ((Resolution.forget_eq_resolved e.state).2 h)⟩
  cases e with
  | path ns root hops state =>
    cases state with
    | resolved access => simp [Expression.setup]
    | _ => cases h
  | computed operation hops state =>
    cases state with
    | resolved access => simp [Expression.setup]
    | _ => cases h

theorem Operand.resolved_of_setup {e : Expression} {heap : Heap}
    (h : ((Operand.expression e).setup owner heap).outcome = .ok (.resolved ())) :
    (e.setup owner heap).subject.state.isResolved := by
  rw [Operand.setup_expression] at h
  rcases ho : (e.setup owner heap).outcome with error | found
  · simp [ho, Except.map] at h
  · simpa [ho, Except.map] using h

namespace Spent

variable {n : Nat}

/-! Another setup takes the way of the first one. So it meets what is resolved in the first operand,
and what is resolved in the second one if the first is a fixed value. -/

theorem computed {operation : Operation}
    (h : Spent (fun owner => operation.setup owner) operation (operation.nodes n)) (hops : List Hop) :
    Spent (fun owner => (Expression.computed operation hops .pending).setup owner)
      (.computed operation hops .pending) ((Expression.computed operation hops .pending).nodes n) := by
  obtain ⟨⟨met, hmet, hrefuses⟩, node, hn, hnode⟩ := h
  refine ⟨⟨met, hmet, fun owner heap => ?_⟩, node, List.mem_cons_of_mem _ hn, hnode⟩
  simp only [Expression.setup_computed, hrefuses]

theorem negation {operand : Operand}
    (h : Spent (fun owner => operand.setup owner) operand (operand.nodes n)) :
    Spent (fun owner => (Operation.negation operand .pending).setup owner)
      (.negation operand .pending) ((Operation.negation operand .pending).nodes n) := by
  obtain ⟨⟨met, hmet, hrefuses⟩, node, hn, hnode⟩ := h
  refine ⟨⟨met, hmet, fun owner heap => ?_⟩, node, List.mem_cons_of_mem _ hn, hnode⟩
  simp only [Operation.setup_negation, hrefuses]

theorem first {operand : Operand}
    (h : Spent (fun owner => operand.setup owner) operand (operand.nodes n)) (op : BinaryOp)
    (right : Operand) :
    Spent (fun owner => (Operation.binary op operand right .pending).setup owner)
      (.binary op operand right .pending)
      ((Operation.binary op operand right .pending).nodes n) := by
  obtain ⟨⟨met, hmet, hrefuses⟩, node, hn, hnode⟩ := h
  refine ⟨⟨met, hmet, fun owner heap => ?_⟩, node,
    List.mem_cons_of_mem _ (List.mem_append_left _ hn), hnode⟩
  simp only [Operation.setup_binary, hrefuses]

theorem second {operand : Operand}
    (h : Spent (fun owner => operand.setup owner) operand (operand.nodes n)) (op : BinaryOp)
    (v : Value) :
    Spent (fun owner => (Operation.binary op (.literal v) operand .pending).setup owner)
      (.binary op (.literal v) operand .pending)
      ((Operation.binary op (.literal v) operand .pending).nodes n) := by
  obtain ⟨⟨met, hmet, hrefuses⟩, node, hn, hnode⟩ := h
  refine ⟨⟨met, hmet, fun owner heap => ?_⟩, node,
    List.mem_cons_of_mem _ (List.mem_append_right _ hn), hnode⟩
  simp only [Operation.setup_binary, Operand.setup_literal, hrefuses]

theorem expression {e : Expression} (h : Spent (fun owner => e.setup owner) e (e.nodes n)) :
    Spent (fun owner => (Operand.expression e).setup owner) (.expression e)
      ((Operand.expression e).nodes n) := by
  obtain ⟨⟨met, hmet, hrefuses⟩, hresolved⟩ := h
  refine ⟨⟨met, hmet, fun owner heap => ?_⟩, hresolved⟩
  simp only [Operand.setup_expression, hrefuses, Except.map]

end Spent

mutual

/-- An error leaves an expression as it was, or spent. -/
theorem Expression.kept_or_spent (n : Nat) : ∀ (e : Expression) (heap : Heap) (error : Error),
    e.Fresh → (e.setup owner heap).outcome = .error error →
    (e.setup owner heap).subject = e ∨
      Spent (fun other => (e.setup owner heap).subject.setup other) (e.setup owner heap).subject
        ((e.setup owner heap).subject.nodes n)
  | .path ns root hops state, heap, error, hf, h => by
    obtain rfl := Expression.fresh_path hf
    exact .inl (Expression.setup_path_failed owner h)
  | .computed operation hops state, heap, error, hf, h => by
    obtain ⟨hop, rfl⟩ := Expression.fresh_computed hf
    rw [Expression.setup_computed] at h ⊢
    rcases ho : (operation.setup owner heap).outcome with e | s
    · simp only [ho]
      rcases Operation.kept_or_spent n operation heap e hop ho with hsame | hspent
      · exact .inl (by rw [hsame])
      · exact .inr (hspent.computed hops)
    · simp [ho] at h

theorem Operation.kept_or_spent (n : Nat) :
    ∀ (operation : Operation) (heap : Heap) (error : Error),
    operation.Fresh → (operation.setup owner heap).outcome = .error error →
    (operation.setup owner heap).subject = operation ∨
      Spent (fun other => (operation.setup owner heap).subject.setup other)
        (operation.setup owner heap).subject ((operation.setup owner heap).subject.nodes n)
  | .negation operand state, heap, error, hf, h => by
    obtain ⟨hoperand, rfl⟩ := Operation.fresh_negation hf
    rw [Operation.setup_negation] at h ⊢
    rcases ho : (operand.setup owner heap).outcome with e | s
    · simp only [ho]
      rcases Operand.kept_or_spent n operand heap e hoperand ho with hsame | hspent
      · exact .inl (by rw [hsame])
      · exact .inr hspent.negation
    · simp [ho] at h
  | .binary op left right state, heap, error, hf, h => by
    obtain ⟨hfl, hfr, rfl⟩ := Operation.fresh_binary hf
    rw [Operation.setup_binary] at h ⊢
    rcases hl : (left.setup owner heap).outcome with e | s
    · simp only [hl]
      rcases Operand.kept_or_spent n left heap e hfl hl with hsame | hspent
      · exact .inl (by rw [hsame])
      · exact .inr (hspent.first op right)
    · cases s with
      | resolved u =>
        simp only [hl] at h ⊢
        rcases hr : (right.setup owner (left.setup owner heap).heap).outcome with e | s
        · simp only
          cases left with
          | expression e =>
            have hresolved := Operand.resolved_of_setup owner hl
            rw [Operand.setup_expression]
            exact .inr ((Expression.spent_of_resolved hresolved n).expression.first op _)
          | literal v =>
            rw [Operand.setup_literal] at hr ⊢
            rcases Operand.kept_or_spent n right heap _ hfr hr with hsame | hspent
            · exact .inl (by rw [hsame])
            · exact .inr (hspent.second op v)
        · simp [hr] at h
      | _ => simp [hl] at h

theorem Operand.kept_or_spent (n : Nat) : ∀ (operand : Operand) (heap : Heap) (error : Error),
    operand.Fresh → (operand.setup owner heap).outcome = .error error →
    (operand.setup owner heap).subject = operand ∨
      Spent (fun other => (operand.setup owner heap).subject.setup other)
        (operand.setup owner heap).subject ((operand.setup owner heap).subject.nodes n)
  | .expression e, heap, error, hf, h => by
    rw [Operand.setup_expression] at h ⊢
    rcases ho : (e.setup owner heap).outcome with failure | found
    · rcases Expression.kept_or_spent n e heap failure (Operand.fresh_expression hf) ho with
        hsame | hspent
      · exact .inl (by simp only [hsame])
      · exact .inr hspent.expression
    · simp [ho, Except.map] at h
  | .literal v, heap, error, _, h => by
    rw [Operand.setup_literal] at h
    cases h

end

/-! ## The law -/

/-- A setup that ends in an error keeps what it resolved. The leaves are resolved one after the other
up to one that fails. What ends before it is resolved; the leaf, what stands around it and what stands
to its right are as they were. If nothing ends before it, the expression is what it was, and setup of
it can do what it could do. Otherwise every further setup is refused, and changes nothing. -/
theorem failed_setups_keep_what_they_resolved (e : Expression) (heap : Heap) (error : Error)
    (hfresh : e.Fresh) (hfailed : (e.setup owner heap).outcome = .error error) :
    let e' := (e.setup owner heap).subject
    e'.reset = e ∧ ∃ k, Leaf.HaltsAt owner error e.leaves heap k ∧ Halted 0 k (e'.nodes 0) ∧
      (e' = e ↔ ∀ node ∈ e'.nodes 0, k < node.last) ∧
      (e' ≠ e → Refuses (fun other => e'.setup other) e') := by
  intro e'
  obtain ⟨k, hleaf, hnodes⟩ := Expression.halted owner 0 e heap error hfresh hfailed
  have hends := Expression.kept_or_spent owner 0 e heap error hfresh hfailed
  have hpending := hnodes.pending_iff
  rw [Nat.zero_add] at hpending
  refine ⟨(Expression.reset_setup owner e heap).trans hfresh, k, hleaf, hnodes, ?_, fun hne => ?_⟩
  · rw [← hpending]
    refine ⟨fun hsame => ?_, fun hall => hends.resolve_right fun hspent => ?_⟩
    · have hreset := Expression.nodes_reset 0 e
      rwa [show e.reset = e from hfresh, ← hsame] at hreset
    · obtain ⟨node, hn, hnode⟩ := hspent.resolved
      cases (hall node hn).symm.trans hnode
  · exact (hends.resolve_left hne).refused

/-- `Models.company == Models.company.name.first`. A text has no attributes. -/
def Expression.comparison : Expression :=
  .computed (.binary .eq (.expression (.ofModels "company" []))
    (.expression (.ofModels "company" ["name", "first"])) .pending) [] .pending

theorem Expression.setup_comparison_ne :
    (Expression.comparison.setup "rule" Heap.sample).subject ≠ Expression.comparison := by
  intro hsame
  have hstatus : some "Ok" = some "Initialized" :=
    congrArg (fun e => e.leaves.head?.map fun leaf => leaf.state.status) hsame
  exact absurd hstatus (by decide)

/-- The second operand fails alone, and can be set up once more. After the first operand it can not:
the comparison is refused from then on. -/
theorem failed_setups_keep_what_they_resolved_of_a_comparison :
    let alone := Expression.ofModels "company" ["name", "first"]
    let e := Expression.comparison
    (alone.setup "rule" Heap.sample).subject = alone ∧
      Refuses (fun other => (e.setup "rule" Heap.sample).subject.setup other)
        (e.setup "rule" Heap.sample).subject := by
  intro alone e
  obtain ⟨_, k, hleaf, _, hkept, _⟩ :=
    failed_setups_keep_what_they_resolved "rule" alone Heap.sample _ rfl rfl
  obtain ⟨_, _, _, _, _, hrefuses⟩ :=
    failed_setups_keep_what_they_resolved "rule" e Heap.sample _ rfl rfl
  refine ⟨hkept.2 fun node hn => ?_, hrefuses Expression.setup_comparison_ne⟩
  obtain rfl := List.mem_singleton.1 hn
  exact hleaf.lt_length

/-- The comparison fails at its second operand. Its first operand is resolved by then, and another
setup ends in another error than that of a comparison that was never set up. -/
theorem a_failed_comparison_has_a_resolved_operand :
    let e := Expression.comparison
    let attempt := e.setup "rule" Heap.sample
    Heap.sample.Reachable ∧ Heap.sample.finished = false ∧ e.Fresh ∧
      (∃ error, attempt.outcome = .error error) ∧ attempt.subject ≠ e ∧
      (∃ leaf ∈ attempt.subject.leaves, leaf.state.isResolved) ∧
      (attempt.subject.setup "rule" Heap.sample).outcome ≠ attempt.outcome := by
  intro e attempt
  refine ⟨Heap.sample_reachable, rfl, rfl, ⟨_, rfl⟩, Expression.setup_comparison_ne,
    ⟨_, List.mem_cons_self, rfl⟩, fun hsame => ?_⟩
  cases hsame

end Formwork
