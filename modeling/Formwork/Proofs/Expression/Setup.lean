-- Setup of expressions, step by step: what a path, an operation and an operand can end in, what
-- setup leaves as it was, and when it finds a variable.
import Formwork.Expression.Setup
import Formwork.Proofs.Heap.Reachable

namespace Formwork

namespace Resolution

variable {α : Type}

/-- The state without what was resolved. -/
def forget (s : Resolution α) : Resolution Unit := s.map fun _ => ()

/-- Whether it was tried and failed. -/
def isFailed (s : Resolution α) : Bool := s.failure?.isSome

@[simp] theorem forget_eq_resolved (s : Resolution α) : s.forget = .resolved () ↔ s.isResolved := by
  cases s <;> simp [forget, map, isResolved]

@[simp] theorem forget_map {β : Type} (f : α → β) (s : Resolution α) :
    (s.map f).forget = s.forget := by
  cases s <;> rfl

@[simp] theorem isFailed_forget (s : Resolution α) : s.forget.isFailed = s.isFailed := by
  cases s <;> rfl

@[simp] theorem forget_unit (s : Resolution Unit) : s.forget = s := by
  cases s <;> rfl

end Resolution

/-! ## Expressions that were not set up -/

mutual

/-- The expression as it was declared. -/
def Expression.reset : Expression → Expression
  | .path ns root hops _ => .path ns root hops .pending
  | .computed operation hops _ => .computed operation.reset hops .pending

/-- The operation as it was declared. -/
def Operation.reset : Operation → Operation
  | .negation operand _ => .negation operand.reset .pending
  | .binary op left right _ => .binary op left.reset right.reset .pending

/-- The operand as it was declared. -/
def Operand.reset : Operand → Operand
  | .expression e => .expression e.reset
  | .literal v => .literal v

end

/-- Nothing in the expression was set up yet. -/
def Expression.Fresh (e : Expression) : Prop := e.reset = e

/-- Nothing in the operation was set up yet. -/
def Operation.Fresh (operation : Operation) : Prop := operation.reset = operation

/-- Nothing in the operand was set up yet. -/
def Operand.Fresh (operand : Operand) : Prop := operand.reset = operand

theorem Expression.fresh_path {ns : Namespace} {root : Hop} {hops : List Hop}
    {state : Resolution Access} (h : (Expression.path ns root hops state).Fresh) :
    state = .pending := by
  simpa [Expression.Fresh, Expression.reset, eq_comm] using h

theorem Expression.fresh_computed {operation : Operation} {hops : List Hop}
    {state : Resolution Access} (h : (Expression.computed operation hops state).Fresh) :
    operation.Fresh ∧ state = .pending := by
  simpa [Expression.Fresh, Operation.Fresh, Expression.reset, eq_comm] using h

theorem Operation.fresh_negation {operand : Operand} {state : Resolution Unit}
    (h : (Operation.negation operand state).Fresh) : operand.Fresh ∧ state = .pending := by
  simpa [Operation.Fresh, Operand.Fresh, Operation.reset, eq_comm] using h

theorem Operation.fresh_binary {op : BinaryOp} {left right : Operand} {state : Resolution Unit}
    (h : (Operation.binary op left right state).Fresh) :
    left.Fresh ∧ right.Fresh ∧ state = .pending := by
  simpa [Operation.Fresh, Operand.Fresh, Operation.reset, eq_comm] using h

theorem Operand.fresh_expression {e : Expression} (h : (Operand.expression e).Fresh) : e.Fresh := by
  simpa [Expression.Fresh, Operand.Fresh, Operand.reset] using h

/-! ## One step of setup -/

variable (owner : String)

/-- An operation belongs to the global namespace, where no variable is needed at the end. -/
theorem Expression.conclude_computed (operation : Operation) (hops : List Hop) (heap : Heap) :
    Expression.conclude owner (.computed operation hops .pending) none heap =
      ⟨.ok none, .computed operation hops (.resolved ⟨.apply 0 :: hops.map .attribute, none⟩),
        heap⟩ := rfl

theorem Expression.setup_computed (operation : Operation) (hops : List Hop) (heap : Heap) :
    (Expression.computed operation hops .pending).setup owner heap =
      let attempt := operation.setup owner heap
      match attempt.outcome with
      | .ok state => ⟨.ok none,
          .computed attempt.subject hops
            (state.map fun _ => ⟨.apply 0 :: hops.map .attribute, none⟩), attempt.heap⟩
      | .error e => ⟨.error e, .computed attempt.subject hops .pending, attempt.heap⟩ := by
  rw [Expression.setup]
  rcases operation.setup owner heap with ⟨e | state, subject, heap'⟩
  · rfl
  · cases state with
    | resolved _ => exact Expression.conclude_computed owner subject hops heap'
    | _ => rfl

theorem Operation.setup_negation (operand : Operand) (heap : Heap) :
    (Operation.negation operand .pending).setup owner heap =
      let attempt := operand.setup owner heap
      match attempt.outcome with
      | .ok state => ⟨.ok state, .negation attempt.subject state, attempt.heap⟩
      | .error e => ⟨.error e, .negation attempt.subject .pending, attempt.heap⟩ := by
  rw [Operation.setup]
  rcases operand.setup owner heap with ⟨_ | _, _, _⟩ <;> rfl

/-- The right operand is set up only after the left one is resolved. -/
theorem Operation.setup_binary (op : BinaryOp) (left right : Operand) (heap : Heap) :
    (Operation.binary op left right .pending).setup owner heap =
      let l := left.setup owner heap
      match l.outcome with
      | .ok (.resolved _) =>
        let r := right.setup owner l.heap
        match r.outcome with
        | .ok state => ⟨.ok state, .binary op l.subject r.subject state, r.heap⟩
        | .error e => ⟨.error e, .binary op l.subject r.subject .pending, r.heap⟩
      | .ok state => ⟨.ok state, .binary op l.subject right state, l.heap⟩
      | .error e => ⟨.error e, .binary op l.subject right .pending, l.heap⟩ := by
  rw [Operation.setup]
  rcases left.setup owner heap with ⟨e | s, l, h⟩
  · rfl
  · cases s with
    | resolved _ => simp only; rcases right.setup owner h with ⟨_ | _, _, _⟩ <;> rfl
    | _ => rfl

theorem Operand.setup_expression (e : Expression) (heap : Heap) :
    (Operand.expression e).setup owner heap =
      let attempt := e.setup owner heap
      ⟨attempt.outcome.map fun _ => attempt.subject.state.forget, .expression attempt.subject,
        attempt.heap⟩ := by
  rw [Operand.setup]
  rcases e.setup owner heap with ⟨_ | _, _, _⟩ <;> rfl

theorem Operand.setup_literal (v : Value) (heap : Heap) :
    (Operand.literal v).setup owner heap = ⟨.ok (.resolved ()), .literal v, heap⟩ := by
  rw [Operand.setup]

/-- An expression that was tried before is refused and left as it is. -/
theorem Expression.setup_again (e : Expression) (heap : Heap) (h : e.state.isPending = false) :
    (e.setup owner heap).subject = e ∧ (e.setup owner heap).heap = heap ∧
      ∃ message, (e.setup owner heap).outcome = .error (.internal none message) := by
  cases e with
  | path ns root hops state =>
    cases state <;> simp_all [Expression.setup, state, Resolution.isPending]
  | computed operation hops state =>
    cases state <;> simp_all [Expression.setup, state, Resolution.isPending]

/-- An operation that was tried before is refused and left as it is. -/
theorem Operation.setup_again (operation : Operation) (heap : Heap)
    (h : operation.state.isPending = false) :
    (operation.setup owner heap).subject = operation ∧ (operation.setup owner heap).heap = heap ∧
      ∃ message, (operation.setup owner heap).outcome = .error (.internal none message) := by
  cases operation with
  | negation operand state =>
    cases state <;> simp_all [Operation.setup, state, Resolution.isPending]
  | binary op left right state =>
    cases state <;> simp_all [Operation.setup, state, Resolution.isPending]

theorem Resolution.eq_pending {α : Type} {s : Resolution α} (h : s.isPending = true) :
    s = .pending := by
  cases s <;> simp_all [Resolution.isPending]

/-- Only what was not tried before is set up without an error. -/
theorem Expression.pending_of_setup_ok {e : Expression} {heap : Heap} {found : Option VarId}
    (h : (e.setup owner heap).outcome = .ok found) : e.state = .pending := by
  rcases hp : e.state.isPending with _ | _
  · obtain ⟨_, _, message, hm⟩ := Expression.setup_again owner e heap hp
    rw [hm] at h
    cases h
  · exact Resolution.eq_pending hp

/-- Only what was not tried before is set up without an error. -/
theorem Operation.pending_of_setup_ok {operation : Operation} {heap : Heap} {s : Resolution Unit}
    (h : (operation.setup owner heap).outcome = .ok s) : operation.state = .pending := by
  rcases hp : operation.state.isPending with _ | _
  · obtain ⟨_, _, message, hm⟩ := Operation.setup_again owner operation heap hp
    rw [hm] at h
    cases h
  · exact Resolution.eq_pending hp

/-- What setup of a path can do: follow it and refer to its end, or fail at either. -/
theorem Expression.setup_path_cases (ns : Namespace) (root : Hop) (hops : List Hop)
    (heap : Heap) :
    (∃ id heap₁ name heap₂, (Heap.follow ns root hops).run heap = (.ok id, heap₁) ∧
      (Heap.refer id owner).run heap₁ = (.ok name, heap₂) ∧
      (Expression.path ns root hops .pending).setup owner heap =
        ⟨.ok (some id),
          .path ns root hops (.resolved ⟨(root :: hops).map .attribute, some name⟩), heap₂⟩) ∨
    (∃ id heap₁ e heap₂, (Heap.follow ns root hops).run heap = (.ok id, heap₁) ∧
      (Heap.refer id owner).run heap₁ = (.error e, heap₂) ∧
      (Expression.path ns root hops .pending).setup owner heap =
        ⟨.error e, .path ns root hops .pending, heap₂⟩) ∨
    (∃ e heap₁ state, (Heap.follow ns root hops).run heap = (.error e, heap₁) ∧
      e.softState? = some state ∧ (Expression.path ns root hops .pending).setup owner heap =
        ⟨.ok none, .path ns root hops state, heap₁⟩) ∨
    (∃ e heap₁, (Heap.follow ns root hops).run heap = (.error e, heap₁) ∧
      e.softState? (α := Access) = none ∧ (Expression.path ns root hops .pending).setup owner heap =
        ⟨.error (e.withOwner owner), .path ns root hops .pending, heap₁⟩) := by
  rcases hf : (Heap.follow ns root hops).run heap with ⟨e | id, heap₁⟩
  · rcases hs : e.softState? (α := Access) with _ | state
    · exact .inr (.inr (.inr ⟨e, heap₁, rfl, hs, by simp only [Expression.setup, hf, hs]⟩))
    · exact .inr (.inr (.inl ⟨e, heap₁, state, rfl, hs, by simp only [Expression.setup, hf, hs]⟩))
  · rcases hr : (Heap.refer id owner).run heap₁ with ⟨e | name, heap₂⟩
    · exact .inr (.inl ⟨id, heap₁, e, heap₂, rfl, hr, by
        simp only [Expression.setup, hf, Expression.conclude, hr]⟩)
    · refine .inl ⟨id, heap₁, name, heap₂, rfl, hr, ?_⟩
      simp only [Expression.setup, hf, Expression.conclude, hr]
      rfl

/-- A soft failure is a state of failure. -/
theorem Error.softState?_failed {α : Type} {e : Error} {state : Resolution α}
    (h : e.softState? = some state) : state.isFailed ∧ state.isResolved = false := by
  unfold Error.softState? at h
  split at h
  · cases h
    exact ⟨rfl, rfl⟩
  · cases h
    exact ⟨rfl, rfl⟩
  · cases h

/-- What setup does to a path: the state changes and nothing else. -/
theorem Expression.setup_path (ns : Namespace) (root : Hop) (hops : List Hop)
    (state : Resolution Access) (heap : Heap) :
    ∃ state', ((Expression.path ns root hops state).setup owner heap).subject =
      .path ns root hops state' := by
  cases state with
  | pending =>
    rcases Expression.setup_path_cases owner ns root hops heap with
      ⟨_, _, _, _, _, _, h⟩ | ⟨_, _, _, _, _, _, h⟩ | ⟨_, _, _, _, _, h⟩ | ⟨_, _, _, _, h⟩
    all_goals exact ⟨_, by rw [h]⟩
  | _ => exact ⟨_, (Expression.setup_again owner _ heap rfl).1⟩

/-! ## What setup leaves as it was -/

mutual

/-- Setup changes states only. -/
theorem Expression.reset_setup :
    ∀ (e : Expression) (heap : Heap), (e.setup owner heap).subject.reset = e.reset
  | .path ns root hops state, heap => by
    obtain ⟨state', h⟩ := Expression.setup_path owner ns root hops state heap
    simp only [h, Expression.reset]
  | .computed operation hops state, heap => by
    cases state with
    | pending =>
      have ih := Operation.reset_setup operation heap
      rw [Expression.setup_computed]
      simp only
      split <;> simp only [Expression.reset, ih]
    | _ => rw [(Expression.setup_again owner _ heap rfl).1]

theorem Operation.reset_setup :
    ∀ (operation : Operation) (heap : Heap),
      (operation.setup owner heap).subject.reset = operation.reset
  | .negation operand state, heap => by
    cases state with
    | pending =>
      have ih := Operand.reset_setup operand heap
      rw [Operation.setup_negation]
      simp only
      split <;> simp only [Operation.reset, ih]
    | _ => rw [(Operation.setup_again owner _ heap rfl).1]
  | .binary op left right state, heap => by
    cases state with
    | pending =>
      have ihl := Operand.reset_setup left heap
      rw [Operation.setup_binary]
      simp only
      split
      · have ihr := Operand.reset_setup right (left.setup owner heap).heap
        split <;> simp only [Operation.reset, ihl, ihr]
      · simp only [Operation.reset, ihl]
      · simp only [Operation.reset, ihl]
    | _ => rw [(Operation.setup_again owner _ heap rfl).1]

theorem Operand.reset_setup :
    ∀ (operand : Operand) (heap : Heap), (operand.setup owner heap).subject.reset = operand.reset
  | .expression e, heap => by
    rw [Operand.setup_expression]
    simp only [Operand.reset, Expression.reset_setup e heap]
  | .literal v, heap => by rw [Operand.setup_literal]

end

mutual

/-- States do not show in the written form. -/
theorem Expression.text_reset : ∀ e : Expression, e.reset.text = e.text
  | .path .. => by simp only [Expression.reset, Expression.text]
  | .computed operation _ _ => by
    simp only [Expression.reset, Expression.text, Operation.text_reset operation]

theorem Operation.text_reset : ∀ operation : Operation, operation.reset.text = operation.text
  | .negation operand _ => by
    simp only [Operation.reset, Operation.text, Operand.text_reset operand]
  | .binary _ left right _ => by
    simp only [Operation.reset, Operation.text, Operand.text_reset left, Operand.text_reset right]

theorem Operand.text_reset : ∀ operand : Operand, operand.reset.text = operand.text
  | .expression e => by simp only [Operand.reset, Operand.text, Expression.text_reset e]
  | .literal _ => rfl

end

/-! ## The variables of a path -/

/-- Gives the id back, if expressions may use its variable. -/
def Heap.usable (id : VarId) : HeapAction VarId := do
  let v ← Heap.variableAt id
  match v.denied with
  | some reason => throw (.ofKind .value s!"Variable '{v.name}' can not be used here: {reason}")
  | none => return id

theorem Heap.run_step (ns : Namespace) (parent : Option VarId) (hop : Hop) (h : Heap) :
    (Heap.step ns parent hop).run h =
      (Heap.attributeVariable ns hop.name parent >>= Heap.usable).run h := rfl

/-- A variable that was referred to is there, under the name that was told. -/
theorem Heap.refer_ok {id : VarId} {heap heap' : Heap} {name : String}
    (h : (Heap.refer id owner).run heap = (.ok name, heap')) :
    ∃ v, heap'.find? id = some v ∧ v.name = name := by
  obtain ⟨_, heap₁, href, h⟩ := Step.run_bind_ok h
  obtain ⟨v, heap₂, hat, h⟩ := Step.run_bind_ok h
  rw [Heap.run_variableAt] at hat
  rcases hv : heap₁.find? id with _ | w
  · rw [hv] at hat
    cases hat
  · rw [hv] at hat
    cases hat
    cases h
    exact ⟨v, hv, rfl⟩

/-- Setup finds a variable exactly when it resolves a path, and then remembers its name. -/
theorem Expression.setup_found (e : Expression) (heap : Heap) (found : Option VarId)
    (h : (e.setup owner heap).outcome = .ok found) :
    (found.isSome ↔ (∃ ns root hops state, e = .path ns root hops state) ∧
      (e.setup owner heap).subject.state.isResolved) ∧
    ∀ id, found = some id → ∃ v, (e.setup owner heap).heap.find? id = some v ∧
      (e.setup owner heap).subject.target? = some v.name := by
  have hp := Expression.pending_of_setup_ok owner h
  cases e with
  | path ns root hops state =>
    obtain rfl : state = .pending := hp
    rcases Expression.setup_path_cases owner ns root hops heap with
      ⟨id, heap₁, name, heap₂, _, hr, hs⟩ | ⟨_, _, _, _, _, _, hs⟩ | ⟨_, _, state, _, hsoft, hs⟩ |
        ⟨_, _, _, _, hs⟩
    · simp only [hs, Except.ok.injEq] at h ⊢
      subst h
      refine ⟨by simp [Expression.state, Resolution.isResolved], ?_⟩
      rintro id' ⟨⟩
      obtain ⟨v, hv, rfl⟩ := Heap.refer_ok owner hr
      exact ⟨v, hv, rfl⟩
    · simp [hs] at h
    · simp only [hs, Except.ok.injEq] at h ⊢
      subst h
      simp [Expression.state, (Error.softState?_failed hsoft).2]
    · simp [hs] at h
  | computed operation hops state =>
    obtain rfl : state = .pending := hp
    rw [Expression.setup_computed] at h
    rcases ho : (operation.setup owner heap).outcome with error | s
    · simp [ho] at h
    · simp only [ho, Except.ok.injEq] at h
      subst h
      simp

/-! ## A heap to look at -/

/-- A path of models without calls. -/
def Expression.ofModels (root : String) (names : List String) : Expression :=
  .path .models ⟨root, none⟩ (names.map fun name => ⟨name, none⟩) .pending

/-- A company has a name and a boss, who has an age. -/
def RecordModel.sample : RecordModel :=
  ⟨"Company", .struct, [⟨"name", .plain (.scalar .str), true, none⟩,
    ⟨"boss", .plain (.model ⟨"Person", .struct, [⟨"age", .plain (.scalar .int), true, none⟩]⟩),
      true, none⟩]⟩

/-- A heap with a company. -/
def Heap.sample : Heap :=
  let v : Variable := .fresh "company" .models (.typed
    ⟨.plain (.model RecordModel.sample), .model RecordModel.sample, false, false, .direct⟩)
  (Heap.empty "rules" 10).withVariable v "company"

/-- Asks for a company. -/
def Heap.Request.company : Heap.Request :=
  .add "company" .models (.typed
    ⟨.plain (.model RecordModel.sample), .model RecordModel.sample, false, false, .direct⟩)
    none none

theorem Heap.sample_reachable : Heap.sample.Reachable :=
  ⟨"rules", 10, [Heap.Request.company], rfl⟩

end Formwork
