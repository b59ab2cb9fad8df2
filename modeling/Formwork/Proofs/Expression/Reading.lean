-- Reading a resolved expression is evaluating its tree. Reading follows what setup left behind and
-- names errors at every level; evaluation follows the tree as it was declared and names them once.
import Formwork.Proofs.Expression.Evaluate

namespace Formwork

/-! ## Expressions that are ready to be read -/

mutual

/-- Everything in the expression is resolved, and reads the hops that were declared. -/
def Expression.Ready : Expression → Prop
  | .path _ root hops state => ∃ name, state = .resolved ⟨(root :: hops).map .attribute, name⟩
  | .computed operation hops state =>
    operation.Ready ∧ state = .resolved ⟨.apply 0 :: hops.map .attribute, none⟩

/-- Everything in the operation is resolved. -/
def Operation.Ready : Operation → Prop
  | .negation operand state => operand.Ready ∧ state = .resolved ()
  | .binary _ left right state => left.Ready ∧ right.Ready ∧ state = .resolved ()

/-- Everything in the operand is resolved. -/
def Operand.Ready : Operand → Prop
  | .expression e => e.Ready
  | .literal _ => True

end

mutual

/-- Setup that resolves an expression has resolved everything in it. -/
theorem Expression.ready_setup (owner : String) :
    ∀ (e : Expression) (heap : Heap) (found : Option VarId),
      (e.setup owner heap).outcome = .ok found →
      (e.setup owner heap).subject.state.isResolved → (e.setup owner heap).subject.Ready
  | .path ns root hops state, heap, found, h, hr => by
    obtain rfl : state = .pending := Expression.pending_of_setup_ok owner h
    rcases Expression.setup_path_cases owner ns root hops heap with
      ⟨_, _, name, _, _, _, hs⟩ | ⟨_, _, _, _, _, _, hs⟩ | ⟨_, _, failed, _, hsoft, hs⟩ |
        ⟨_, _, _, _, hs⟩
    · rw [hs]
      exact ⟨some name, rfl⟩
    · simp [hs] at h
    · simp only [hs, Expression.state, (Error.softState?_failed hsoft).2] at hr
      cases hr
    · simp [hs] at h
  | .computed operation hops state, heap, found, h, hr => by
    obtain rfl : state = .pending := Expression.pending_of_setup_ok owner h
    rw [Expression.setup_computed] at h hr ⊢
    rcases ho : (operation.setup owner heap).outcome with e | s
    · simp [ho] at h
    · cases s with
      | resolved u =>
        have ih := Operation.ready_setup owner operation heap u ho
        simp only [ho]
        exact ⟨ih, rfl⟩
      | _ => simp [ho, Resolution.map, Expression.state, Resolution.isResolved] at hr

theorem Operation.ready_setup (owner : String) :
    ∀ (operation : Operation) (heap : Heap) (u : Unit),
      (operation.setup owner heap).outcome = .ok (.resolved u) →
      (operation.setup owner heap).subject.Ready
  | .negation operand state, heap, u, h => by
    obtain rfl : state = .pending := Operation.pending_of_setup_ok owner h
    rw [Operation.setup_negation] at h ⊢
    rcases ho : (operand.setup owner heap).outcome with e | s
    · simp [ho] at h
    · simp only [ho, Except.ok.injEq] at h ⊢
      subst h
      exact ⟨Operand.ready_setup owner operand heap u ho, rfl⟩
  | .binary op left right state, heap, u, h => by
    obtain rfl : state = .pending := Operation.pending_of_setup_ok owner h
    rw [Operation.setup_binary] at h ⊢
    rcases hl : (left.setup owner heap).outcome with e | s
    · simp [hl] at h
    cases s with
    | resolved v =>
      have ihl := Operand.ready_setup owner left heap v hl
      simp only [hl] at h ⊢
      rcases hr : (right.setup owner (left.setup owner heap).heap).outcome with e | s
      · simp [hr] at h
      · simp only [hr, Except.ok.injEq] at h ⊢
        subst h
        exact ⟨ihl, Operand.ready_setup owner right (left.setup owner heap).heap u hr, rfl⟩
    | _ => simp [hl] at h

theorem Operand.ready_setup (owner : String) :
    ∀ (operand : Operand) (heap : Heap) (u : Unit),
      (operand.setup owner heap).outcome = .ok (.resolved u) →
      (operand.setup owner heap).subject.Ready
  | .expression e, heap, u, h => by
    rw [Operand.setup_expression] at h ⊢
    rcases he : (e.setup owner heap).outcome with error | found
    · simp [he, Except.map] at h
    · simp only [he, Except.map, Except.ok.injEq] at h
      exact Expression.ready_setup owner e heap found he ((Resolution.forget_eq_resolved _).1 h)
  | .literal v, heap, u, _ => by
    rw [Operand.setup_literal]
    trivial

end

/-! ## Taking values -/

/-- Attributes are taken one after the other from the value at hand. -/
theorem Accessor.read_attributes (data : Data) (e : Expression)
    (applied : Nat → Except Error Value) : ∀ (hops : List Hop) (v : Value),
    (hops.map Accessor.attribute).foldlM
        (fun current accessor => some <$> accessor.read data e applied current) (some v) =
      some <$> (Hop.readAll data.functions v hops).mapError (Error.relabel e.text)
  | [], _ => rfl
  | hop :: rest, v => by
    rw [List.map_cons, List.foldlM_cons, Hop.readAll, List.foldlM_cons]
    have ih := Accessor.read_attributes data e applied rest
    simp only [Accessor.read, pure_bind]
    rcases hop.read data.functions v with error | w
    · rfl
    · exact ih w

/-- A path is read from the root of its namespace. -/
theorem Access.read_attributes (data : Data) (e : Expression) (applied : Nat → Except Error Value)
    (root : Hop) (hops : List Hop) (target : Option String) :
    Access.read data e applied ⟨(root :: hops).map .attribute, target⟩ =
      (data.root e.ns >>= fun base =>
        (Hop.readAll data.functions base (root :: hops)).mapError (Error.relabel e.text)) := by
  rw [Access.read, List.map_cons, List.foldlM_cons, Accessor.read]
  rcases data.root e.ns with error | base
  · rfl
  · show (some <$> (root.read data.functions base).mapError _ >>= _) >>= _ =
      (root.read data.functions base >>= fun v => Hop.readAll data.functions v hops).mapError _
    rcases root.read data.functions base with error | v
    · rfl
    · show ((hops.map Accessor.attribute).foldlM _ (some v) >>= _) = _
      rw [Accessor.read_attributes data e applied hops v]
      show _ = (Hop.readAll data.functions v hops).mapError _
      rcases Hop.readAll data.functions v hops with error | w <;> rfl

/-- An operation is applied first, and the attributes are those of its result. -/
theorem Access.read_apply (data : Data) (e : Expression) (applied : Nat → Except Error Value)
    (hops : List Hop) (target : Option String) :
    Access.read data e applied ⟨.apply 0 :: hops.map .attribute, target⟩ =
      (do Hop.readAll data.functions (← applied 0) hops).mapError (Error.relabel e.text) := by
  rw [Access.read, List.foldlM_cons, Accessor.read]
  rcases applied 0 with error | base
  · rfl
  · show ((hops.map Accessor.attribute).foldlM _ (some base) >>= _) = _
    rw [Accessor.read_attributes data e applied hops base]
    show _ = (Hop.readAll data.functions base hops).mapError _
    rcases Hop.readAll data.functions base hops with error | w <;> rfl

theorem Expression.read_path (data : Data) (ns : Namespace) (root : Hop) (hops : List Hop)
    (target : Option String) :
    let e := Expression.path ns root hops (.resolved ⟨(root :: hops).map .attribute, target⟩)
    e.read data = data.root ns >>= fun base =>
      (Hop.readAll data.functions base (root :: hops)).mapError (Error.relabel e.text) := by
  intro e
  rw [Expression.read]
  exact Access.read_attributes data e _ root hops target

theorem Expression.read_computed (data : Data) (operation : Operation) (hops : List Hop)
    (target : Option String) :
    let e := Expression.computed operation hops
      (.resolved ⟨.apply 0 :: hops.map .attribute, target⟩)
    e.read data =
      (do Hop.readAll data.functions (← operation.apply data) hops).mapError
        (Error.relabel e.text) := by
  intro e
  rw [Expression.read]
  exact Access.read_apply data e _ hops target

/-! ## Reading is evaluation -/

/-- The outermost expression gives an error its name. -/
@[simp] theorem Error.relabel_relabel (inner outer : String) (e : Error) :
    (e.relabel inner).relabel outer = e.relabel outer := by
  cases e <;> rfl

@[simp] theorem OperatorFault.relabel_error (inner outer : String) (op : BinaryOp)
    (left right : Value) (fault : OperatorFault) :
    (fault.error inner op left right).relabel outer =
      (fault.error outer op left right).relabel outer := by
  cases fault <;> rfl

/-- Two results that differ at most in the expression that an error of evaluation names. -/
def SameReading {α : Type} (x y : Except Error α) : Prop :=
  ∀ expression, x.mapError (Error.relabel expression) = y.mapError (Error.relabel expression)

namespace SameReading

variable {α β : Type} {x y : Except Error α}

theorem refl (x : Except Error α) : SameReading x x := fun _ => rfl

theorem bind (h : SameReading x y) {f g : α → Except Error β}
    (hf : ∀ a, SameReading (f a) (g a)) : SameReading (x >>= f) (y >>= g) := by
  intro expression
  have he := h expression
  rcases x with e | a <;> rcases y with e' | b <;>
    simp only [except_mapError_ok, except_mapError_error, Except.ok.injEq, Except.error.injEq,
      reduceCtorEq] at he
  · simp only [Bind.bind, Except.bind, except_mapError_error, he]
  · subst he
    exact hf a expression

/-- Naming another expression is no difference. -/
theorem relabel (h : SameReading x y) (inner : String) :
    SameReading (x.mapError (Error.relabel inner)) y := by
  intro expression
  rw [← h expression]
  cases x <;> simp [except_mapError_ok, except_mapError_error]

end SameReading

mutual

/-- Reading and evaluation agree but for the expression that an error names. -/
theorem Expression.read_evaluate (data : Data) :
    ∀ e : Expression, e.Ready → SameReading (e.read data) (e.evaluate data)
  | .path ns root hops state, h => by
    obtain ⟨name, rfl⟩ := h
    rw [Expression.read_path, Expression.evaluate]
    exact (SameReading.refl _).bind fun base => (SameReading.refl _).relabel _
  | .computed operation hops state, h => by
    obtain ⟨hop, rfl⟩ := h
    rw [Expression.read_computed, Expression.evaluate]
    exact ((Operation.apply_evaluate data operation hop).bind fun base =>
      SameReading.refl _).relabel _

theorem Operation.apply_evaluate (data : Data) :
    ∀ operation : Operation, operation.Ready →
      SameReading (operation.apply data) (operation.evaluate data)
  | .negation operand state, h => by
    obtain ⟨hoperand, rfl⟩ := h
    rw [Operation.apply, Operation.evaluate]
    exact (Operand.read_evaluate data operand hoperand).bind fun v => SameReading.refl _
  | .binary op left right state, h => by
    obtain ⟨hl, hr, rfl⟩ := h
    rw [Operation.apply, Operation.evaluate]
    refine (Operand.read_evaluate data left hl).bind fun l =>
      (Operand.read_evaluate data right hr).bind fun r => ?_
    intro expression
    rcases op.apply l r with fault | v
    · simp only [except_mapError_error, OperatorFault.relabel_error _ expression]
    · rfl

theorem Operand.read_evaluate (data : Data) :
    ∀ operand : Operand, operand.Ready →
      SameReading (operand.read data) (operand.evaluate data)
  | .expression e, h => Expression.read_evaluate data e h
  | .literal _, _ => SameReading.refl _

end

/-- Reading reports what goes wrong in an evaluation. -/
theorem Expression.read_eq (data : Data) (e : Expression) (h : e.Ready) :
    e.read data = (e.evaluate data).mapError (e.report data) := by
  cases e with
  | path ns root hops state =>
    obtain ⟨name, rfl⟩ := h
    rw [Expression.read_path]
    simp only [Expression.evaluate, Expression.report, Data.root]
    rcases data.root? ns with _ | base <;> rfl
  | computed operation hops state =>
    obtain ⟨hop, rfl⟩ := h
    rw [Expression.read_computed, Expression.evaluate]
    exact ((Operation.apply_evaluate data operation hop).bind fun base => SameReading.refl _) _

/-! ## The law -/

/-- Reading is evaluation. Whatever setup resolved an expression, reading gives the value of its
tree. When there is none, the error is that of the first step that fails, from left to right,
reported for the whole expression. Neither the heap nor the owner nor the root of a namespace that
no leaf is in has a part in it. -/
theorem reading_is_evaluation (owner : String) (e : Expression) (heap : Heap)
    (found : Option VarId) (hok : (e.setup owner heap).outcome = .ok found)
    (hresolved : (e.setup owner heap).subject.state.isResolved) (data : Data) :
    let e' := (e.setup owner heap).subject
    e'.read data = (e.evaluate data).mapError (e.report data) ∧
      (∀ error, e'.read data = .error error →
        ∃ before step after held cause, e.steps = before ++ step :: after ∧
          ReadStep.runAll data [] before = .ok held ∧
          ReadStep.run data held step = .error cause ∧ error = e.report data cause) ∧
      ∀ otherOwner otherHeap otherFound other,
        (e.setup otherOwner otherHeap).outcome = .ok otherFound →
        (e.setup otherOwner otherHeap).subject.state.isResolved →
        Data.Alike e.leaves data other →
        (e.setup otherOwner otherHeap).subject.read other = e'.read data := by
  -- The setup does not matter: what it leaves behind is ready and has the tree that was declared.
  have hread : ∀ owner heap found data, (e.setup owner heap).outcome = .ok found →
      (e.setup owner heap).subject.state.isResolved →
      (e.setup owner heap).subject.read data = (e.evaluate data).mapError (e.report data) := by
    intro owner heap found data hok hresolved
    have hreset := Expression.reset_setup owner e heap
    rw [Expression.read_eq data _ (Expression.ready_setup owner e heap found hok hresolved),
      ← Expression.evaluate_reset, ← Expression.report_reset, hreset, Expression.evaluate_reset,
      Expression.report_reset]
  refine ⟨hread owner heap found data hok hresolved, ?_, ?_⟩
  · intro error herror
    rw [hread owner heap found data hok hresolved] at herror
    rcases he : e.evaluate data with cause | v
    · rw [he] at herror
      have hrun : ReadStep.runAll data [] e.steps = .error cause := by
        rw [Expression.runAll_steps, he]
        rfl
      obtain ⟨before, step, after, held, hsteps, hbefore, hfails⟩ := ReadStep.runAll_error hrun
      cases herror
      exact ⟨before, step, after, held, cause, hsteps, hbefore, hfails, rfl⟩
    · rw [he] at herror
      cases herror
  · intro otherOwner otherHeap otherFound other hok' hresolved' halike
    rw [hread otherOwner otherHeap otherFound other hok' hresolved',
      hread owner heap found data hok hresolved, Expression.evaluate_alike e halike,
      Expression.report_alike e halike]

/-- `Models.company.name + " Inc."` is resolved and gives the longer name. `(Models.company.name +
1).length` is resolved too, and fails at the operator: a text and a number have no sum. -/
theorem reading_is_evaluation_of_a_sum :
    let name : Expression := .path .models ⟨"company", none⟩ [⟨"name", none⟩] .pending
    let sum (right : Value) (hops : List Hop) : Expression :=
      .computed (.binary .add (.expression name) (.literal right) .pending) hops .pending
    let long := sum (.string " Inc.") []
    let odd := sum (.integer 1) [⟨"length", none⟩]
    let data : Data := (Data.empty fun _ _ _ => .ok .null).withRoot .models
      (.record [("company", .record [("name", .string "Initech")])])
    let attempt (e : Expression) := e.setup "rule" Heap.sample
    (∀ e ∈ [long, odd], (attempt e).outcome = .ok none ∧ (attempt e).subject.state.isResolved ∧
        (attempt e).subject.read data = (e.evaluate data).mapError (e.report data)) ∧
      (attempt long).subject.read data = .ok (.string "Initech Inc.") ∧
      (attempt odd).subject.read data = .error (.evaluation "(Models.company.name + 1).length"
        "operator '+' can not be applied to str and int") := by
  intro name sum long odd data attempt
  have hlong : (attempt long).outcome = .ok none := rfl
  have hlongResolved : (attempt long).subject.state.isResolved := rfl
  obtain ⟨hlongRead, _⟩ :=
    reading_is_evaluation "rule" long Heap.sample none hlong hlongResolved data
  have hodd : (attempt odd).outcome = .ok none := rfl
  have hoddResolved : (attempt odd).subject.state.isResolved := rfl
  obtain ⟨hoddRead, _⟩ := reading_is_evaluation "rule" odd Heap.sample none hodd hoddResolved data
  exact ⟨List.forall_mem_cons.2 ⟨⟨hlong, hlongResolved, hlongRead⟩,
    List.forall_mem_singleton.2 ⟨hodd, hoddResolved, hoddRead⟩⟩, rfl, rfl⟩

end Formwork
