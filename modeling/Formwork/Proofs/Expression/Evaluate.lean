-- The value of an expression, by its tree alone: hop by hop from the root of a namespace, operands
-- from left to right. It comes in two forms, as a value of the tree and as steps taken one after
-- the other, so that the first step that fails has a place.
import Formwork.Expression.Read
import Formwork.Proofs.Expression.Leaves

namespace Formwork

/-! ## The value of a tree -/

mutual

/-- The value of an expression, by its tree alone. States have no part in it. -/
def Expression.evaluate (data : Data) : Expression → Except Error Value
  | .path ns root hops _ => do Hop.readAll data.functions (← data.root ns) (root :: hops)
  | .computed operation hops _ => do
    Hop.readAll data.functions (← operation.evaluate data) hops

/-- The value of an operation: the first operand, then always the second, then the operator. -/
def Operation.evaluate (data : Data) : Operation → Except Error Value
  | .negation operand _ => do return .boolean !(← operand.evaluate data).isTruthy
  | .binary op left right _ => do
    let l ← left.evaluate data
    let r ← right.evaluate data
    (op.apply l r).mapError (OperatorFault.error op.code op l r)

/-- The value of an operand. -/
def Operand.evaluate (data : Data) : Operand → Except Error Value
  | .expression e => e.evaluate data
  | .literal v => .ok v

end

/-- How reading an expression reports what went wrong: under the text of the expression, unless it
is a path whose namespace has no root. -/
def Expression.report (data : Data) (e : Expression) : Error → Error :=
  match e with
  | .path ns _ _ _ => if (data.root? ns).isSome then Error.relabel e.text else id
  | .computed _ _ _ => Error.relabel e.text

/-! ## The steps of an evaluation -/

/-- A single step. It works on the values that are at hand, the newest first. -/
inductive ReadStep where
  | root (ns : Namespace)
  | attr (name : String)
  | call (c : CallArgs)
  | literal (v : Value)
  | negate
  | combine (op : BinaryOp)

/-- Takes a step. -/
def ReadStep.run (data : Data) (values : List Value) (step : ReadStep) :
    Except Error (List Value) :=
  match step, values with
  | .root ns, values => return (← data.root ns) :: values
  | .attr name, v :: values => return (← v.getAttr name) :: values
  | .call c, v :: values => return (← v.call data.functions c.args c.named) :: values
  | .literal v, values => return v :: values
  | .negate, v :: values => return .boolean (!v.isTruthy) :: values
  | .combine op, r :: l :: values => do
    let v ← (op.apply l r).mapError (OperatorFault.error op.code op l r)
    return v :: values
  | _, _ => .error (.internal none "No value at hand")

/-- The steps of a hop: the attribute, then the call if there is one. -/
def Hop.steps (hop : Hop) : List ReadStep :=
  .attr hop.name :: hop.call.toList.map .call

mutual

/-- The steps of an expression, left to right. -/
def Expression.steps : Expression → List ReadStep
  | .path ns root hops _ => .root ns :: (root :: hops).flatMap Hop.steps
  | .computed operation hops _ => operation.steps ++ hops.flatMap Hop.steps

/-- The steps of an operation, left to right; the operator comes last. -/
def Operation.steps : Operation → List ReadStep
  | .negation operand _ => operand.steps ++ [.negate]
  | .binary op left right _ => left.steps ++ right.steps ++ [.combine op]

/-- The steps of an operand. -/
def Operand.steps : Operand → List ReadStep
  | .expression e => e.steps
  | .literal v => [.literal v]

end

/-- Takes steps one after the other, up to the first that fails. -/
def ReadStep.runAll (data : Data) (values : List Value) (steps : List ReadStep) :
    Except Error (List Value) :=
  steps.foldlM (ReadStep.run data) values

theorem ReadStep.runAll_append (data : Data) (values : List Value) (xs ys : List ReadStep) :
    ReadStep.runAll data values (xs ++ ys) =
      ReadStep.runAll data values xs >>= fun values => ReadStep.runAll data values ys :=
  List.foldlM_append

theorem ReadStep.runAll_cons (data : Data) (values : List Value) (x : ReadStep)
    (xs : List ReadStep) :
    ReadStep.runAll data values (x :: xs) =
      ReadStep.run data values x >>= fun values => ReadStep.runAll data values xs :=
  List.foldlM_cons

/-- A run that fails does so at one of its steps, after all the steps before it went well. -/
theorem ReadStep.runAll_error {data : Data} {steps : List ReadStep} {values : List Value}
    {cause : Error} (h : ReadStep.runAll data values steps = .error cause) :
    ∃ before step after held, steps = before ++ step :: after ∧
      ReadStep.runAll data values before = .ok held ∧
      ReadStep.run data held step = .error cause := by
  induction steps generalizing values with
  | nil => cases h
  | cons step rest ih =>
    rw [ReadStep.runAll_cons] at h
    rcases hs : ReadStep.run data values step with e | held
    · rw [hs] at h
      cases h
      exact ⟨[], step, rest, values, rfl, rfl, hs⟩
    · rw [hs] at h
      obtain ⟨before, failing, after, last, rfl, hbefore, hfails⟩ := ih h
      refine ⟨step :: before, failing, after, last, rfl, ?_, hfails⟩
      rw [ReadStep.runAll_cons, hs]
      exact hbefore

theorem Hop.runAll_steps (data : Data) (v : Value) (values : List Value) (hop : Hop) :
    ReadStep.runAll data (v :: values) hop.steps =
      (Hop.read data.functions v hop).map (· :: values) := by
  rcases hop with ⟨name, _ | c⟩
  · simp only [Hop.steps, Hop.read, Option.toList, List.map_nil, ReadStep.runAll_cons,
      ReadStep.run]
    cases v.getAttr name <;> rfl
  · simp only [Hop.steps, Hop.read, Option.toList, List.map_cons, List.map_nil,
      ReadStep.runAll_cons, ReadStep.run]
    rcases v.getAttr name with e | w
    · rfl
    · simp only [bind, Except.bind, pure, Except.pure]
      cases w.call data.functions c.args c.named <;> rfl

theorem Hop.runAll_flatMap_steps (data : Data) (v : Value) (values : List Value)
    (hops : List Hop) :
    ReadStep.runAll data (v :: values) (hops.flatMap Hop.steps) =
      (Hop.readAll data.functions v hops).map (· :: values) := by
  induction hops generalizing v with
  | nil => rfl
  | cons hop rest ih =>
    rw [List.flatMap_cons, ReadStep.runAll_append, Hop.runAll_steps, Hop.readAll, List.foldlM_cons]
    rcases Hop.read data.functions v hop with e | w
    · rfl
    · exact ih w

mutual

/-- The steps of an expression add its value to those at hand. -/
theorem Expression.runAll_steps (data : Data) :
    ∀ (e : Expression) (values : List Value),
      ReadStep.runAll data values e.steps = (e.evaluate data).map (· :: values)
  | .path ns root hops _, values => by
    rw [Expression.steps, ReadStep.runAll_cons, Expression.evaluate]
    simp only [ReadStep.run]
    rcases data.root ns with e | v
    · rfl
    · exact Hop.runAll_flatMap_steps data v values (root :: hops)
  | .computed operation hops _, values => by
    rw [Expression.steps, ReadStep.runAll_append, Operation.runAll_steps data operation values,
      Expression.evaluate]
    rcases operation.evaluate data with e | v
    · rfl
    · exact Hop.runAll_flatMap_steps data v values hops

theorem Operation.runAll_steps (data : Data) :
    ∀ (operation : Operation) (values : List Value),
      ReadStep.runAll data values operation.steps =
        (operation.evaluate data).map (· :: values)
  | .negation operand _, values => by
    rw [Operation.steps, ReadStep.runAll_append, Operand.runAll_steps data operand values,
      Operation.evaluate]
    cases operand.evaluate data <;> rfl
  | .binary op left right _, values => by
    rw [Operation.steps, ReadStep.runAll_append, ReadStep.runAll_append,
      Operand.runAll_steps data left values, Operation.evaluate]
    rcases left.evaluate data with e | l
    · rfl
    simp only [bind, Except.bind, Except.map]
    rw [Operand.runAll_steps data right (l :: values)]
    rcases right.evaluate data with e | r
    · rfl
    simp only [Except.map, ReadStep.runAll_cons, ReadStep.run]
    cases op.apply l r <;> rfl

theorem Operand.runAll_steps (data : Data) :
    ∀ (operand : Operand) (values : List Value),
      ReadStep.runAll data values operand.steps = (operand.evaluate data).map (· :: values)
  | .expression e, values => Expression.runAll_steps data e values
  | .literal _, _ => rfl

end

/-! ## What evaluation depends on -/

/-- Two sets of data that look alike to the leaves: the same functions, and the same roots of the
namespaces of the leaves. -/
structure Data.Alike (leaves : List Leaf) (data other : Data) : Prop where
  functions : other.functions = data.functions
  roots : ∀ leaf ∈ leaves, other.root? leaf.ns = data.root? leaf.ns

theorem Data.Alike.of_append {xs ys : List Leaf} {data other : Data}
    (h : Data.Alike (xs ++ ys) data other) :
    Data.Alike xs data other ∧ Data.Alike ys data other :=
  ⟨⟨h.functions, fun leaf hl => h.roots leaf (List.mem_append_left _ hl)⟩,
    ⟨h.functions, fun leaf hl => h.roots leaf (List.mem_append_right _ hl)⟩⟩

mutual

theorem Expression.evaluate_alike {data other : Data} : ∀ (e : Expression),
    Data.Alike e.leaves data other → e.evaluate other = e.evaluate data
  | .path ns root hops state, h => by
    have hroot : other.root? ns = data.root? ns :=
      h.roots ⟨ns, root, hops, state⟩ (List.mem_singleton.2 rfl)
    simp only [Expression.evaluate, Data.root, hroot, h.functions]
  | .computed operation hops _, h => by
    simp only [Expression.evaluate, Operation.evaluate_alike operation h, h.functions]

theorem Operation.evaluate_alike {data other : Data} : ∀ (operation : Operation),
    Data.Alike operation.leaves data other → operation.evaluate other = operation.evaluate data
  | .negation operand _, h => by
    simp only [Operation.evaluate, Operand.evaluate_alike operand h]
  | .binary _ left right _, h => by
    obtain ⟨hl, hr⟩ := Data.Alike.of_append h
    simp only [Operation.evaluate, Operand.evaluate_alike left hl, Operand.evaluate_alike right hr]

theorem Operand.evaluate_alike {data other : Data} : ∀ (operand : Operand),
    Data.Alike operand.leaves data other → operand.evaluate other = operand.evaluate data
  | .expression e, h => Expression.evaluate_alike e h
  | .literal _, _ => rfl

end

theorem Expression.report_alike {data other : Data} (e : Expression)
    (h : Data.Alike e.leaves data other) : e.report other = e.report data := by
  cases e with
  | path ns root hops state =>
    have hroot : other.root? ns = data.root? ns :=
      h.roots ⟨ns, root, hops, state⟩ (List.mem_singleton.2 rfl)
    simp only [Expression.report, hroot]
  | computed operation hops state => rfl

mutual

theorem Expression.evaluate_reset (data : Data) :
    ∀ e : Expression, e.reset.evaluate data = e.evaluate data
  | .path .. => by simp only [Expression.reset, Expression.evaluate]
  | .computed operation _ _ => by
    simp only [Expression.reset, Expression.evaluate, Operation.evaluate_reset data operation]

theorem Operation.evaluate_reset (data : Data) :
    ∀ operation : Operation, operation.reset.evaluate data = operation.evaluate data
  | .negation operand _ => by
    simp only [Operation.reset, Operation.evaluate, Operand.evaluate_reset data operand]
  | .binary _ left right _ => by
    simp only [Operation.reset, Operation.evaluate, Operand.evaluate_reset data left,
      Operand.evaluate_reset data right]

theorem Operand.evaluate_reset (data : Data) :
    ∀ operand : Operand, operand.reset.evaluate data = operand.evaluate data
  | .expression e => by
    simp only [Operand.reset, Operand.evaluate, Expression.evaluate_reset data e]
  | .literal _ => rfl

end

theorem Expression.report_reset (data : Data) (e : Expression) :
    e.reset.report data = e.report data := by
  have ht := Expression.text_reset e
  cases e <;> simp only [Expression.reset, Expression.report] at ht ⊢ <;> rw [ht]

end Formwork
