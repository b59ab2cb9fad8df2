-- Expressions that are used in order. The first setup of an expression is no error of the library on
-- an open heap, and what it leaves behind is honest: whatever in it says that it is resolved can be
-- read, and reading it is no error of the library either.
import Formwork.Expression.Builder
import Formwork.Proofs.Expression.Reading
import Formwork.Proofs.Heap.Open

namespace Formwork

/-! ## Expressions in expressions -/

mutual

/-- The expression and those that its operation is made of, at any depth. -/
def Expression.within : Expression → List Expression
  | .path ns root hops state => [.path ns root hops state]
  | .computed operation hops state => .computed operation hops state :: operation.within

/-- The expressions that the operation is made of. -/
def Operation.within : Operation → List Expression
  | .negation operand _ => operand.within
  | .binary _ left right _ => left.within ++ right.within

/-- The expressions that the operand is made of. -/
def Operand.within : Operand → List Expression
  | .expression e => e.within
  | .literal _ => []

end

/-- What says that it is resolved can be read. -/
def Expression.Truthful (e : Expression) : Prop := e.state.isResolved → e.Ready

/-- The expression and all those in it are truthful. -/
def Expression.Honest (e : Expression) : Prop := ∀ sub ∈ e.within, sub.Truthful

theorem Expression.mem_within (e : Expression) : e ∈ e.within := by
  cases e with
  | path => exact List.mem_singleton_self _
  | computed => exact List.mem_cons_self

mutual

/-- Everything in an expression that can be read can be read. -/
theorem Expression.Ready.within : ∀ {e : Expression}, e.Ready → ∀ sub ∈ e.within, sub.Ready
  | .path _ _ _ _, h => List.forall_mem_singleton.2 h
  | .computed _ _ _, h => List.forall_mem_cons.2 ⟨h, Operation.Ready.within h.1⟩

theorem Operation.Ready.within : ∀ {operation : Operation}, operation.Ready →
    ∀ sub ∈ operation.within, sub.Ready
  | .negation _ _, h => Operand.Ready.within h.1
  | .binary _ _ _ _, h =>
    List.forall_mem_append.2 ⟨Operand.Ready.within h.1, Operand.Ready.within h.2.1⟩

theorem Operand.Ready.within : ∀ {operand : Operand}, operand.Ready →
    ∀ sub ∈ operand.within, sub.Ready
  | .expression _, h => Expression.Ready.within h
  | .literal _, _ => List.forall_mem_nil _

end

theorem Expression.Ready.honest {e : Expression} (h : e.Ready) : e.Honest :=
  fun sub hsub _ => h.within sub hsub

mutual

/-- What was never set up does not say that it is resolved. -/
theorem Expression.Fresh.honest : ∀ {e : Expression}, e.Fresh → e.Honest
  | .path _ _ _ _, h => by
    obtain rfl := Expression.fresh_path h
    exact List.forall_mem_singleton.2 fun hr => by cases hr
  | .computed _ _ _, h => by
    obtain ⟨hoperation, rfl⟩ := Expression.fresh_computed h
    exact List.forall_mem_cons.2 ⟨fun hr => (by cases hr), Operation.Fresh.honest hoperation⟩

theorem Operation.Fresh.honest : ∀ {operation : Operation}, operation.Fresh →
    ∀ sub ∈ operation.within, sub.Truthful
  | .negation _ _, h => Operand.Fresh.honest (Operation.fresh_negation h).1
  | .binary _ _ _ _, h => by
    obtain ⟨hleft, hright, _⟩ := Operation.fresh_binary h
    exact List.forall_mem_append.2 ⟨Operand.Fresh.honest hleft, Operand.Fresh.honest hright⟩

theorem Operand.Fresh.honest : ∀ {operand : Operand}, operand.Fresh →
    ∀ sub ∈ operand.within, sub.Truthful
  | .expression _, h => Expression.Fresh.honest (Operand.fresh_expression h)
  | .literal _, _ => List.forall_mem_nil _

end

mutual

/-- The first setup of an expression leaves honest expressions behind, whatever comes of it. -/
theorem Expression.Fresh.honest_setup (owner : String) : ∀ {e : Expression} (heap : Heap), e.Fresh →
    (e.setup owner heap).subject.Honest
  | .path ns root hops state, heap, h => by
    obtain rfl := Expression.fresh_path h
    rcases Expression.setup_path_cases owner ns root hops heap with
      ⟨_, _, name, _, _, _, hs⟩ | ⟨_, _, _, _, _, _, hs⟩ | ⟨_, _, failed, _, hsoft, hs⟩ |
        ⟨_, _, _, _, hs⟩ <;> rw [hs] <;> refine List.forall_mem_singleton.2 fun hr => ?_
    · exact ⟨some name, rfl⟩
    · cases hr
    · rw [Expression.state, (Error.softState?_failed hsoft).2] at hr
      cases hr
    · cases hr
  | .computed operation hops state, heap, h => by
    obtain ⟨hoperation, rfl⟩ := Expression.fresh_computed h
    have hinside := Operation.Fresh.honest_setup owner heap hoperation
    have hready := Expression.ready_setup owner (.computed operation hops .pending) heap none
    rw [Expression.setup_computed] at hready ⊢
    rcases ho : (operation.setup owner heap).outcome with e | s
    · simp only [ho]
      exact List.forall_mem_cons.2 ⟨fun hr => (by cases hr), hinside⟩
    · simp only [ho] at hready ⊢
      exact List.forall_mem_cons.2 ⟨hready trivial, hinside⟩

theorem Operation.Fresh.honest_setup (owner : String) : ∀ {operation : Operation} (heap : Heap),
    operation.Fresh → ∀ sub ∈ (operation.setup owner heap).subject.within, sub.Truthful
  | .negation operand state, heap, h => by
    obtain ⟨hoperand, rfl⟩ := Operation.fresh_negation h
    have hinside := Operand.Fresh.honest_setup owner heap hoperand
    rw [Operation.setup_negation]
    dsimp only
    split <;> exact hinside
  | .binary op left right state, heap, h => by
    obtain ⟨hleft, hright, rfl⟩ := Operation.fresh_binary h
    have hfirst := Operand.Fresh.honest_setup owner heap hleft
    have hsecond := Operand.Fresh.honest_setup owner (left.setup owner heap).heap hright
    rw [Operation.setup_binary]
    dsimp only
    split
    · split <;> exact List.forall_mem_append.2 ⟨hfirst, hsecond⟩
    · exact List.forall_mem_append.2 ⟨hfirst, hright.honest⟩
    · exact List.forall_mem_append.2 ⟨hfirst, hright.honest⟩

theorem Operand.Fresh.honest_setup (owner : String) : ∀ {operand : Operand} (heap : Heap),
    operand.Fresh → ∀ sub ∈ (operand.setup owner heap).subject.within, sub.Truthful
  | .expression _, heap, h => by
    rw [Operand.setup_expression]
    exact Expression.Fresh.honest_setup owner heap (Operand.fresh_expression h)
  | .literal v, heap, _ => by
    rw [Operand.setup_literal]
    exact List.forall_mem_nil _

end

/-! ## Calls -/

/-- No path is empty, so there is something to call, or an operation that can not be called. -/
theorem Expression.call_inOrder (e : Expression) (c : CallArgs) : InOrder (e.call c) := by
  have hparts : e.parts ≠ [] := by cases e <;> nofun
  unfold Expression.call
  split
  · rename_i hnone
    exact absurd (List.getLast?_eq_none_iff.1 hnone) hparts
  · exact inOrder_error rfl
  · split
    · exact inOrder_error rfl
    · exact inOrder_ok _

/-! ## Setup -/

theorem Expression.setup_open (owner : String) (e : Expression) {h : Heap} (ho : h.Open) :
    (e.setup owner h).heap.Open :=
  ho.uses (e.uses_setup owner h ho.sound)

theorem Operand.setup_open (owner : String) (operand : Operand) {h : Heap} (ho : h.Open) :
    (operand.setup owner h).heap.Open :=
  ho.uses (operand.uses_setup owner h ho.sound)

mutual

/-- The first setup of an expression is no error of the library. -/
theorem Expression.Fresh.setup_inOrder (owner : String) : ∀ {e : Expression} {h : Heap}, e.Fresh →
    h.Open → InOrder (e.setup owner h).outcome
  | .path ns root hops state, h, hfresh, ho => by
    obtain rfl := Expression.fresh_path hfresh
    obtain ⟨hkeeps, hfollow, husable⟩ := Heap.orderly_follow ho ns root hops
    -- The path is found, or found but not to be referred to, or left unresolved, or fails.
    rcases Expression.setup_path_cases owner ns root hops h with
      ⟨_, _, _, _, _, _, hs⟩ | ⟨id, _, e, _, hf, hr, hs⟩ | ⟨_, _, _, _, _, hs⟩ |
        ⟨e, _, hf, _, hs⟩ <;> rw [hs]
    · exact inOrder_ok _
    · rw [hf] at hkeeps husable
      have hrefer := (Heap.orderly_refer hkeeps (husable id rfl) owner).inOrder
      rw [hr] at hrefer
      exact inOrder_error (hrefer e rfl)
    · exact inOrder_ok _
    · rw [hf] at hfollow
      exact inOrder_error ((Error.isInternal_withOwner owner e).trans (hfollow e rfl))
  | .computed operation hops state, h, hfresh, ho => by
    obtain ⟨hoperation, rfl⟩ := Expression.fresh_computed hfresh
    have hin := Operation.Fresh.setup_inOrder owner hoperation ho
    rw [Expression.setup_computed]
    dsimp only
    split
    · exact inOrder_ok _
    · rename_i e hs
      exact inOrder_error (hin e hs)

theorem Operation.Fresh.setup_inOrder (owner : String) : ∀ {operation : Operation} {h : Heap},
    operation.Fresh → h.Open → InOrder (operation.setup owner h).outcome
  | .negation operand state, h, hfresh, ho => by
    obtain ⟨hoperand, rfl⟩ := Operation.fresh_negation hfresh
    have hin := Operand.Fresh.setup_inOrder owner hoperand ho
    rw [Operation.setup_negation]
    dsimp only
    split
    · exact inOrder_ok _
    · rename_i e hs
      exact inOrder_error (hin e hs)
  | .binary op left right state, h, hfresh, ho => by
    obtain ⟨hleft, hright, rfl⟩ := Operation.fresh_binary hfresh
    have hfirst := Operand.Fresh.setup_inOrder owner hleft ho
    -- The right operand meets the heap that the left one leaves, which is still open.
    have hsecond := Operand.Fresh.setup_inOrder owner hright (left.setup_open owner ho)
    rw [Operation.setup_binary]
    dsimp only
    split
    · split
      · exact inOrder_ok _
      · rename_i e hs
        exact inOrder_error (hsecond e hs)
    · exact inOrder_ok _
    · rename_i e hs
      exact inOrder_error (hfirst e hs)

theorem Operand.Fresh.setup_inOrder (owner : String) : ∀ {operand : Operand} {h : Heap},
    operand.Fresh → h.Open → InOrder (operand.setup owner h).outcome
  | .expression _, _, hfresh, ho => by
    rw [Operand.setup_expression]
    exact (Expression.Fresh.setup_inOrder owner (Operand.fresh_expression hfresh) ho).map _
  | .literal _, _, _, _ => by
    rw [Operand.setup_literal]
    exact inOrder_ok _

end

/-- A path that was tried and is not resolved has failed, and its error says how. -/
theorem Expression.unresolvedError_setup {owner : String} {e : Expression} {h : Heap}
    {found : Option VarId} (hns : e.ns = .models) (ho : (e.setup owner h).outcome = .ok found)
    (hr : (e.setup owner h).subject.state.isResolved = false) :
    (e.setup owner h).subject.unresolvedError.isInternal = false := by
  have hpending := Expression.pending_of_setup_ok owner ho
  cases e with
  | path ns root hops state =>
    obtain rfl : state = .pending := hpending
    rcases Expression.setup_path_cases owner ns root hops h with
      ⟨_, _, _, _, _, _, hs⟩ | ⟨_, _, _, _, _, _, hs⟩ | ⟨error, _, state, _, hsoft, hs⟩ |
        ⟨_, _, _, _, hs⟩ <;> rw [hs] at ho hr ⊢
    · cases hr
    · cases ho
    · cases state with
      | notFound | unsupported => rfl
      | _ => cases (Error.softState?_failed hsoft).1
    · cases ho
  | computed => cases hns

/-- A path that finds no variable is not resolved. -/
theorem Expression.unresolvedError_of_none {owner : String} {e : Expression} {h : Heap}
    (hns : e.ns = .models) (ho : (e.setup owner h).outcome = .ok none) :
    (e.setup owner h).subject.unresolvedError.isInternal = false := by
  refine Expression.unresolvedError_setup hns ho ?_
  obtain ⟨hiff, _⟩ := Expression.setup_found owner e h none ho
  cases e with
  | path ns root hops state =>
    have hnot := mt hiff.2 (by simp)
    simpa using hnot
  | computed => cases hns

/-- A path that is resolved leads to a variable by its name. -/
theorem Expression.target?_of_resolved {owner : String} {e : Expression} {h : Heap}
    {found : Option VarId} (hns : e.ns = .models) (ho : (e.setup owner h).outcome = .ok found)
    (hr : (e.setup owner h).subject.state.isResolved) :
    ∃ name, (e.setup owner h).subject.target? = some name := by
  obtain ⟨hiff, htarget⟩ := Expression.setup_found owner e h found ho
  cases e with
  | path ns root hops state =>
    obtain ⟨id, rfl⟩ := Option.isSome_iff_exists.1 (hiff.2 ⟨⟨ns, root, hops, state, rfl⟩, hr⟩)
    obtain ⟨v, _, ht⟩ := htarget id rfl
    exact ⟨v.name, ht⟩
  | computed => cases hns

theorem Heap.byExpression_inOrder {h : Heap} {e : Expression} {name : String}
    (ht : e.target? = some name) : InOrder (h.byExpression e) := by
  unfold Heap.byExpression Heap.named
  rw [ht]
  dsimp only
  split
  · exact inOrder_ok _
  · exact inOrder_error rfl

/-! ## Reading -/

/-- None of the functions ends in an error of the library. -/
def Data.Orderly (data : Data) : Prop := ∀ id args named, InOrder (data.functions id args named)

theorem Data.root_inOrder (data : Data) (ns : Namespace) : InOrder (data.root ns) := by
  unfold Data.root
  split
  · exact inOrder_ok _
  · exact inOrder_error rfl

theorem Value.getAttr_inOrder (name : String) (v : Value) : InOrder (v.getAttr name) := by
  unfold Value.getAttr
  split
  · split
    · exact inOrder_ok _
    · exact inOrder_error rfl
  · exact inOrder_error rfl

variable {data : Data}

theorem Value.call_inOrder (hd : data.Orderly) (args : List Value) (named : Ordered Value)
    (v : Value) : InOrder (v.call data.functions args named) := by
  unfold Value.call
  split
  · exact hd _ _ _
  · exact inOrder_error rfl

theorem Hop.read_inOrder (hd : data.Orderly) (base : Value) (hop : Hop) :
    InOrder (hop.read data.functions base) := by
  unfold Hop.read
  refine (Value.getAttr_inOrder _ _).bind fun v _ => ?_
  split
  · exact Value.call_inOrder hd _ _ _
  · exact inOrder_ok _

theorem Hop.readAll_inOrder (hd : data.Orderly) : ∀ (hops : List Hop) (base : Value),
    InOrder (Hop.readAll data.functions base hops)
  | [], base => inOrder_ok base
  | hop :: rest, base => by
    unfold Hop.readAll
    rw [List.foldlM_cons]
    exact (Hop.read_inOrder hd base hop).bind fun v _ => Hop.readAll_inOrder hd rest v

theorem Error.isInternal_relabel (expression : String) (e : Error) :
    (e.relabel expression).isInternal = e.isInternal := by
  cases e <;> rfl

theorem OperatorFault.isInternal_error (operation : String) (op : BinaryOp) (left right : Value)
    (fault : OperatorFault) : (fault.error operation op left right).isInternal = false := by
  cases fault <;> rfl

mutual

/-- Reading what is resolved is no error of the library. -/
theorem Expression.Ready.read_inOrder (hd : data.Orderly) : ∀ {e : Expression}, e.Ready →
    InOrder (e.read data)
  | .path ns root hops state, h => by
    obtain ⟨name, rfl⟩ := h
    rw [Expression.read_path]
    refine (data.root_inOrder ns).bind fun base _ => ?_
    exact (Hop.readAll_inOrder hd _ base).mapError (Error.isInternal_relabel _)
  | .computed operation hops state, h => by
    obtain ⟨hoperation, rfl⟩ := h
    rw [Expression.read_computed]
    refine InOrder.mapError ?_ (Error.isInternal_relabel _)
    exact (Operation.Ready.apply_inOrder hd hoperation).bind fun base _ =>
      Hop.readAll_inOrder hd _ base

theorem Operation.Ready.apply_inOrder (hd : data.Orderly) : ∀ {operation : Operation},
    operation.Ready → InOrder (operation.apply data)
  | .negation operand state, h => by
    obtain ⟨hoperand, rfl⟩ := h
    rw [Operation.apply]
    exact (Operand.Ready.read_inOrder hd hoperand).bind fun v _ => inOrder_ok _
  | .binary op left right state, h => by
    obtain ⟨hleft, hright, rfl⟩ := h
    rw [Operation.apply]
    refine (Operand.Ready.read_inOrder hd hleft).bind fun l _ =>
      (Operand.Ready.read_inOrder hd hright).bind fun r _ => ?_
    rcases op.apply l r with fault | v
    · exact inOrder_error (fault.isInternal_error _ op l r)
    · exact inOrder_ok v

theorem Operand.Ready.read_inOrder (hd : data.Orderly) : ∀ {operand : Operand}, operand.Ready →
    InOrder (operand.read data)
  | .expression _, h => Expression.Ready.read_inOrder hd h
  | .literal v, _ => inOrder_ok v

end

/-- Reading an expression that says that it is resolved is no error of the library. -/
theorem Expression.Truthful.read_inOrder {e : Expression} (h : e.Truthful) (hd : data.Orderly)
    (hr : e.state.isResolved) : InOrder (e.read data) :=
  (h hr).read_inOrder hd

end Formwork
