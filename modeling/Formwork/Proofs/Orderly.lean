-- Results and steps that are in order. An error of the library itself says that the library was used
-- out of order; a result is in order if it is no such error. A step is orderly at a state if it
-- leaves a state that can be gone on with, its outcome is in order, and its result is as promised.
import Formwork.Proofs.Run

namespace Formwork

/-! ## Errors -/

@[simp] theorem Error.isInternal_ofKind (kind : SetupKind) (message : String) :
    (Error.ofKind kind message).isInternal = false := rfl

/-- Naming the owner of an error does not change what kind of error it is. -/
@[simp] theorem Error.isInternal_withOwner (name : String) (e : Error) :
    (e.withOwner name).isInternal = e.isInternal := by
  cases e with
  | setup _ owner _ => cases owner <;> rfl
  | unknownName owner _ _ => cases owner <;> rfl
  | internal owner _ => cases owner <;> rfl
  | _ => rfl

theorem Error.isInternal_of_kindName {e : Error} (h : e.kindName ≠ "Internal") :
    e.isInternal = false := by
  cases e with
  | internal => exact absurd rfl h
  | _ => rfl

/-! ## Results -/

section Results

variable {α β : Type}

/-- The result is no error of the library itself. -/
def InOrder (result : Except Error α) : Prop := ∀ e, result = .error e → e.isInternal = false

theorem inOrder_ok (a : α) : InOrder (.ok a) := fun _ h => by cases h

theorem inOrder_error {e : Error} (h : e.isInternal = false) :
    InOrder (.error e : Except Error α) := fun _ he => by
  cases he
  exact h

theorem InOrder.bind {x : Except Error α} {f : α → Except Error β} (hx : InOrder x)
    (hf : ∀ a, x = .ok a → InOrder (f a)) : InOrder (x >>= f) := by
  rcases x with e | a
  · exact inOrder_error (hx e rfl)
  · exact hf a rfl

theorem InOrder.map {x : Except Error α} (hx : InOrder x) (f : α → β) : InOrder (x.map f) := by
  rcases x with e | a
  · exact inOrder_error (hx e rfl)
  · exact inOrder_ok (f a)

theorem InOrder.mapError {x : Except Error α} (hx : InOrder x) {f : Error → Error}
    (hf : ∀ e, (f e).isInternal = e.isInternal) : InOrder (x.mapError f) := by
  rcases x with e | a
  · exact inOrder_error ((hf e).trans (hx e rfl))
  · exact inOrder_ok a

theorem inOrder_option {f : α → Except Error β} {o : Option α} (h : ∀ a ∈ o, InOrder (f a)) :
    InOrder (o.mapM f) := by
  cases o with
  | none => exact inOrder_ok none
  | some a =>
    rw [Option.mapM_some]
    exact (h a rfl).map some

end Results

/-! ## Steps -/

section Steps

variable {σ α β : Type} {inv : σ → Prop} {s s' : σ}

/-- Whatever comes of the step it leaves a state as `inv` says, an error is not one of the library
itself, and a result is as `Q` says. -/
structure Orderly (inv : σ → Prop) (step : Step σ α) (s : σ) (Q : α → σ → Prop) : Prop where
  keeps : inv (step.run s).2
  inOrder : InOrder (step.run s).1
  result : ∀ a, (step.run s).1 = .ok a → Q a (step.run s).2

variable {step : Step σ α} {P Q : α → σ → Prop}

/-- Two runs that come to the same are orderly together. -/
theorem Orderly.of_run_eq {step' : Step σ α} (h : Orderly inv step s Q)
    (hrun : step'.run s' = step.run s) : Orderly inv step' s' Q := by
  obtain ⟨hs, hin, hQ⟩ := h
  refine ⟨?_, ?_, ?_⟩ <;> rw [hrun] <;> assumption

theorem orderly_of_ok {a : α} (hr : step.run s = (.ok a, s')) (hs : inv s') (hQ : Q a s') :
    Orderly inv step s Q := by
  refine ⟨by rw [hr]; exact hs, by rw [hr]; exact inOrder_ok a, fun b hb => ?_⟩
  rw [hr] at hb ⊢
  cases hb
  exact hQ

theorem orderly_of_error {e : Error} (hr : step.run s = (.error e, s')) (hs : inv s')
    (he : e.isInternal = false) : Orderly inv step s Q := by
  refine ⟨by rw [hr]; exact hs, by rw [hr]; exact inOrder_error he, fun b hb => ?_⟩
  rw [hr] at hb
  cases hb

theorem orderly_pure {a : α} (hs : inv s) (hQ : Q a s) : Orderly inv (pure a) s Q :=
  orderly_of_ok (Step.run_pure a s) hs hQ

theorem orderly_throw {e : Error} (hs : inv s) (he : e.isInternal = false) :
    Orderly inv (throw e : Step σ α) s Q :=
  orderly_of_error (Step.run_throw e s) hs he

theorem orderly_ofExcept {x : Except Error α} (hs : inv s) (hx : InOrder x)
    (hQ : ∀ a, x = .ok a → Q a s) : Orderly inv (ofExcept x : Step σ α) s Q := by
  rcases x with e | a
  · exact orderly_of_error (Step.run_ofExcept _ s) hs (hx e rfl)
  · exact orderly_of_ok (Step.run_ofExcept _ s) hs (hQ a rfl)

theorem orderly_bind {x : Step σ α} {f : α → Step σ β} {Q : β → σ → Prop}
    (hx : Orderly inv x s P) (hf : ∀ a s', inv s' → P a s' → Orderly inv (f a) s' Q) :
    Orderly inv (x >>= f) s Q := by
  obtain ⟨hs, hin, hP⟩ := hx
  rcases hr : x.run s with ⟨e | a, s'⟩
  · rw [hr] at hs hin
    exact orderly_of_error (by rw [Step.run_bind, hr]) hs (hin e rfl)
  · rw [hr] at hs hP
    exact (hf a s' hs (hP a rfl)).of_run_eq (by rw [Step.run_bind, hr])

/-- Looking at the state changes nothing. -/
theorem orderly_get_bind {f : σ → Step σ β} {Q : β → σ → Prop} (h : Orderly inv (f s) s Q) :
    Orderly inv (get >>= f) s Q :=
  h.of_run_eq (by rw [Step.run_bind, Step.run_get])

/-- A result that is given changes nothing. -/
theorem orderly_ofExcept_bind {x : Except Error α} {f : α → Step σ β} {Q : β → σ → Prop}
    (hs : inv s) (hx : InOrder x) (hf : ∀ a, x = .ok a → Orderly inv (f a) s Q) :
    Orderly inv (ofExcept x >>= f) s Q := by
  rcases x with e | a
  · exact orderly_of_error (by rw [Step.run_bind, Step.run_ofExcept]) hs (hx e rfl)
  · exact hf a rfl

theorem Orderly.mono (h : Orderly inv step s P) (hPQ : ∀ a s', P a s' → Q a s') :
    Orderly inv step s Q :=
  ⟨h.keeps, h.inOrder, fun a ha => hPQ a _ (h.result a ha)⟩

/-- What else is known of the run can be said of the result. -/
theorem Orderly.run (h : Orderly inv step s Q) :
    Orderly inv step s fun a s' => Q a s' ∧ step.run s = (.ok a, s') :=
  ⟨h.keeps, h.inOrder, fun a ha => ⟨h.result a ha, Prod.ext ha rfl⟩⟩

/-- What is known of the state can be said of the result. -/
theorem Orderly.weaken (h : Orderly inv step s Q) :
    Orderly (fun _ => True) step s fun a s' => inv s' ∧ Q a s' :=
  ⟨trivial, h.inOrder, fun a ha => ⟨h.keeps, h.result a ha⟩⟩

theorem orderly_adapt {name : String} (h : Orderly inv step s Q) :
    Orderly inv (ExceptT.adapt (Error.withOwner name) step) s Q := by
  obtain ⟨hs, hin, hQ⟩ := h
  rcases hr : step.run s with ⟨e | a, s'⟩
  · rw [hr] at hs hin
    exact orderly_of_error (by rw [Step.run_adapt, hr]; rfl) hs
      ((Error.isInternal_withOwner name e).trans (hin e rfl))
  · rw [hr] at hs hQ
    exact orderly_of_ok (by rw [Step.run_adapt, hr]; rfl) hs (hQ a rfl)

theorem orderly_mapM {f : α → Step σ β} {R : α → β → Prop} :
    ∀ {items : List α} {s : σ}, inv s →
    (∀ a ∈ items, ∀ s, inv s → Orderly inv (f a) s fun b _ => R a b) →
    Orderly inv (items.mapM f) s fun bs _ => ∀ b ∈ bs, ∃ a ∈ items, R a b
  | [], _, hs, _ => by
    rw [List.mapM_nil]
    exact orderly_pure hs (List.forall_mem_nil _)
  | a :: rest, s, hs, h => by
    obtain ⟨hfirst, hrest⟩ := List.forall_mem_cons.1 h
    rw [List.mapM_cons]
    refine orderly_bind (hfirst s hs) fun b s₁ hs₁ hb => ?_
    refine orderly_bind (orderly_mapM hs₁ hrest) fun bs s₂ hs₂ hbs => orderly_pure hs₂ ?_
    refine List.forall_mem_cons.2 ⟨⟨a, List.mem_cons_self, hb⟩, fun b' hb' => ?_⟩
    obtain ⟨a', ha', hR⟩ := hbs b' hb'
    exact ⟨a', List.mem_cons_of_mem _ ha', hR⟩

theorem orderly_forM {f : α → Step σ Unit} : ∀ {items : List α} {s : σ}, inv s →
    (∀ a ∈ items, ∀ s, inv s → Orderly inv (f a) s fun _ _ => True) →
    Orderly inv (items.forM f) s fun _ _ => True
  | [], _, hs, _ => orderly_pure hs trivial
  | _ :: _, s, hs, h => by
    obtain ⟨hfirst, hrest⟩ := List.forall_mem_cons.1 h
    exact orderly_bind (hfirst s hs) fun _ _ hs' _ => orderly_forM hs' hrest

end Steps

end Formwork
