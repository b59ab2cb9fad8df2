-- Running steps that may fail and keep what was done before. A run gives an outcome and a state;
-- these are its equations for each way in which steps are put together.
import Formwork.Error

namespace Formwork

/-- A result that depends on another one is there when both are. -/
theorem except_bind_ok {α β : Type} {x : Except Error α} {f : α → Except Error β} {b : β}
    (h : x >>= f = .ok b) : ∃ a, x = .ok a ∧ f a = .ok b := by
  rcases x with e | a
  · cases h
  · exact ⟨a, rfl, h⟩

/-- A result that depends on another one is there exactly when both are. -/
theorem except_bind_eq_ok {α β : Type} {x : Except Error α} {f : α → Except Error β} {b : β} :
    x >>= f = .ok b ↔ ∃ a, x = .ok a ∧ f a = .ok b := by
  refine ⟨except_bind_ok, ?_⟩
  rintro ⟨a, rfl, hf⟩
  exact hf

/-- Going through a list succeeds exactly if it does at every place. -/
theorem except_forM_ok_iff {α : Type} {items : List α} {f : α → Except Error Unit} :
    items.forM f = .ok () ↔ ∀ item ∈ items, f item = .ok () := by
  induction items with
  | nil => exact iff_of_true rfl (List.forall_mem_nil _)
  | cons item rest ih =>
    rw [List.forall_mem_cons, ← ih]
    show (f item >>= fun _ => rest.forM f) = _ ↔ _
    rw [except_bind_eq_ok]
    exact ⟨fun ⟨_, h⟩ => h, fun h => ⟨(), h⟩⟩

/-- A result for what may be missing is there when it is missing, or when its own result is. -/
theorem except_mapM_option_ok {α β : Type} {f : α → Except Error β} {o : Option α} {o' : Option β}
    (h : o.mapM f = .ok o') :
    (o = none ∧ o' = none) ∨ ∃ a b, o = some a ∧ o' = some b ∧ f a = .ok b := by
  cases o with
  | none =>
    cases h
    exact .inl ⟨rfl, rfl⟩
  | some a =>
    rw [Option.mapM_some] at h
    rcases hb : f a with e | b <;> rw [hb] at h <;> cases h
    exact .inr ⟨a, b, rfl, rfl, hb⟩

theorem except_mapError_ok {ε ε' α : Type} (f : ε → ε') (a : α) :
    (Except.ok a : Except ε α).mapError f = .ok a := rfl

theorem except_mapError_error {ε ε' α : Type} (f : ε → ε') (e : ε) :
    (Except.error e : Except ε α).mapError f = .error (f e) := rfl

/-- A step on a state. What was done before an error stays done. -/
abbrev Step (σ α : Type) := ExceptT Error (StateM σ) α

namespace Step

variable {σ α β : Type}

theorem run_bind (x : Step σ α) (f : α → Step σ β) (s : σ) :
    (x >>= f).run s =
      match x.run s with
      | (.ok a, s') => (f a).run s'
      | (.error e, s') => (.error e, s') := by
  show (ExceptT.bindCont f (x.run s).1).run (x.run s).2 = _
  rcases x.run s with ⟨_ | _, _⟩ <;> rfl

@[simp] theorem run_pure (a : α) (s : σ) : (pure a : Step σ α).run s = (.ok a, s) := rfl

@[simp] theorem run_throw (e : Error) (s : σ) : (throw e : Step σ α).run s = (.error e, s) := rfl

@[simp] theorem run_get (s : σ) : (get : Step σ σ).run s = (.ok s, s) := rfl

@[simp] theorem run_modify (f : σ → σ) (s : σ) :
    (modify f : Step σ PUnit).run s = (.ok ⟨⟩, f s) := rfl

@[simp] theorem run_ofExcept (x : Except Error α) (s : σ) :
    (ofExcept x : Step σ α).run s = (x, s) := by
  cases x <;> rfl

@[simp] theorem run_mk (f : σ → Except Error α × σ) (s : σ) :
    (ExceptT.mk f : Step σ α).run s = f s := rfl

@[simp] theorem run_adapt (f : Error → Error) (x : Step σ α) (s : σ) :
    (ExceptT.adapt f x : Step σ α).run s = ((x.run s).1.mapError f, (x.run s).2) := rfl

/-- A sequence succeeds when each of its parts does. -/
theorem run_bind_ok {x : Step σ α} {f : α → Step σ β} {s s' : σ} {b : β}
    (h : (x >>= f).run s = (.ok b, s')) :
    ∃ a s₁, x.run s = (.ok a, s₁) ∧ (f a).run s₁ = (.ok b, s') := by
  rw [run_bind] at h
  split at h
  · rename_i a s₁ hx
    exact ⟨a, s₁, hx, h⟩
  · cases h

/-- A sequence succeeds exactly when each of its parts does. -/
theorem run_bind_eq_ok {x : Step σ α} {f : α → Step σ β} {s s' : σ} {b : β} :
    (x >>= f).run s = (.ok b, s') ↔ ∃ a s₁, x.run s = (.ok a, s₁) ∧ (f a).run s₁ = (.ok b, s') := by
  refine ⟨run_bind_ok, ?_⟩
  rintro ⟨a, s₁, hx, hf⟩
  rw [run_bind, hx]
  exact hf

/-- Another wording of its error is nothing to a step that succeeds. -/
theorem run_adapt_eq_ok {f : Error → Error} {x : Step σ α} {s s' : σ} {a : α} :
    (ExceptT.adapt f x : Step σ α).run s = (.ok a, s') ↔ x.run s = (.ok a, s') := by
  rw [run_adapt]
  rcases x.run s with ⟨e | b, s₁⟩
  · exact ⟨fun h => (by cases h), fun h => (by cases h)⟩
  · exact .rfl

/-- A result that is given succeeds if it is one, and changes nothing. -/
theorem run_ofExcept_ok {x : Except Error α} {s s' : σ} {a : α}
    (h : (ofExcept x : Step σ α).run s = (.ok a, s')) : x = .ok a ∧ s' = s := by
  rw [run_ofExcept] at h
  exact ⟨congrArg Prod.fst h, (congrArg Prod.snd h).symm⟩

end Step

end Formwork
