-- Numbers of items. A rule is held against the type of a model at setup, and against a number of
-- items later on. Both look at the bounds of the rule in their own way; they agree on whether there
-- may be no item at all, unless the rule is a range that leaves its least number open. Such a range
-- allows no item, and setup still wants a type that is not optional for it.
import Formwork.Validation.Cardinality

namespace Formwork

namespace Cardinality

/-! ## Numbers that a rule allows -/

/-- The rule allows the number of items. A bound that is left open allows any number. -/
def Allows (rule : Cardinality) (count : Nat) : Prop :=
  match rule with
  | .single allowNone => count = 1 ∨ count = 0 ∧ allowNone
  | .range min max =>
    (∀ lo, min = some lo → lo.toNat ≤ count) ∧ ∀ hi, max = some hi → count ≤ hi.toNat
  | .multi allowNone => count ≠ 0 ∨ allowNone

/-- The rule is a range from wherever to a number, or to wherever. -/
def LeastOpen (rule : Cardinality) : Prop := ∃ max, rule = .range none max

/-- What is checked of a number is whether the rule allows it. -/
theorem violation?_eq_none_iff {rule : Cardinality} {count : Nat} :
    rule.violation? count = none ↔ rule.Allows count := by
  cases rule with
  | single allowNone =>
    dsimp only [violation?, Allows]
    by_cases hzero : count = 0
    · cases allowNone <;> simp [hzero]
    · by_cases hone : count = 1 <;> simp [hzero, hone]
  | range min max =>
    -- A bound is broken if it is there and the number lies beyond it.
    have hlo : min.filter (count < ·.toNat) = none ↔ ∀ lo, min = some lo → lo.toNat ≤ count := by
      simp only [Option.filter_eq_none_iff, decide_eq_true_eq, Nat.not_lt]
    have hhi : max.filter (·.toNat < count) = none ↔ ∀ hi, max = some hi → count ≤ hi.toNat := by
      simp only [Option.filter_eq_none_iff, decide_eq_true_eq, Nat.not_lt]
    dsimp only [violation?, Allows]
    rw [← hlo, ← hhi]
    split
    next hbelow => simp only [hbelow, reduceCtorEq, false_and]
    next hfits habove => simp only [habove, reduceCtorEq, and_false]
    next hfits hbelow => simp only [hfits, hbelow, and_self]
  | multi allowNone =>
    dsimp only [violation?, Allows]
    by_cases hzero : count = 0 <;> cases allowNone <;> simp [hzero]

/-- No item is allowed by the rules that call for an optional type, and by ranges without a least
number. -/
theorem allows_zero_iff {rule : Cardinality} :
    rule.Allows 0 ↔ rule.allowsNone ∨ rule.LeastOpen := by
  cases rule with
  | single allowNone => simp [Allows, allowsNone, LeastOpen]
  | multi allowNone => simp [Allows, allowsNone, LeastOpen]
  | range min max =>
    rcases min with _ | lo
    · simp [Allows, LeastOpen]
    · have hzero : lo.toNat = 0 ↔ lo = 0 := UInt32.toNat_inj (b := 0)
      simp [Allows, allowsNone, LeastOpen, hzero]

/-- A rule for a single item allows one at most. -/
theorem Allows.le_one {rule : Cardinality} {count : Nat} (h : rule.Allows count)
    (hsingle : rule.expectsList = false) : count ≤ 1 := by
  cases rule with
  | single allowNone =>
    unfold Allows at h
    omega
  | range min max => cases hsingle
  | multi allowNone => cases hsingle

/-- A rule without a least number calls for a type that is not optional. -/
theorem LeastOpen.allowsNone {rule : Cardinality} (h : rule.LeastOpen) :
    rule.allowsNone = false := by
  obtain ⟨max, rfl⟩ := h
  rfl

/-- A rule suits a type when both say the same of no item and of several. -/
theorem mismatch?_eq_none_iff {rule : Cardinality} {bound : Descriptor} :
    rule.mismatch? bound = none ↔
      rule.allowsNone = bound.isOptional ∧ rule.expectsList = bound.isList := by
  unfold mismatch?
  rcases rule.allowsNone <;> rcases bound.isOptional <;> rcases rule.expectsList <;>
    rcases bound.isList <;> simp

end Cardinality

/-! ## Checks -/

namespace CardinalityCheck

variable {check : CardinalityCheck} {bound : Descriptor} {count : Nat}

theorem checkShape_ok_iff : check.checkShape bound = .ok () ↔
    check.rule.allowsNone = bound.isOptional ∧ check.rule.expectsList = bound.isList := by
  rw [← Cardinality.mismatch?_eq_none_iff]
  unfold checkShape
  rcases check.rule.mismatch? bound with _ | message <;> simp

/-- A number is allowed or reported, as an error if errors are raised. -/
theorem validate_cases (check : CardinalityCheck) (count : Nat) :
    (check.rule.Allows count ∧ ∀ raise, check.validate count raise = .ok true) ∨
      ¬ check.rule.Allows count ∧ check.validate count false = .ok false ∧
        ∃ message, check.validate count true = .error (.validation check.reporter message) := by
  rw [← Cardinality.violation?_eq_none_iff]
  unfold validate
  rcases check.rule.violation? count with _ | message
  · exact .inl ⟨rfl, fun _ => rfl⟩
  · exact .inr ⟨by simp, rfl, message, rfl⟩

/-- Where violations are errors, whatever result there is says that the number is allowed. -/
theorem validate_raise_ok_iff {found : Bool} :
    check.validate count true = .ok found ↔ found = true ∧ check.rule.Allows count := by
  rcases check.validate_cases count with ⟨hallows, hok⟩ | ⟨hnot, _, message, hraise⟩
  · simp [hok, hallows, eq_comm]
  · simp [hraise, hnot]

theorem validate_ok_iff (raise : Bool) :
    check.validate count raise = .ok true ↔ check.rule.Allows count := by
  rcases check.validate_cases count with ⟨hallows, hok⟩ | ⟨hnot, hsoft, message, hraise⟩
  · exact iff_of_true (hok raise) hallows
  · refine iff_of_false (fun h => ?_) hnot
    cases raise
    · rw [hsoft] at h
      cases h
    · rw [hraise] at h
      cases h

theorem validate_false_iff :
    check.validate count false = .ok false ↔ ¬ check.rule.Allows count := by
  rcases check.validate_cases count with ⟨hallows, hok⟩ | ⟨hnot, hsoft, _⟩
  · simp [hok, hallows]
  · simp [hsoft, hnot]

/-! ## The law -/

/-- Setup and the check of a number agree on what a rule allows, but for ranges without a least
number. Let the rule suit the type of a model. Then no item is allowed exactly if the type is
optional, as long as the least number is not left open; a range that leaves it open allows no item,
though its type is not optional. If the type is not a list, more than one item is refused. And a
number is an error of the data exactly if it is refused where errors are not raised. -/
theorem none_is_allowed_where_the_type_is_optional (h : check.checkShape bound = .ok ()) :
    (∀ raise, check.validate 0 raise = .ok true ↔ bound.isOptional ∨ check.rule.LeastOpen) ∧
      (check.rule.LeastOpen → bound.isOptional = false) ∧
      (bound.isList = false → ∀ count, 1 < count → check.validate count false = .ok false) ∧
      ∀ count, (∃ owner message, check.validate count true = .error (.validation owner message)) ↔
        check.validate count false = .ok false := by
  obtain ⟨hnone, hlist⟩ := checkShape_ok_iff.1 h
  refine ⟨fun raise => ?_, fun hopen => ?_, fun hsingle count hmany => ?_, fun count => ?_⟩
  · rw [validate_ok_iff, Cardinality.allows_zero_iff, hnone]
  · rw [← hnone]
    exact hopen.allowsNone
  · rw [validate_false_iff]
    intro hallows
    have := hallows.le_one (hlist.trans hsingle)
    omega
  · rcases check.validate_cases count with ⟨_, hok⟩ | ⟨_, hsoft, message, hraise⟩
    · simp [hok]
    · exact iff_of_true ⟨check.reporter, message, hraise⟩ hsoft

/-- Up to five numbers, or none, for a list that may be missing. -/
theorem none_is_allowed_where_the_type_is_optional_of_up_to_five : ∃ rule bound,
    Cardinality.between (some 0) (some 5) = .ok rule ∧
      (DeclaredType.optional (.list (.scalar .int))).describe .direct = .ok bound ∧
      (ofRule rule).checkShape bound = .ok () ∧ bound.isOptional ∧
      (ofRule rule).validate 0 true = .ok true ∧
      ∃ owner message, (ofRule rule).validate 6 true = .error (.validation owner message) := by
  have hshape : (ofRule (.range (some 0) (some 5))).checkShape
      ⟨.optional (.list (.scalar .int)), .scalar .int, true, true, .direct⟩ = .ok () := rfl
  obtain ⟨hzero, _, _, hraise⟩ := none_is_allowed_where_the_type_is_optional hshape
  exact ⟨_, _, rfl, rfl, hshape, rfl, (hzero true).2 (.inl rfl), (hraise 6).2 rfl⟩

/-- A range that only says how many there may be at most goes with a list that may not be missing,
and still it allows no item. -/
theorem none_is_allowed_where_the_type_is_not_optional : ∃ rule bound,
    Cardinality.between none (some 5) = .ok rule ∧
      (DeclaredType.list (.scalar .int)).describe .direct = .ok bound ∧
      (ofRule rule).checkShape bound = .ok () ∧ bound.isOptional = false ∧
      (ofRule rule).validate 0 true = .ok true :=
  ⟨_, _, rfl, rfl, rfl, rfl, rfl⟩

end CardinalityCheck

end Formwork
