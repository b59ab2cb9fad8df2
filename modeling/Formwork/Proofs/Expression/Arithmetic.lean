-- Arithmetic on whole numbers. A sum, a difference, a product or a quotient rounded down is the
-- exact one, or it is refused, since 64 bits do not hold it or since it is divided by zero. Only
-- one quotient is neither: that of the least number by minus one is not refused but aborted.
import Formwork.Expression.Read

namespace Formwork

/-! ## Numbers of 64 bits -/

/-- 64 bits with a sign hold the number. -/
def InWord (n : Int) : Prop := Int64.minValue.toInt ≤ n ∧ n ≤ Int64.maxValue.toInt

instance (n : Int) : Decidable (InWord n) := inferInstanceAs (Decidable (_ ∧ _))

theorem inWord_iff {n : Int} :
    InWord n ↔ -9223372036854775808 ≤ n ∧ n < 9223372036854775808 := by
  have hleast : Int64.minValue.toInt = -9223372036854775808 := rfl
  have hgreatest : Int64.maxValue.toInt = 9223372036854775807 := rfl
  rw [InWord, hleast, hgreatest]
  omega

theorem Int64.inWord_toInt (n : Int64) : InWord n.toInt := ⟨n.minValue_le_toInt, n.toInt_le⟩

theorem Int64.toInt_ofInt_of_inWord {n : Int} (h : InWord n) : (Int64.ofInt n).toInt = n :=
  Int64.toInt_ofInt_of_le (inWord_iff.1 h).1 (inWord_iff.1 h).2

namespace BinaryOp

/-- A number that 64 bits hold is given as it is. -/
theorem exact_eq (n : Int) :
    exact n = if InWord n then .ok (.integer (Int64.ofInt n)) else .error .overflow := by
  have hfits : -(Nat.pow 2 63 : Nat) ≤ n ∧ n < (Nat.pow 2 63 : Nat) ↔ InWord n := inWord_iff.symm
  by_cases h : InWord n
  · rw [exact, fit?, if_pos (hfits.2 h), if_pos h]
  · rw [exact, fit?, if_neg (mt hfits.1 h), if_neg h]

/-! ## Rounding down -/

/-- Rounding toward zero rounds up where a remainder is left and the signs differ. -/
theorem fdiv_eq_of_tdiv {l r : Int} (hr : r ≠ 0) :
    l.fdiv r = if l.tmod r ≠ 0 ∧ decide (l < 0) ≠ decide (r < 0) then l.tdiv r - 1
      else l.tdiv r := by
  have hdvd : r ∣ l ↔ l.tmod r = 0 := Int.dvd_iff_tmod_eq_zero
  by_cases hrest : l.tmod r = 0
  · rw [Int.fdiv_eq_tdiv, if_pos (hdvd.2 hrest), if_neg (fun h => h.1 hrest), Int.sub_zero]
  · rw [Int.fdiv_eq_tdiv, if_neg (fun h => hrest (hdvd.1 h))]
    rcases Int.lt_or_gt_of_ne hr with hneg | hpos
    · have hsign : r.sign = -1 := Int.sign_eq_neg_one_of_neg hneg
      by_cases hl : 0 ≤ l <;> grind
    · have hsign : r.sign = 1 := Int.sign_eq_one_of_pos hpos
      by_cases hl : 0 ≤ l <;> grind

/-- Where a remainder is left the divisor is at least two, so that the quotient is far from the least
number and one can be taken off. -/
theorem inWord_tdiv_sub_one {l r : Int} (hl : InWord l) (hr : r ≠ 0) (hrest : l.tmod r ≠ 0) :
    InWord (l.tdiv r - 1) := by
  have htwo : 2 ≤ r.natAbs := by
    refine Nat.le_of_not_lt fun hsmall => ?_
    obtain rfl | rfl : r = 1 ∨ r = -1 := by omega
    · exact hrest (Int.tmod_one l)
    · exact hrest (by rw [Int.tmod_neg, Int.tmod_one])
  have hhalf : (l.tdiv r).natAbs ≤ l.natAbs / 2 := by
    rw [Int.natAbs_tdiv]
    exact Nat.div_le_div_left htwo (by decide)
  rw [inWord_iff] at hl ⊢
  constructor <;> omega

/-- A quotient of numbers that 64 bits hold is one itself, unless it is that of the least number by
minus one. -/
theorem toInt_div {l r : Int64} (hfits : ¬ (l = Int64.minValue ∧ r = -1)) :
    (l / r).toInt = l.toInt.tdiv r.toInt := by
  by_cases hl : l = Int64.minValue
  · exact Int64.toInt_div_of_ne_right l r fun hr => hfits ⟨hl, hr⟩
  · exact Int64.toInt_div_of_ne_left l r hl

/-- Rounding down is exact. -/
theorem toInt_roundedDown {l r : Int64} (hr : r ≠ 0) (hfits : ¬ (l = Int64.minValue ∧ r = -1)) :
    (roundedDown l r).toInt = l.toInt.fdiv r.toInt := by
  have hzero : r.toInt ≠ 0 := fun h => hr (Int64.toInt_inj.1 h)
  have hrest : l % r ≠ 0 ↔ l.toInt.tmod r.toInt ≠ 0 := by
    rw [← Int64.toInt_mod]
    exact not_congr Int64.toInt_inj.symm
  have hsign : ∀ n : Int64, decide (n < 0) = decide (n.toInt < 0) := fun n =>
    decide_eq_decide.2 Int64.lt_iff_toInt_lt
  rw [fdiv_eq_of_tdiv hzero, roundedDown, hsign l, hsign r]
  simp only [hrest]
  split
  · rename_i hup
    obtain ⟨hlow, hhigh⟩ := inWord_iff.1 (inWord_tdiv_sub_one (Int64.inWord_toInt l) hzero hup.1)
    rw [Int64.toInt_sub, toInt_div hfits]
    exact Int.bmod_eq_of_le (by simpa using hlow) (by simpa using hhigh)
  · exact toInt_div hfits

/-- The rest of a quotient rounded down is zero or has the sign of the divisor, and is smaller. -/
theorem fmod_bounds (l : Int) {r : Int} (hr : r ≠ 0) :
    (l.fmod r = 0 ∨ (l.fmod r).sign = r.sign) ∧ (l.fmod r).natAbs < r.natAbs := by
  rcases Int.lt_or_gt_of_ne hr with hneg | hpos
  · have hlow := Int.fmod_nonneg_of_pos (-l) (Int.neg_pos_of_neg hneg)
    have hhigh := Int.fmod_lt_of_pos (-l) (Int.neg_pos_of_neg hneg)
    rw [Int.neg_fmod_neg] at hlow hhigh
    refine ⟨?_, by omega⟩
    rcases Int.lt_or_eq_of_le hlow with h | h
    · right
      rw [Int.sign_eq_neg_one_of_neg hneg, Int.sign_eq_neg_one_of_neg (by omega)]
    · exact .inl (by omega)
  · have hlow := Int.fmod_nonneg_of_pos l hpos
    have hhigh := Int.fmod_lt_of_pos l hpos
    refine ⟨?_, by omega⟩
    rcases Int.lt_or_eq_of_le hlow with h | h
    · right
      rw [Int.sign_eq_one_of_pos hpos, Int.sign_eq_one_of_pos h]
    · exact .inl h.symm

/-! ## Operators on whole numbers -/

/-- The exact result of an operator of arithmetic on whole numbers, if there is one. -/
def whole? : BinaryOp → Int → Int → Option Int
  | add, l, r => some (l + r)
  | sub, l, r => some (l - r)
  | mul, l, r => some (l * r)
  | floorDiv, l, r => if r = 0 then none else some (l.fdiv r)
  | _, _, _ => none

/-- The operators of arithmetic that keep whole numbers whole. -/
def wholes : List BinaryOp := [add, sub, mul, floorDiv]

/-- Only one quotient rounded down is too large. -/
theorem inWord_fdiv_iff {l r : Int64} (hr : r ≠ 0) :
    InWord (l.toInt.fdiv r.toInt) ↔ ¬ (l = Int64.minValue ∧ r = -1) := by
  constructor
  · rintro hword ⟨rfl, rfl⟩
    exact absurd hword (by decide)
  · intro hfits
    rw [← toInt_roundedDown hr hfits]
    exact Int64.inWord_toInt _

theorem whole?_floorDiv {l r n : Int} (h : floorDiv.whole? l r = some n) :
    r ≠ 0 ∧ n = l.fdiv r := by
  rw [whole?] at h
  split at h <;> cases h
  rename_i hr
  exact ⟨hr, rfl⟩

/-- Whole numbers are combined exactly or not at all. -/
theorem apply_wholes {op : BinaryOp} (hop : op ∈ wholes) (l r : Int64) :
    op.apply (.integer l) (.integer r) =
      match op.whole? l.toInt r.toInt with
      | none => .error .divisionByZero
      | some n =>
        if InWord n then .ok (.integer (Int64.ofInt n))
        else .error (if op = floorDiv then .abort else .overflow) := by
  simp only [wholes, List.mem_cons, List.not_mem_nil, or_false] at hop
  rcases hop with rfl | rfl | rfl | rfl
  · exact exact_eq _
  · exact exact_eq _
  · exact exact_eq _
  · show floorQuotient (.integer l) (.integer r) = _
    have hzero : r.toInt = 0 ↔ r = 0 := Int64.toInt_inj (y := 0)
    simp only [floorQuotient, whole?, hzero]
    by_cases hr : r = 0
    · rw [if_pos hr, if_pos hr]
    · rw [if_neg hr, if_neg hr]
      dsimp only
      by_cases hfits : l = Int64.minValue ∧ r = -1
      · rw [if_pos hfits, if_neg fun h => (inWord_fdiv_iff hr).1 h hfits]
        rfl
      · rw [if_neg hfits, if_pos ((inWord_fdiv_iff hr).2 hfits), ← toInt_roundedDown hr hfits,
          Int64.ofInt_toInt]

end BinaryOp

/-- A resolved operation on operands that are whole numbers applies its operator to them. -/
theorem Operation.apply_of_read {op : BinaryOp} {left right : Operand} {data : Data} {l r : Value}
    (hleft : left.read data = .ok l) (hright : right.read data = .ok r) :
    (Operation.binary op left right (.resolved ())).apply data =
      (op.apply l r).mapError (OperatorFault.error
        (Operation.binary op left right (.resolved ())).text op l r) := by
  rw [Operation.apply, hleft, hright]
  rfl

/-! ## The law -/

/-- Arithmetic on whole numbers is exact, or it is refused with an error of evaluation. Let a
resolved operation add, subtract, multiply or divide rounding down, and let its operands be read as
whole numbers. If the exact result is there and 64 bits hold it, it is the result. Otherwise the
result is an error for the operation, saying that the number is too large or that it is divided by
zero, but for the least number divided by minus one, which is aborted. A quotient leaves a rest that
is zero or has the sign of the divisor, and is smaller than that. -/
theorem whole_numbers_are_exact_or_refused_but_for_one_quotient {op : BinaryOp}
    (hop : op ∈ BinaryOp.wholes) {left right : Operand} {data : Data} {l r : Int64}
    (hleft : left.read data = .ok (.integer l)) (hright : right.read data = .ok (.integer r)) :
    let operation := Operation.binary op left right (.resolved ())
    (∀ n, op.whole? l.toInt r.toInt = some n → InWord n →
      ∃ m : Int64, operation.apply data = .ok (.integer m) ∧ m.toInt = n) ∧
    (op.whole? l.toInt r.toInt = none →
      operation.apply data = .error (.evaluation operation.text "division by zero")) ∧
    (∀ n, op.whole? l.toInt r.toInt = some n → ¬ InWord n →
      ¬ (op = .floorDiv ∧ l = Int64.minValue ∧ r = -1) →
      operation.apply data = .error (.evaluation operation.text "integer overflow")) ∧
    (op = .floorDiv → l = Int64.minValue → r = -1 → operation.apply data = .error .aborted) ∧
    ∀ q : Int64, op = .floorDiv → operation.apply data = .ok (.integer q) →
      ∃ m, l.toInt = q.toInt * r.toInt + m ∧ (m = 0 ∨ m.sign = r.toInt.sign) ∧
        m.natAbs < r.toInt.natAbs := by
  dsimp only
  rw [Operation.apply_of_read hleft hright, BinaryOp.apply_wholes hop]
  refine ⟨fun n hn hword => ?_, fun hnone => ?_, fun n hn hword hother => ?_, ?_, ?_⟩
  · rw [hn]
    exact ⟨Int64.ofInt n, by simp only [if_pos hword]; rfl,
      Int64.toInt_ofInt_of_inWord hword⟩
  · rw [hnone]
    rfl
  · have hop' : op ≠ .floorDiv := by
      rintro rfl
      obtain ⟨hr, rfl⟩ := BinaryOp.whole?_floorDiv hn
      refine hword ((BinaryOp.inWord_fdiv_iff ?_).2 fun h => hother ⟨rfl, h⟩)
      rintro rfl
      exact hr rfl
    rw [hn]
    dsimp only
    rw [if_neg hword, if_neg hop']
    rfl
  · rintro rfl rfl rfl
    rfl
  · rintro q rfl hq
    rcases hwhole : BinaryOp.floorDiv.whole? l.toInt r.toInt with _ | n <;> rw [hwhole] at hq
    · cases hq
    dsimp only at hq
    split at hq <;> cases hq
    rename_i hword
    obtain ⟨hr, rfl⟩ := BinaryOp.whole?_floorDiv hwhole
    obtain ⟨hsign, hsmall⟩ := BinaryOp.fmod_bounds l.toInt hr
    refine ⟨l.toInt.fmod r.toInt, ?_, hsign, hsmall⟩
    rw [Int64.toInt_ofInt_of_inWord hword, Int.mul_comm, Int.mul_fdiv_add_fmod]

/-- Seven divided by minus two is minus four, and the rest is minus one. -/
theorem whole_numbers_are_exact_or_refused_but_for_one_quotient_of_seven_halves :
    let data : Data := .empty fun _ _ _ => .ok .null
    let operation := Operation.binary .floorDiv (.literal (.integer 7)) (.literal (.integer (-2)))
      (.resolved ())
    BinaryOp.floorDiv ∈ BinaryOp.wholes ∧ BinaryOp.floorDiv.whole? 7 (-2) = some (-4) ∧
      InWord (-4) ∧ (∃ m : Int64, operation.apply data = .ok (.integer m) ∧ m.toInt = -4) ∧
      operation.apply data = .ok (.integer (-4)) ∧
      ∃ m : Int, (7 : Int) = -4 * -2 + m ∧ (m = 0 ∨ m.sign = -1) ∧ m.natAbs < 2 := by
  intro data operation
  have hop : BinaryOp.floorDiv ∈ BinaryOp.wholes := by decide
  have hresult : operation.apply data = .ok (.integer (-4)) := rfl
  have hleft : (Operand.literal (.integer 7)).read data = .ok (.integer 7) := rfl
  have hright : (Operand.literal (.integer (-2))).read data = .ok (.integer (-2)) := rfl
  obtain ⟨hexact, _, _, _, hrest⟩ :=
    whole_numbers_are_exact_or_refused_but_for_one_quotient hop hleft hright
  exact ⟨hop, rfl, by decide, hexact (-4) rfl (by decide), hresult, hrest (-4) rfl hresult⟩

/-- The least number divided by minus one is a number that 64 bits do not hold, and still this is no
error of evaluation: the operation is aborted. -/
theorem the_least_number_by_minus_one_is_not_refused :
    let data : Data := .empty fun _ _ _ => .ok .null
    let operation := Operation.binary .floorDiv (.literal (.integer Int64.minValue))
      (.literal (.integer (-1))) (.resolved ())
    BinaryOp.floorDiv.whole? Int64.minValue.toInt (-1) = some (Int64.maxValue.toInt + 1) ∧
      ¬ InWord (Int64.maxValue.toInt + 1) ∧
      operation.apply data = .error .aborted ∧
      ∀ expression message, operation.apply data ≠ .error (.evaluation expression message) := by
  intro data operation
  have hresult : operation.apply data = .error .aborted := rfl
  refine ⟨rfl, by decide, hresult, fun expression message h => ?_⟩
  rw [hresult] at h
  cases h

end Formwork
