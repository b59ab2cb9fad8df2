-- What is shown for a name that was not found: first the names that begin as it does, then the
-- other names that contain it in any case, each once, and if there are neither, all names. The
-- search for the second kind stops as soon as there are enough names, which changes nothing in what
-- is shown.
import Mathlib.Data.List.Infix
import Formwork.Hint

namespace Formwork

namespace Hint

/-! ## The rule -/

/-- The first two characters of the name, or its only one, begin the candidate. Nothing begins as
the empty name does. -/
def BeginsAs (name candidate : String) : Prop :=
  name ≠ "" ∧ name.toList.take 2 <+: candidate.toList

instance (name candidate : String) : Decidable (BeginsAs name candidate) := instDecidableAnd

/-- The candidate contains the name, in any case. Nothing contains the empty name. -/
def Contains (name candidate : String) : Prop :=
  name ≠ "" ∧ (Text.lower name).toList <:+: (Text.lower candidate).toList

instance (name candidate : String) : Decidable (Contains name candidate) := instDecidableAnd

/-- The names that begin as the given one does. -/
def beginning (name : String) (available : List String) : List String :=
  available.filter (BeginsAs name ·)

/-- The names that contain the given one and are not among those found, each where it first
stands. -/
def containing (name : String) (found available : List String) : List String :=
  (available.filter fun candidate => Contains name candidate ∧ candidate ∉ found).eraseDups

variable {name candidate : String} {found rest : List String}

theorem containing_cons_of_new (h : Contains name candidate ∧ candidate ∉ found) :
    containing name found (candidate :: rest) =
      candidate :: containing name (found ++ [candidate]) rest := by
  unfold containing
  rw [List.filter_cons_of_pos (by simpa using h), List.eraseDups_cons, List.filter_filter]
  congr 2
  refine List.filter_congr fun other _ => ?_
  rw [Bool.eq_iff_iff]
  simp only [Bool.and_eq_true, Bool.not_eq_true', beq_eq_false_iff_ne, decide_eq_true_iff,
    List.mem_append, List.mem_singleton, not_or]
  exact and_rotate

theorem containing_cons_of_not_new (h : ¬(Contains name candidate ∧ candidate ∉ found)) :
    containing name found (candidate :: rest) = containing name found rest := by
  rw [containing, List.filter_cons_of_neg (by simpa using h), containing]

/-! ## The search -/

theorem contains_iff {part whole : List Char} : contains part whole ↔ part <:+: whole := by
  induction whole with
  | nil => simp [contains]
  | cons c rest ih =>
    rw [contains, Bool.or_eq_true, ih, List.isPrefixOf_iff_prefix, List.infix_cons_iff]

theorem sharingStart_eq (name : String) (available : List String) :
    sharingStart name available = beginning name available := by
  refine List.filter_congr fun candidate _ => ?_
  rw [Bool.eq_iff_iff, decide_eq_true_iff, Bool.and_eq_true, List.isPrefixOf_iff_prefix, BeginsAs]
  simp

/-- The names that are added are the first of those that contain the name, as many as there is room
for. -/
theorem addContaining_eq (name : String) (limit : Nat) (found available : List String) :
    addContaining name limit found available =
      found ++ (containing name found available).take (limit - found.length) := by
  induction available generalizing found with
  | nil => simp [addContaining, containing]
  | cons candidate rest ih =>
    have hnew : (!name.isEmpty && contains (Text.lower name).toList (Text.lower candidate).toList
        && !found.contains candidate) = true ↔ Contains name candidate ∧ candidate ∉ found := by
      simp [contains_iff, Contains]
    rw [addContaining]
    by_cases hfull : limit ≤ found.length
    · rw [if_pos hfull, Nat.sub_eq_zero_of_le hfull, List.take_zero, List.append_nil]
    · rw [if_neg hfull]
      by_cases h : Contains name candidate ∧ candidate ∉ found
      · have hroom : limit - found.length = limit - (found ++ [candidate]).length + 1 := by
          rw [List.length_append, List.length_singleton]
          omega
        rw [if_pos (hnew.2 h), ih, containing_cons_of_new h, hroom, List.take_succ_cons,
          List.append_assoc, List.singleton_append]
      · rw [if_neg (mt hnew.1 h), ih, containing_cons_of_not_new h]

/-- The names that are shown are cut from those that the rule lists, or from all names if it lists
none. -/
theorem closest_eq (name : String) (available : List String) (limit : Nat) :
    closest name available limit =
      (if beginning name available = [] ∧
          containing name (beginning name available) available = [] then available
        else beginning name available ++
          containing name (beginning name available) available).take limit := by
  simp only [closest, sharingStart_eq, addContaining_eq]
  generalize beginning name available = first
  generalize containing name first available = second
  by_cases hnone : first = [] ∧ second = []
  · obtain ⟨rfl, rfl⟩ := hnone
    simp
  · rw [if_neg hnone]
    split
    · -- There are such names and none is found, so none was asked for.
      rename_i hempty
      rw [List.isEmpty_iff, List.append_eq_nil_iff, List.take_eq_nil_iff] at hempty
      obtain ⟨rfl, hlimit | hsecond⟩ := hempty
      · rw [List.length_nil, Nat.sub_zero] at hlimit
        rw [hlimit, List.take_zero, List.take_zero]
      · exact absurd ⟨rfl, hsecond⟩ hnone
    · rw [List.take_append, List.take_append, List.take_take, Nat.min_self]

theorem closest_subset (name : String) (available : List String) (limit : Nat) :
    closest name available limit ⊆ available := by
  rw [closest_eq]
  refine List.Subset.trans (List.take_subset _ _) ?_
  split
  · exact List.Subset.refl _
  · refine List.append_subset.2 ⟨List.filter_sublist.subset, fun candidate h => ?_⟩
    exact List.filter_sublist.subset (List.mem_eraseDups.1 h)

theorem closest_eq_nil_iff {name : String} {available : List String} {limit : Nat} :
    closest name available limit = [] ↔ available = [] ∨ limit = 0 := by
  constructor
  · intro h
    rw [closest_eq, List.take_eq_nil_iff] at h
    refine h.symm.imp_left fun hlist => ?_
    split at hlist
    · exact hlist
    · rename_i hnone
      exact absurd (List.append_eq_nil_iff.1 hlist) hnone
  · rintro (rfl | rfl)
    · exact List.eq_nil_of_subset_nil (closest_subset name [] limit)
    · rw [closest_eq, List.take_zero]

end Hint

/-! ## The law -/

/-- What is shown for a name that was not found are the first of these, up to the limit: the names
that begin with its first two characters, in order, and then the other names that contain it in any
case, in order and each once. If there is neither, the first of all names are shown. So there are
never more names than the limit, all of them are there to choose from, and none is shown only if
there is none or none is asked for. -/
theorem hints_are_those_of_the_rule (name : String) (available : List String) (limit : Nat) :
    Hint.closest name available limit =
        (let first := Hint.beginning name available
        let second := Hint.containing name first available
        if first = [] ∧ second = [] then available else first ++ second).take limit ∧
      (Hint.closest name available limit).length ≤ limit ∧
      Hint.closest name available limit ⊆ available ∧
      (Hint.closest name available limit = [] ↔ available = [] ∨ limit = 0) :=
  ⟨Hint.closest_eq name available limit, List.length_take_le _ _,
    Hint.closest_subset name available limit, Hint.closest_eq_nil_iff⟩

/-- A name that begins alike is shown as often as it is there, one that only contains the name is
shown once. -/
example : Hint.closest "Name" ["surname", "Nation", "age", "surname", "Nation"] 4 =
    ["Nation", "Nation", "surname"] := by decide +kernel

end Formwork
