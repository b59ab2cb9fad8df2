-- Equality of data that is built without doubles is an equivalence. It goes through lists place by
-- place and through records name by name, and equal data is of one kind and counts for true alike.
-- Doubles would break this: one that is no number differs from itself, and two whole numbers may
-- have the same nearest double.
import Mathlib.Data.List.Forall2
import Formwork.Proofs.Value.Equality

namespace Formwork

namespace Value

/-! ## Data without doubles -/

/-- Null, a truth value, a whole number, a text or a function. -/
def IsAtom : Value → Prop
  | .float _ | .list _ | .record _ => False
  | _ => True

/-- The data that is built from atoms by lists and records. A record has each of its names once. -/
inductive FloatFree : Value → Prop
  | atom {a : Value} : a.IsAtom → FloatFree a
  | list {items : List Value} : (∀ item ∈ items, FloatFree item) → FloatFree (.list items)
  | record {fields : Ordered Value} : fields.keys.Nodup →
    (∀ entry ∈ fields, FloatFree entry.2) → FloatFree (.record fields)

variable {a b c : Value} {items : List Value} {fields others : Ordered Value}

theorem not_floatFree_float (x : Float) : ¬(Value.float x).FloatFree := by
  rintro ⟨hatom⟩
  exact hatom

theorem floatFree_list_iff : (Value.list items).FloatFree ↔ ∀ item ∈ items, item.FloatFree := by
  refine ⟨?_, .list⟩
  rintro (hatom | hitems | _)
  · exact hatom.elim
  · exact hitems

theorem floatFree_record_iff : (Value.record fields).FloatFree ↔
    fields.keys.Nodup ∧ ∀ entry ∈ fields, entry.2.FloatFree := by
  refine ⟨?_, fun h => .record h.1 h.2⟩
  rintro (hatom | _ | ⟨hkeys, hvalues⟩)
  · exact hatom.elim
  · exact ⟨hkeys, hvalues⟩

/-- Records that are built pair by pair are among this data, whatever names come again. -/
theorem floatFree_ofPairs {pairs : List (String × Value)}
    (h : ∀ pair ∈ pairs, pair.2.FloatFree) : (ofPairs pairs).FloatFree :=
  .record (Ordered.nodup_keys_ofPairs pairs) fun entry hentry =>
    h entry (Ordered.mem_of_mem_ofPairs hentry)

theorem FloatFree.wellKeyed (h : a.FloatFree) : a.WellKeyed := by
  induction h with
  | @atom a hatom =>
    cases a with
    | list | record => exact hatom.elim
    | _ => trivial
  | list _ ih => exact allWellKeyed_iff.2 ih
  | record hkeys _ ih => exact ⟨hkeys, fieldsWellKeyed_iff.2 ih⟩

/-! ## What is equal to an atom, a list or a record -/

theorem equal_atom_iff (ha : a.IsAtom) (hb : b.FloatFree) : equal a b ↔ a = b := by
  have hfloat : ∀ x, b ≠ .float x := by
    rintro x rfl
    exact not_floatFree_float x hb
  cases a with
  | float | list | record => exact ha.elim
  | integer n =>
    cases b with
    | float x => exact absurd rfl (hfloat x)
    | _ => simp [equal]
  | _ => cases b <;> simp [equal]

theorem equal_list_iff :
    equal (.list items) b ↔ ∃ others, b = .list others ∧ equalItems items others := by
  cases b <;> simp [equal]

theorem equalItems_iff {as bs : List Value} :
    equalItems as bs ↔ List.Forall₂ (fun a b => equal a b) as bs := by
  induction as generalizing bs with
  | nil => cases bs <;> simp [equalItems]
  | cons a as ih => cases bs <;> simp [equalItems, ih]

theorem exists_of_equal_record (h : equal (.record fields) b) : ∃ others, b = .record others := by
  cases b with
  | record others => exact ⟨others, rfl⟩
  | _ => cases h

/-- Two records have the same names, whatever their order, and equal values under each. -/
def SameFields (fields others : Ordered Value) : Prop :=
  (∀ key, key ∈ fields.keys ↔ key ∈ others.keys) ∧
    ∀ key v w, (key, v) ∈ fields → (key, w) ∈ others → equal v w

/-- It takes a count of the names to see that the second record has no more of them. -/
theorem equal_record_iff (hfields : fields.keys.Nodup) (hothers : others.keys.Nodup) :
    equal (.record fields) (.record others) ↔ SameFields fields others := by
  simp only [equal, Bool.and_eq_true, beq_iff_eq]
  constructor
  · rintro ⟨hlength, hfound⟩
    have hsubset := keys_subset_of_foundIn hfound
    refine ⟨fun key => ⟨@hsubset key, @keys_subset_of_length _ _ hfields hlength hsubset key⟩,
      fun key v w hv hw => ?_⟩
    obtain ⟨there, hthere, hequal⟩ := foundIn_iff.1 hfound key v hv
    obtain rfl := Option.some.inj (hthere.symm.trans (Ordered.find?_of_mem hothers hw))
    exact hequal
  · rintro ⟨hkeys, hvalues⟩
    have hperm := (List.perm_ext_iff_of_nodup hfields hothers).2 hkeys
    refine ⟨by simpa [Ordered.keys] using hperm.length_eq, foundIn_iff.2 fun key v hv => ?_⟩
    obtain ⟨⟨_, w⟩, hw, rfl⟩ := List.mem_map.1 ((hkeys key).1 (Ordered.mem_keys hv))
    exact ⟨w, Ordered.find?_of_mem hothers hw, hvalues _ v w hv hw⟩

/-! ## Equivalence -/

theorem FloatFree.equal_refl (h : a.FloatFree) : equal a a := by
  induction h with
  | atom hatom => exact (equal_atom_iff hatom (.atom hatom)).2 rfl
  | list _ ih => exact equalItems_iff.2 (List.forall₂_same.2 ih)
  | record hkeys _ ih => exact equal_record_self hkeys ih

theorem FloatFree.equal_symm (ha : a.FloatFree) (hb : b.FloatFree) (h : equal a b) :
    equal b a := by
  rw [equal_comm hb.wellKeyed ha.wellKeyed]
  exact h

/-- Equality of lists goes through a third list, if that of their items does. -/
theorem equalItems_trans {as bs cs : List Value}
    (hitems : ∀ a ∈ as, ∀ b ∈ bs, ∀ c ∈ cs, equal a b → equal b c → equal a c)
    (hab : equalItems as bs) (hbc : equalItems bs cs) : equalItems as cs := by
  rw [equalItems_iff] at hab hbc ⊢
  induction hab generalizing cs with
  | nil => exact hbc
  | @cons a b as bs hfirst _ ih =>
    obtain ⟨c, cs, hsecond, hrest, rfl⟩ := List.forall₂_cons_left_iff.1 hbc
    refine .cons ?_ (ih (fun a ha b hb c hc => ?_) hrest)
    · exact hitems a List.mem_cons_self b List.mem_cons_self c List.mem_cons_self hfirst hsecond
    · exact hitems a (List.mem_cons_of_mem _ ha) b (List.mem_cons_of_mem _ hb) c
        (List.mem_cons_of_mem _ hc)

/-- Having the same fields goes through a third record, if equality of the values does. -/
theorem SameFields.trans {x y z : Ordered Value}
    (hvalues : ∀ u ∈ x, ∀ v ∈ y, ∀ w ∈ z, equal u.2 v.2 → equal v.2 w.2 → equal u.2 w.2)
    (hxy : SameFields x y) (hyz : SameFields y z) : SameFields x z := by
  refine ⟨fun key => (hxy.1 key).trans (hyz.1 key), fun key u w hu hw => ?_⟩
  obtain ⟨⟨_, v⟩, hv, rfl⟩ := List.mem_map.1 ((hxy.1 key).1 (Ordered.mem_keys hu))
  exact hvalues _ hu _ hv _ hw (hxy.2 _ u v hu hv) (hyz.2 _ v w hv hw)

theorem FloatFree.equal_trans (ha : a.FloatFree) (hb : b.FloatFree) (hc : c.FloatFree)
    (hab : equal a b) (hbc : equal b c) : equal a c := by
  induction ha generalizing b c with
  | atom hatom =>
    obtain rfl := (equal_atom_iff hatom hb).1 hab
    exact hbc
  | list _ ih =>
    obtain ⟨bs, rfl, habs⟩ := equal_list_iff.1 hab
    obtain ⟨cs, rfl, hbcs⟩ := equal_list_iff.1 hbc
    rw [floatFree_list_iff] at hb hc
    exact equalItems_trans (fun a ha b hb' c hc' => ih a ha (hb b hb') (hc c hc')) habs hbcs
  | record hkeys _ ih =>
    obtain ⟨ys, rfl⟩ := exists_of_equal_record hab
    obtain ⟨zs, rfl⟩ := exists_of_equal_record hbc
    rw [floatFree_record_iff] at hb hc
    rw [equal_record_iff hkeys hb.1] at hab
    rw [equal_record_iff hb.1 hc.1] at hbc
    exact (equal_record_iff hkeys hc.1).2 (hab.trans
      (fun u hu v hv w hw => ih u hu (hb.2 v hv) (hc.2 w hw)) hbc)

/-! ## Kind and truth -/

theorem isEmpty_eq_of_length_eq {α : Type} {as bs : List α} (h : as.length = bs.length) :
    as.isEmpty = bs.isEmpty := by
  rw [Bool.eq_iff_iff, List.isEmpty_iff_length_eq_zero, List.isEmpty_iff_length_eq_zero, h]

/-- Equal data is of one kind and counts for true alike. -/
theorem FloatFree.alike (ha : a.FloatFree) (hb : b.FloatFree) (h : equal a b) :
    a.isTruthy = b.isTruthy ∧ a.typeName = b.typeName := by
  cases ha with
  | atom hatom =>
    obtain rfl := (equal_atom_iff hatom hb).1 h
    exact ⟨rfl, rfl⟩
  | list _ =>
    obtain ⟨others, rfl, hitems⟩ := equal_list_iff.1 h
    have hlength := (equalItems_iff.1 hitems).length_eq
    exact ⟨congrArg not (isEmpty_eq_of_length_eq hlength), rfl⟩
  | record _ _ =>
    obtain ⟨others, rfl⟩ := exists_of_equal_record h
    rw [equal, Bool.and_eq_true, beq_iff_eq] at h
    exact ⟨congrArg not (isEmpty_eq_of_length_eq h.1), rfl⟩

/-! ## A desk -/

/-- A place on the second floor, its fields in one order or the other. -/
def place (roomFirst : Bool) : Value :=
  if roomFirst then ofPairs [("room", .string "b"), ("floor", .integer 2)]
  else ofPairs [("floor", .integer 2), ("room", .string "b")]

/-- A desk at that place that one person uses and another may. -/
def desk (roomFirst : Bool) : Value :=
  if roomFirst then ofPairs [("place", place true), ("users", .list [.string "Ann", .null])]
  else ofPairs [("users", .list [.string "Ann", .null]), ("place", place false)]

theorem place_floatFree (roomFirst : Bool) : (place roomFirst).FloatFree := by
  cases roomFirst <;> exact floatFree_ofPairs <| List.forall_mem_cons.2
    ⟨.atom trivial, List.forall_mem_singleton.2 (.atom trivial)⟩

theorem desk_floatFree (roomFirst : Bool) : (desk roomFirst).FloatFree := by
  have husers : (Value.list [.string "Ann", .null]).FloatFree := .list <| List.forall_mem_cons.2
    ⟨.atom trivial, List.forall_mem_singleton.2 (.atom trivial)⟩
  cases roomFirst
  · exact floatFree_ofPairs <| List.forall_mem_cons.2
      ⟨husers, List.forall_mem_singleton.2 (place_floatFree false)⟩
  · exact floatFree_ofPairs <| List.forall_mem_cons.2
      ⟨place_floatFree true, List.forall_mem_singleton.2 husers⟩

end Value

/-! ## The law -/

/-- Equality of data that is built without doubles is an equivalence: everything is equal to itself,
and the comparison is the same both ways and goes through a third piece of data. Two records are
equal exactly if they have the same names, whatever their order, with equal values. Equal data is of
one kind, and counts for true alike. -/
theorem equality_without_doubles_is_an_equivalence {a b c : Value} (ha : a.FloatFree)
    (hb : b.FloatFree) (hc : c.FloatFree) :
    a.equal a ∧ (a.equal b → b.equal a) ∧ (a.equal b → b.equal c → a.equal c) ∧
      (∀ fields others, a = .record fields → b = .record others →
        (a.equal b ↔ Value.SameFields fields others)) ∧
      (a.equal b → a.isTruthy = b.isTruthy ∧ a.typeName = b.typeName) := by
  refine ⟨ha.equal_refl, ha.equal_symm hb, ha.equal_trans hb hc, ?_, ha.alike hb⟩
  rintro fields others rfl rfl
  exact Value.equal_record_iff (Value.floatFree_record_iff.1 ha).1 (Value.floatFree_record_iff.1 hb).1

/-- A desk with its fields in another order, and those of its place too, is the same desk. -/
theorem equality_without_doubles_is_an_equivalence_of_desks :
    (Value.desk true).FloatFree ∧ (Value.desk false).FloatFree ∧
      (Value.desk true).equal (Value.desk false) ∧ (Value.desk false).equal (Value.desk true) ∧
      (∃ fields others, Value.desk true = .record fields ∧ Value.desk false = .record others ∧
        Value.SameFields fields others) ∧
      (Value.desk true).isTruthy = (Value.desk false).isTruthy := by
  have htrue := Value.desk_floatFree true
  have hfalse := Value.desk_floatFree false
  have hequal : (Value.desk true).equal (Value.desk false) := by decide +kernel
  obtain ⟨_, hsymm, _, hrecord, halike⟩ :=
    equality_without_doubles_is_an_equivalence htrue hfalse htrue
  exact ⟨htrue, hfalse, hequal, hsymm hequal,
    ⟨_, _, rfl, rfl, (hrecord _ _ rfl rfl).1 hequal⟩, (halike hequal).1⟩

/-- The two whole numbers are not equal, but both are equal to one double. -/
example : (Value.integer 9007199254740992).equal (.float 9007199254740992) ∧
    (Value.float 9007199254740992).equal (.integer 9007199254740993) ∧
    ¬ (Value.integer 9007199254740992).equal (.integer 9007199254740993) := by decide +kernel

end Formwork
