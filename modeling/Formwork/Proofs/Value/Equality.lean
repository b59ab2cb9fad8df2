-- Equality of data. Records are compared name by name, whatever the order of their names; that the
-- comparison is the same both ways takes a count of the names, none of which stands in a record
-- twice. Doubles are compared as the standard says, and so are whole numbers with doubles.
import Formwork.Value.Basic
import Mathlib.Data.List.Perm.Subperm

namespace Formwork

/-! ## Doubles -/

open Float.Model in
/-- Two doubles compare the one way as they do the other way, with the order turned around. -/
theorem unpacked_compare_swap (a b : UnpackedFloat) :
    (a.compare b).map Ordering.swap = b.compare a := by
  have hmagnitude : ∀ (e₁ e₂ : Int) (m₁ m₂ : Nat),
      ((compare e₁ e₂).then (compare m₁ m₂)).swap = (compare e₂ e₁).then (compare m₂ m₁) := by
    intro e₁ e₂ m₁ m₂
    rw [Ordering.swap_then, Int.compare_swap, Nat.compare_swap]
  cases a with
  | notANumber => cases b <;> rfl
  | infinity s =>
    cases b with
    | infinity s' => cases s <;> cases s' <;> rfl
    | _ => cases s <;> rfl
  | zero s =>
    cases b with
    | infinity s' => cases s' <;> rfl
    | finite s' => cases s' <;> rfl
    | _ => rfl
  | finite s m₁ e₁ =>
    cases b with
    | infinity s' => cases s <;> cases s' <;> rfl
    | notANumber => cases s <;> rfl
    | zero s' => cases s <;> rfl
    | finite s' m₂ e₂ =>
      cases s with
      | positive =>
        cases s' with
        | positive => exact congrArg some (hmagnitude e₁ e₂ m₁ m₂)
        | negative => rfl
      | negative =>
        cases s' with
        | positive => rfl
        | negative => exact congrArg (fun order => some order.swap) (hmagnitude e₁ e₂ m₁ m₂)

open Float.Model in
theorem unpacked_beq_comm (a b : UnpackedFloat) : a.beq b = b.beq a := by
  unfold UnpackedFloat.beq
  rw [← unpacked_compare_swap a b]
  rcases a.compare b with _ | (_ | _ | _) <;> rfl

theorem float_beq_comm (a b : Float) : (a == b) = (b == a) :=
  unpacked_beq_comm a.toModel.unpack b.toModel.unpack

namespace Value

/-! ## Well-keyed values -/

mutual

/-- No record in the value, however deep inside, has a name twice. -/
def WellKeyed : Value → Prop
  | .list items => AllWellKeyed items
  | .record fields => (Ordered.keys fields).Nodup ∧ FieldsWellKeyed fields
  | _ => True

/-- No record in the values has a name twice. -/
def AllWellKeyed : List Value → Prop
  | [] => True
  | item :: rest => item.WellKeyed ∧ AllWellKeyed rest

/-- No record in the values of the fields has a name twice. -/
def FieldsWellKeyed : List (String × Value) → Prop
  | [] => True
  | (_, value) :: rest => value.WellKeyed ∧ FieldsWellKeyed rest

end

theorem allWellKeyed_iff {items : List Value} :
    AllWellKeyed items ↔ ∀ item ∈ items, item.WellKeyed := by
  induction items with
  | nil => simp [AllWellKeyed]
  | cons item rest ih => simp [AllWellKeyed, ih]

theorem fieldsWellKeyed_iff {fields : List (String × Value)} :
    FieldsWellKeyed fields ↔ ∀ entry ∈ fields, entry.2.WellKeyed := by
  induction fields with
  | nil => simp [FieldsWellKeyed]
  | cons entry rest ih => simp [FieldsWellKeyed, ih]

/-- Records that are built pair by pair are well-keyed, whatever names come again. -/
theorem wellKeyed_ofPairs {pairs : List (String × Value)}
    (h : ∀ pair ∈ pairs, pair.2.WellKeyed) : (ofPairs pairs).WellKeyed :=
  ⟨Ordered.nodup_keys_ofPairs pairs, fieldsWellKeyed_iff.2 fun entry hentry =>
    h entry (Ordered.mem_of_mem_ofPairs hentry)⟩

/-! ## Records -/

theorem foundIn_iff {other : Ordered Value} {fields : List (String × Value)} :
    foundIn other fields ↔
      ∀ key value, (key, value) ∈ fields →
        ∃ there, other.find? key = some there ∧ equal value there := by
  induction fields with
  | nil => simp [foundIn]
  | cons entry rest ih =>
    obtain ⟨k, v⟩ := entry
    rw [foundIn, Bool.and_eq_true, ih]
    rcases hk : other.find? k with _ | there
    · refine iff_of_false (fun h => absurd h.1 Bool.false_ne_true) fun hall => ?_
      obtain ⟨there, hthere, _⟩ := hall k v List.mem_cons_self
      rw [hk] at hthere
      cases hthere
    · constructor
      · rintro ⟨hv, hrest⟩ key value hmem
        rcases List.mem_cons.1 hmem with heq | hmem
        · cases heq
          exact ⟨there, hk, hv⟩
        · exact hrest key value hmem
      · intro hall
        obtain ⟨found, hfound, hv⟩ := hall k v List.mem_cons_self
        obtain rfl := Option.some.inj (hk.symm.trans hfound)
        exact ⟨hv, fun key value hmem => hall key value (List.mem_cons_of_mem _ hmem)⟩

/-- A record equals itself if no name is there twice and each value equals itself. -/
theorem equal_record_self {fields : Ordered Value} (hkeys : fields.keys.Nodup)
    (hvalues : ∀ entry ∈ fields, equal entry.2 entry.2) : equal (.record fields) (.record fields) := by
  rw [equal, Bool.and_eq_true]
  refine ⟨beq_self_eq_true _, foundIn_iff.2 fun key value hmem => ?_⟩
  exact ⟨value, Ordered.find?_of_mem hkeys hmem, hvalues _ hmem⟩

theorem keys_subset_of_foundIn {a b : Ordered Value} (h : foundIn b a) : a.keys ⊆ b.keys := by
  intro key hkey
  obtain ⟨⟨_, v⟩, hmem, rfl⟩ := List.mem_map.1 hkey
  obtain ⟨w, hw, _⟩ := foundIn_iff.1 h _ v hmem
  exact Ordered.mem_keys (Ordered.mem_of_find? hw)

/-- Two records with as many names, none of which stands there twice, have the same names if one has
those of the other. -/
theorem keys_subset_of_length {a b : Ordered Value} (ha : a.keys.Nodup)
    (hlength : a.length = b.length) (hsubset : a.keys ⊆ b.keys) : b.keys ⊆ a.keys := by
  have hperm := (List.subperm_of_subset ha hsubset).perm_of_length_le
    (by simp [Ordered.keys, hlength])
  exact hperm.symm.subset

/-- A record with as many names as another one has the fields of that one with equal values, if it
is so the other way around and values compare the same both ways. -/
theorem foundIn_swap {a b : Ordered Value} (ha : a.keys.Nodup) (hb : b.keys.Nodup)
    (hlength : a.length = b.length)
    (hswap : ∀ key v w, (key, v) ∈ a → (key, w) ∈ b → equal v w → equal w v)
    (h : foundIn b a) : foundIn a b := by
  have hsubset := keys_subset_of_foundIn h
  rw [foundIn_iff] at h ⊢
  intro key w hw
  obtain ⟨⟨_, v⟩, hv, rfl⟩ :=
    List.mem_map.1 (keys_subset_of_length ha hlength hsubset (Ordered.mem_keys hw))
  obtain ⟨w', hw', hequal⟩ := h _ v hv
  obtain rfl : w = w' := Option.some.inj ((Ordered.find?_of_mem hb hw).symm.trans hw')
  exact ⟨v, Ordered.find?_of_mem ha hv, hswap _ v w hv hw hequal⟩

/-- Two records compare the same both ways if the values under each name do. -/
theorem equal_record_comm {a b : Ordered Value} (ha : a.keys.Nodup) (hb : b.keys.Nodup)
    (hvalues : ∀ key v w, (key, v) ∈ a → (key, w) ∈ b → equal v w = equal w v) :
    equal (.record a) (.record b) = equal (.record b) (.record a) := by
  rw [Bool.eq_iff_iff]
  simp only [equal, Bool.and_eq_true, beq_iff_eq]
  constructor
  · rintro ⟨hlength, hfound⟩
    exact ⟨hlength.symm, foundIn_swap ha hb hlength
      (fun key v w hv hw h => (hvalues key v w hv hw).symm.trans h) hfound⟩
  · rintro ⟨hlength, hfound⟩
    exact ⟨hlength.symm, foundIn_swap hb ha hlength
      (fun key v w hv hw h => (hvalues key w v hw hv).trans h) hfound⟩

/-! ## Symmetry -/

mutual

/-- Equality of well-keyed values is the same both ways. -/
theorem equal_comm : ∀ {a b : Value}, a.WellKeyed → b.WellKeyed → equal a b = equal b a
  | .null, b, _, _ => by cases b <;> rfl
  | .boolean x, b, _, _ => by
    cases b with
    | boolean y => exact BEq.comm
    | _ => rfl
  | .integer n, b, _, _ => by
    cases b with
    | integer m => exact BEq.comm
    | _ => rfl
  | .float x, b, _, _ => by
    cases b with
    | float y => exact float_beq_comm x y
    | _ => rfl
  | .string s, b, _, _ => by
    cases b with
    | string t => exact BEq.comm
    | _ => rfl
  | .list items, b, ha, hb => by
    cases b with
    | list others => exact equalItems_comm ha hb
    | _ => rfl
  | .record fields, b, ha, hb => by
    cases b with
    | record others =>
      exact equal_record_comm ha.1 hb.1 fun key v w hv hw =>
        fields_comm ha.2 _ hv w (fieldsWellKeyed_iff.1 hb.2 _ hw)
    | _ => rfl
  | .function n, b, _, _ => by
    cases b with
    | function m => exact BEq.comm
    | _ => rfl
termination_by structural a => a

/-- Equality of lists of such values is symmetric. -/
theorem equalItems_comm : ∀ {as bs : List Value}, AllWellKeyed as → AllWellKeyed bs →
    equalItems as bs = equalItems bs as
  | [], [], _, _ => rfl
  | [], _ :: _, _, _ => rfl
  | _ :: _, [], _, _ => rfl
  | _ :: _, _ :: _, has, hbs => by
    rw [equalItems, equalItems, equal_comm has.1 hbs.1, equalItems_comm has.2 hbs.2]
termination_by structural as => as

/-- The values of the fields of a record compare the same both ways with anything. -/
theorem fields_comm : ∀ {fields : List (String × Value)}, FieldsWellKeyed fields →
    ∀ entry ∈ fields, ∀ w : Value, w.WellKeyed → equal entry.2 w = equal w entry.2
  | (_, _) :: _, hfields, entry, hmem, w, hw => by
    rcases List.mem_cons.1 hmem with rfl | hmem
    · exact equal_comm hfields.1 hw
    · exact fields_comm hfields.2 entry hmem w hw
termination_by structural fields => fields

end

end Value

end Formwork
