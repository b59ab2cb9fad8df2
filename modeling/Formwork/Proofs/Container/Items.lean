-- The items of an extension. The check of a combination goes over the items once and keeps the
-- values it has met; what it accepts is said here of pairs of items instead, whichever comes first.
-- So the order of the items is nothing to the check.
import Formwork.Container.Declare
import Formwork.Container.Query
import Formwork.Container.Setup
import Formwork.Proofs.Run
import Formwork.Proofs.Validation.Counting
import Formwork.Proofs.Value.Equality

namespace Formwork

/-! ## Combinations -/

namespace UniqueCheck

variable {u : UniqueCheck} {item other : Value} {items : List Value}

/-- The values of the fields in a record. A missing field counts as null. -/
def valuesOf (u : UniqueCheck) (fields : Ordered Value) : List Value :=
  u.fields.map fun field => (fields.find? field).getD .null

/-- The record takes part in the check: none of its values is null, unless the check is strict. -/
def Counts (u : UniqueCheck) (fields : Ordered Value) : Prop :=
  u.ignoreNone → ∀ value ∈ u.valuesOf fields, value ≠ .null

/-- The items are records that take part in the check, and share their values. -/
def Clash (u : UniqueCheck) (item other : Value) : Prop :=
  ∃ fields others, item = .record fields ∧ other = .record others ∧
    u.Counts fields ∧ u.Counts others ∧ Value.equalItems (u.valuesOf fields) (u.valuesOf others)

/-- The item is a record that takes part in the check, and has values that were seen before. -/
def Met (u : UniqueCheck) (seen : List (List Value)) (item : Value) : Prop :=
  ∃ fields, item = .record fields ∧ u.Counts fields ∧
    ∃ earlier ∈ seen, Value.equalItems earlier (u.valuesOf fields)

/-- All items are records, and no two at different places share their values. -/
def Accepts (u : UniqueCheck) (items : List Value) : Prop :=
  (∀ item ∈ items, ∃ fields, item = .record fields) ∧
    ∀ (i j : Nat) (hi : i < items.length) (hj : j < items.length), i ≠ j →
      ¬ u.Clash items[i] items[j]

theorem counts_iff {fields : Ordered Value} :
    u.Counts fields ↔ (u.ignoreNone && (u.valuesOf fields).any Value.isNull) = false := by
  have hnull : ∀ value : Value, value.isNull = false ↔ value ≠ .null := by
    intro value
    cases value <;> simp [Value.isNull]
  rw [Counts]
  cases u.ignoreNone <;> simp [hnull]

theorem met_record_iff {seen : List (List Value)} {fields : Ordered Value} :
    u.Met seen (.record fields) ↔
      u.Counts fields ∧ seen.any fun earlier => Value.equalItems earlier (u.valuesOf fields) := by
  rw [List.any_eq_true]
  constructor
  · rintro ⟨_, ⟨⟩, hcounts, hseen⟩
    exact ⟨hcounts, hseen⟩
  · rintro ⟨hcounts, hseen⟩
    exact ⟨fields, rfl, hcounts, hseen⟩

/-- Whoever has the values of a record that counts clashes with it. -/
theorem met_cons_iff {seen : List (List Value)} {fields : Ordered Value}
    (hcounts : u.Counts fields) :
    u.Met (u.valuesOf fields :: seen) item ↔ u.Clash (.record fields) item ∨ u.Met seen item := by
  constructor
  · rintro ⟨others, rfl, hothers, earlier, hearlier, hequal⟩
    rcases List.mem_cons.1 hearlier with rfl | hearlier
    · exact .inl ⟨fields, others, rfl, rfl, hcounts, hothers, hequal⟩
    · exact .inr ⟨others, rfl, hothers, earlier, hearlier, hequal⟩
  · rintro (⟨_, others, ⟨⟩, rfl, _, hothers, hequal⟩ | ⟨others, rfl, hothers, earlier, hmem, hequal⟩)
    · exact ⟨others, rfl, hothers, _, List.mem_cons_self, hequal⟩
    · exact ⟨others, rfl, hothers, earlier, List.mem_cons_of_mem _ hmem, hequal⟩

/-- A record that is left out clashes with nothing. -/
theorem not_clash_of_not_counts {fields : Ordered Value} (h : ¬ u.Counts fields) :
    ¬ u.Clash (.record fields) other := by
  rintro ⟨_, _, ⟨⟩, _, hcounts, _⟩
  exact h hcounts

theorem firstRepeat_record (index : Nat) (seen : List (List Value)) (fields : Ordered Value)
    (rest : List Value) :
    u.firstRepeat index seen (.record fields :: rest) =
      if u.ignoreNone && (u.valuesOf fields).any Value.isNull then
        u.firstRepeat (index + 1) seen rest
      else if seen.any fun earlier => Value.equalItems earlier (u.valuesOf fields) then
        .ok (some index)
      else u.firstRepeat (index + 1) (u.valuesOf fields :: seen) rest := rfl

/-- The check stops with an error at an item that is no record. -/
theorem record_of_firstRepeat {index : Nat} {seen : List (List Value)} {rest : List Value}
    {found : Option Nat} (h : u.firstRepeat index seen (item :: rest) = .ok found) :
    ∃ fields, item = .record fields := by
  obtain ⟨values, hkey, _⟩ := except_bind_ok h
  cases item with
  | record fields => exact ⟨fields, rfl⟩
  | _ => cases hkey

/-- The check goes through exactly if all items are records, none has values that were seen before,
and none clashes with one before it. -/
theorem firstRepeat_eq_none_iff : ∀ {items : List Value} {index : Nat} {seen : List (List Value)},
    u.firstRepeat index seen items = .ok none ↔
      (∀ item ∈ items, ∃ fields, item = .record fields) ∧ (∀ item ∈ items, ¬ u.Met seen item) ∧
        items.Pairwise fun item other => ¬ u.Clash item other
  | [], _, _ => by simp [firstRepeat]
  | item :: rest, index, seen => by
    by_cases hrecord : ∃ fields, item = .record fields
    swap
    · exact iff_of_false (fun h => hrecord (record_of_firstRepeat h))
        fun h => hrecord (h.1 item List.mem_cons_self)
    obtain ⟨fields, rfl⟩ := hrecord
    simp only [List.forall_mem_cons, List.pairwise_cons, met_record_iff, firstRepeat_record]
    by_cases hcounts : u.Counts fields
    swap
    · -- The record is left out, and what was seen stays as it is.
      rw [if_pos (by simpa [counts_iff] using hcounts), firstRepeat_eq_none_iff]
      simp [hcounts, not_clash_of_not_counts hcounts]
    rw [counts_iff.1 hcounts, if_neg Bool.false_ne_true]
    by_cases hseen : seen.any fun earlier => Value.equalItems earlier (u.valuesOf fields)
    · rw [if_pos hseen]
      exact iff_of_false (fun h => by cases h) fun h => h.2.1.1 ⟨hcounts, hseen⟩
    · -- The values of the record are seen from here on.
      rw [if_neg hseen, firstRepeat_eq_none_iff]
      simp only [met_cons_iff hcounts, not_or, forall_and]
      grind

/-- Where violations are errors, whatever result there is says that there is none. -/
theorem validate_raise_ok_iff {found : Bool} :
    u.validate items true = .ok found ↔ found = true ∧ u.firstRepeat 0 [] items = .ok none := by
  show (u.firstRepeat 0 [] items >>= _) = _ ↔ _
  rcases u.firstRepeat 0 [] items with e | _ | index
  · exact iff_of_false (fun h => by cases h) fun h => by cases h.2
  · cases found
    · exact iff_of_false (fun h => by cases h) fun h => by cases h.1
    · exact iff_of_true rfl ⟨rfl, rfl⟩
  · exact iff_of_false (fun h => by cases h) fun h => by cases h.2

/-! ## Whichever comes first -/

/-- Items that clash do so both ways. -/
theorem Clash.symm (hitem : item.WellKeyed) (hother : other.WellKeyed) (h : u.Clash item other) :
    u.Clash other item := by
  have hvalues : ∀ {fields : Ordered Value}, (Value.record fields).WellKeyed →
      Value.AllWellKeyed (u.valuesOf fields) := by
    intro fields hfields
    refine Value.allWellKeyed_iff.2 (List.forall_mem_map.2 fun field _ => ?_)
    rcases hfound : fields.find? field with _ | value
    · trivial
    · exact Value.fieldsWellKeyed_iff.1 hfields.2 _ (Ordered.mem_of_find? hfound)
  obtain ⟨fields, others, rfl, rfl, hcounts, hothers, hequal⟩ := h
  rw [Value.equalItems_comm (hvalues hitem) (hvalues hother)] at hequal
  exact ⟨others, fields, rfl, rfl, hothers, hcounts, hequal⟩

/-- What is accepted said of pairs of items, each of which may be the first of the two. -/
theorem accepts_iff : u.Accepts items ↔
    (∀ item ∈ items, ∃ fields, item = .record fields) ∧
      items.Pairwise fun item other => ¬ u.Clash item other ∧ ¬ u.Clash other item := by
  rw [Accepts, List.pairwise_iff_getElem]
  refine and_congr_right fun _ => ⟨fun h i j hi hj hlt => ?_, fun h i j hi hj hne => ?_⟩
  · exact ⟨h i j hi hj (Nat.ne_of_lt hlt), h j i hj hi (Nat.ne_of_gt hlt)⟩
  · rcases Nat.lt_or_gt_of_ne hne with hlt | hgt
    · exact (h i j hi hj hlt).1
    · exact (h j i hj hi hgt).2

/-- The order of the items is nothing to what is accepted. -/
theorem Accepts.perm {others : List Value} (hperm : items.Perm others) :
    u.Accepts items ↔ u.Accepts others := by
  rw [accepts_iff, accepts_iff, hperm.pairwise_iff And.symm]
  simp only [hperm.mem_iff]

/-- The check of items in their order, each against those before it, says whether they are
accepted. -/
theorem firstRepeat_iff_accepts (hitems : ∀ item ∈ items, item.WellKeyed) :
    u.firstRepeat 0 [] items = .ok none ↔ u.Accepts items := by
  rw [firstRepeat_eq_none_iff, accepts_iff]
  have hunseen : ∀ item ∈ items, ¬ u.Met [] item := by
    rintro item _ ⟨_, _, _, _, hnone, _⟩
    cases hnone
  refine and_congr_right fun _ => ⟨fun ⟨_, h⟩ => ?_, fun h => ⟨hunseen, h.imp And.left⟩⟩
  refine h.imp_of_mem fun hitem hother hclash => ⟨hclash, fun hswap => hclash ?_⟩
  exact hswap.symm (hitems _ hother) (hitems _ hitem)

end UniqueCheck

/-! ## Items of an extension -/

namespace Container

variable {c : Container} {items : List Value}

theorem components_of_isFinished (hc : c.isFinished) : ∃ tree, c.components = .ok tree := by
  obtain ⟨p, _ | ⟨heap, tree⟩ | _⟩ := c
  · cases hc
  · exact ⟨tree, rfl⟩
  · cases hc

/-- The items are accepted exactly if the rule allows their number, and no combination is repeated
as far as each check sees. -/
theorem validateChildren_ok_iff (hc : c.isFinished) :
    c.validateChildren items = .ok () ↔
      (∀ check, c.profile.cardinality = some check → check.rule.Allows items.length) ∧
        ∀ u ∈ c.profile.uniques, u.firstRepeat 0 [] items = .ok none := by
  obtain ⟨tree, htree⟩ := components_of_isFinished hc
  have huniques : (c.profile.uniques.forM fun check => do let _ ← check.validate items true) =
      .ok () ↔ ∀ u ∈ c.profile.uniques, u.firstRepeat 0 [] items = .ok none := by
    simp only [except_forM_ok_iff, except_bind_eq_ok, UniqueCheck.validate_raise_ok_iff]
    exact forall₂_congr fun u _ => ⟨fun ⟨_, h, _⟩ => h.2, fun h => ⟨true, ⟨rfl, h⟩, rfl⟩⟩
  rw [← huniques]
  unfold validateChildren
  rw [htree]
  rcases c.profile.cardinality with _ | check
  · exact ⟨fun h => ⟨fun _ hcheck => (by cases hcheck), h⟩, fun h => h.2⟩
  · show (check.validate items.length true >>= fun _ => _) = _ ↔ _
    simp only [except_bind_eq_ok, CardinalityCheck.validate_raise_ok_iff, Option.some.injEq,
      forall_eq']
    exact ⟨fun ⟨_, h, hrest⟩ => ⟨h.2, hrest⟩, fun ⟨h, hrest⟩ => ⟨true, ⟨rfl, h⟩, hrest⟩⟩

/-- What is accepted, said of pairs of items. -/
theorem validateChildren_iff_accepts (hc : c.isFinished) (hitems : ∀ item ∈ items, item.WellKeyed) :
    c.validateChildren items = .ok () ↔
      (∀ check, c.profile.cardinality = some check → check.rule.Allows items.length) ∧
        ∀ u ∈ c.profile.uniques, u.Accepts items := by
  rw [validateChildren_ok_iff hc]
  refine and_congr_right fun _ => forall₂_congr fun u _ => ?_
  rw [← UniqueCheck.firstRepeat_iff_accepts hitems]

end Container

/-! ## A team to look at -/

/-- A firm with its staff. -/
def RecordModel.firm : RecordModel :=
  let person : RecordModel := ⟨"Person", .struct, [⟨"age", .plain (.scalar .int), true, none⟩]⟩
  ⟨"Firm", .struct, [⟨"staff", .list (.plain (.model person)), true, none⟩]⟩

/-- A team of one to five from the staff of a firm, no two of them of the same age. -/
def Container.team : Container :=
  let staff : Expression := .path .models ⟨"firm", none⟩ [⟨"staff", none⟩] .pending
  let age : Expression := .path .models ⟨"person", none⟩ [⟨"age", none⟩] .pending
  let field : Field := ⟨"age", age, .input, .input, none, none, none, none, none⟩
  let model : ModelTree := .node ⟨"person", .expression staff⟩ []
  let p := newProfile "team" (.extension none) model (some (.ofRule (.range (some 1) (some 5))))
  (Container.mk p (.declared model [.ofField field [] []] [] [])).withUnique
    ⟨none, none, .children, ["age"], true⟩

/-- An office with a team. -/
def Container.teamOffice : Container :=
  let model : ModelTree := .node ⟨"firm", .type (.plain (.model RecordModel.firm))⟩ []
  .mk (newProfile "office" .ruleSet model none) (.declared model [.leaf (.extension team)] [] [])

/-- Someone of some age. -/
def Value.aged (age : Int64) : Value := ofPairs [("age", .integer age)]

theorem Value.aged_wellKeyed (age : Int64) : (aged age).WellKeyed :=
  wellKeyed_ofPairs (List.forall_mem_singleton.2 trivial)

/-! ## The law -/

/-- Items of an extension are accepted whatever their order. Let a container be finished, and let no
record in the items have a name twice. Then the items are accepted exactly if the rule for their
number, if there is one, allows as many, and for every combination all items are records and no two
at different places share their values on its fields; a missing field counts as null, and an item
with a null there is left out, unless the check is strict. The items in another order are accepted
or refused alike. -/
theorem items_are_accepted_in_any_order {c : Container} {items : List Value} (hc : c.isFinished)
    (hitems : ∀ item ∈ items, item.WellKeyed) :
    (c.validateChildren items = .ok () ↔
      (∀ check, c.profile.cardinality = some check → check.rule.Allows items.length) ∧
        ∀ u ∈ c.profile.uniques, u.Accepts items) ∧
      ∀ others, items.Perm others →
        (c.validateChildren items = .ok () ↔ c.validateChildren others = .ok ()) := by
  refine ⟨Container.validateChildren_iff_accepts hc hitems, fun others hperm => ?_⟩
  have hothers : ∀ item ∈ others, item.WellKeyed := fun item hitem =>
    hitems item (hperm.mem_iff.2 hitem)
  rw [Container.validateChildren_iff_accepts hc hitems,
    Container.validateChildren_iff_accepts hc hothers, hperm.length_eq]
  simp only [UniqueCheck.Accepts.perm hperm]

/-- A team of two, one of whom is older, is accepted whoever comes first. Two of the same age are
not. -/
theorem items_are_accepted_in_any_order_in_a_team : ∃ team,
    Container.teamOffice.setup.2.extensions = [team] ∧ team.isFinished ∧
      team.validateChildren [.aged 41, .aged 42] = .ok () ∧
      team.validateChildren [.aged 42, .aged 41] = .ok () ∧
      team.validateChildren [.aged 41, .aged 41] ≠ .ok () := by
  have hteam : Container.teamOffice.setup.2.extensions.map
      (fun team => (team.isFinished, team.profile.cardinality, team.profile.uniques)) =
      [(true, some ⟨none, some "team", .range (some 1) (some 5)⟩,
        [⟨none, some "team", .children, ["age"], true⟩])] := by decide +kernel
  obtain ⟨team, hextensions, hparts⟩ := List.map_eq_singleton_iff.1 hteam
  simp only [Prod.mk.injEq] at hparts
  obtain ⟨hfinished, hcardinality, huniques⟩ := hparts
  have hkeyed : ∀ first second, ∀ item ∈ [Value.aged first, Value.aged second], item.WellKeyed := by
    intro first second
    simp only [List.forall_mem_cons, Value.aged_wellKeyed, List.not_mem_nil, false_implies,
      implies_true, and_self]
  obtain ⟨haccepts, horder⟩ := items_are_accepted_in_any_order hfinished (hkeyed 41 42)
  have hok : team.validateChildren [.aged 41, .aged 42] = .ok () := by
    refine haccepts.2 ⟨fun check hcheck => ?_, fun u hu => ?_⟩
    · rw [hcardinality, Option.some.injEq] at hcheck
      subst hcheck
      exact ⟨fun lo hlo => (by cases hlo; decide), fun hi hhi => (by cases hhi; decide)⟩
    · rw [huniques, List.mem_singleton] at hu
      subst hu
      exact (UniqueCheck.firstRepeat_iff_accepts (hkeyed 41 42)).1 rfl
  refine ⟨team, hextensions, hfinished, hok, (horder _ (.swap ..)).1 hok, fun hsame => ?_⟩
  have hnone := ((Container.validateChildren_ok_iff hfinished).1 hsame).2
  rw [huniques, List.forall_mem_singleton] at hnone
  cases hnone

end Formwork
