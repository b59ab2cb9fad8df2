-- Combinations of fields, and the attributes that the fields are bound to. A combination lists the
-- names of fields. Setup finds these names among the components, the check of the items looks for
-- them in the records, and there they are attributes. So it matters that a field is named after its
-- attribute: one with a name of its own is missing in every record, and a combination with such a
-- field stops nobody.
import Mathlib.Data.List.Dedup
import Formwork.Proofs.Container.Items
import Formwork.Proofs.Container.Links

namespace Formwork

/-! ## Records that repeat -/

namespace Value

/-- The records agree at a name: both have a value there, the two are equal, and neither is null. -/
def AgreeAt (name : String) (fields others : Ordered Value) : Prop :=
  ∃ value other, fields.find? name = some value ∧ others.find? name = some other ∧
    value ≠ .null ∧ other ≠ .null ∧ equal value other

/-- Two of the items, at different places, agree at all the names. -/
def Repeats (names : List String) (items : List Value) : Prop :=
  ∃ (i j : Nat) (fields others : Ordered Value), i ≠ j ∧ items[i]? = some (.record fields) ∧
    items[j]? = some (.record others) ∧ ∀ name ∈ names, AgreeAt name fields others

/-- All items are records, and none has a name twice. -/
def AreRecords (items : List Value) : Prop :=
  ∀ item ∈ items, item.WellKeyed ∧ ∃ fields, item = .record fields

/-- Two lists that one list gives are equal exactly if they are at each of its members. -/
theorem equalItems_map_iff {α : Type} {f g : α → Value} {as : List α} :
    equalItems (as.map f) (as.map g) ↔ ∀ a ∈ as, equal (f a) (g a) := by
  induction as with
  | nil => simp [equalItems]
  | cons a rest ih => simp [equalItems, ih]

/-- A record with a number of its own under one name, and the same number as all others under some
more. -/
def numbered (name : String) (n : Int64) (names : List String) : Ordered Value :=
  (name, .integer n) :: names.dedup.map fun other => (other, .integer 1)

section Numbered

variable {name other : String} {names : List String} {n m : Int64}

theorem nodup_keys_numbered (h : name ∉ names) : (numbered name n names).keys.Nodup := by
  have hkeys : (numbered name n names).keys = name :: names.dedup := by
    simp [numbered, Ordered.keys, Function.comp_def]
  rw [hkeys, List.nodup_cons, List.mem_dedup]
  exact ⟨h, names.nodup_dedup⟩

theorem numbered_wellKeyed (h : name ∉ names) : (record (numbered name n names)).WellKeyed := by
  refine ⟨nodup_keys_numbered h, fieldsWellKeyed_iff.2 (List.forall_mem_cons.2 ⟨trivial, ?_⟩)⟩
  exact List.forall_mem_map.2 fun _ _ => trivial

theorem find?_numbered_self : (numbered name n names).find? name = some (.integer n) := by
  rw [numbered, Ordered.find?_cons, if_pos rfl]

theorem find?_numbered (h : name ∉ names) (hother : other ∈ names) :
    (numbered name n names).find? other = some (.integer 1) := by
  refine Ordered.find?_of_mem (nodup_keys_numbered h) (List.mem_cons_of_mem _ ?_)
  exact List.mem_map_of_mem (List.mem_dedup.2 hother)

/-- Two such records repeat each other, but for their own numbers. -/
theorem repeats_numbered (h : name ∉ names) :
    Repeats names [.record (numbered name n names), .record (numbered name m names)] := by
  refine ⟨0, 1, _, _, Nat.zero_ne_one, rfl, rfl, fun other hother => ?_⟩
  exact ⟨_, _, find?_numbered h hother, find?_numbered h hother, nofun, nofun, by simp [equal]⟩

theorem areRecords_numbered (h : name ∉ names) :
    AreRecords [.record (numbered name n names), .record (numbered name m names)] := by
  intro item hitem
  rcases List.mem_pair.1 hitem with rfl | rfl
  · exact ⟨numbered_wellKeyed h, _, rfl⟩
  · exact ⟨numbered_wellKeyed h, _, rfl⟩

end Numbered

end Value

/-! ## Checking a combination -/

namespace UniqueCheck

variable {u : UniqueCheck} {names : List String} {items : List Value}

/-- Records that agree wherever the check looks have the values that it compares. -/
theorem clash_of_agree {fields others : Ordered Value}
    (h : ∀ name ∈ u.fields, Value.AgreeAt name fields others) :
    u.Clash (.record fields) (.record others) := by
  refine ⟨fields, others, rfl, rfl, fun _ => ?_, fun _ => ?_, Value.equalItems_map_iff.2 ?_⟩
  · refine List.forall_mem_map.2 fun name hname => ?_
    obtain ⟨value, _, hvalue, _, hnull, _⟩ := h name hname
    rwa [hvalue]
  · refine List.forall_mem_map.2 fun name hname => ?_
    obtain ⟨_, other, _, hother, _, hnull, _⟩ := h name hname
    rwa [hother]
  · intro name hname
    obtain ⟨value, other, hvalue, hother, _, _, hequal⟩ := h name hname
    rwa [hvalue, hother]

/-- A check that looks only where records repeat each other does not accept them. -/
theorem not_accepts_of_repeats (hnames : u.fields ⊆ names) (h : Value.Repeats names items) :
    ¬ u.Accepts items := by
  obtain ⟨i, j, fields, others, hne, hi, hj, hagree⟩ := h
  obtain ⟨hilt, hi⟩ := List.getElem?_eq_some_iff.1 hi
  obtain ⟨hjlt, hj⟩ := List.getElem?_eq_some_iff.1 hj
  intro haccepts
  refine haccepts.2 i j hilt hjlt hne ?_
  rw [hi, hj]
  exact clash_of_agree fun name hname => hagree name (hnames hname)

/-- Records that clash have equal values wherever the check looks. -/
theorem Clash.equal_at {fields others : Ordered Value} {name : String}
    (h : u.Clash (.record fields) (.record others)) (hname : name ∈ u.fields) :
    Value.equal ((fields.find? name).getD .null) ((others.find? name).getD .null) := by
  obtain ⟨_, _, ⟨⟩, ⟨⟩, _, _, hequal⟩ := h
  exact Value.equalItems_map_iff.1 hequal name hname

/-- A check that looks somewhere else as well accepts records that repeat each other. -/
theorem accepts_numbered {name : String} (hname : name ∈ u.fields) (hother : name ∉ names) :
    u.Accepts [.record (Value.numbered name 1 names), .record (Value.numbered name 2 names)] := by
  have hdiffer : ∀ n m : Int64, n ≠ m →
      ¬ u.Clash (.record (Value.numbered name n names)) (.record (Value.numbered name m names)) := by
    intro n m hne hclash
    have hequal := hclash.equal_at hname
    rw [Value.find?_numbered_self, Value.find?_numbered_self] at hequal
    exact hne (by simpa [Value.equal] using hequal)
  rw [accepts_iff]
  refine ⟨fun item hitem => (Value.areRecords_numbered hother item hitem).2, ?_⟩
  refine List.pairwise_pair.2 ⟨hdiffer 1 2 (by decide), hdiffer 2 1 (by decide)⟩

/-- What is accepted is what the check lets pass. -/
theorem validate_of_accepts (hitems : Value.AreRecords items) (h : u.Accepts items) :
    u.validate items true = .ok true :=
  validate_raise_ok_iff.2 ⟨rfl, (firstRepeat_iff_accepts fun item hitem => (hitems item hitem).1).2 h⟩

end UniqueCheck

/-! ## Fields and their attributes -/

/-- The model and the attribute that a field is bound to, where it is bound to an attribute of a
model and to nothing further inside. -/
def Field.attribute? (f : Field) : Option (String × String) :=
  match f.bind with
  | .path .models root [hop] _ => some (root.name, hop.name)
  | _ => none

/-- A field that is named after its attribute has the attribute's name. -/
theorem Field.nameOfBind_of_attribute {f : Field} {model name : String}
    (h : f.attribute? = some (model, name)) : nameOfBind f.bind = .ok name := by
  unfold attribute? at h
  split at h
  · rename_i root hop state hbind
    obtain ⟨rfl, rfl⟩ := Prod.mk.inj (Option.some.inj h)
    rw [hbind]
    rfl
  · cases h

namespace Container

/-- The fields of a container. -/
def fields (c : Container) : List Field :=
  ((c.tree?.map TreeOf.nodes).getD []).filterMap fun node =>
    match node.part with
    | some (.field f) => some f
    | _ => none

/-- Under a name, the container has a field for an attribute of its main model. -/
def Shows (c : Container) (name shown : String) : Prop :=
  ∃ f ∈ c.fields, f.name = name ∧ f.attribute? = some (c.profile.mainModel, shown)

variable {c : Container}

/-- Where fields are named after their attributes, the names of fields are those of attributes. -/
theorem attributes_eq_of_named {names attributes : List String}
    (hshows : List.Forall₂ c.Shows names attributes)
    (hnamed : ∀ f ∈ c.fields, f.name ∈ names → Field.nameOfBind f.bind = .ok f.name) :
    names = attributes := by
  induction hshows with
  | nil => rfl
  | cons hfirst _ ih =>
    obtain ⟨f, hf, rfl, hshown⟩ := hfirst
    have hname := (hnamed f hf List.mem_cons_self).symm.trans (Field.nameOfBind_of_attribute hshown)
    rw [Except.ok.inj hname, ih fun g hg hmem => hnamed g hg (List.mem_cons_of_mem _ hmem)]

theorem isFinished_of_setup {c' k : Container} (hsetup : c.setup = (.ok (), c'))
    (hk : c'.Holds k) : k.isFinished := by
  obtain ⟨_, _, hbecame⟩ := became_of_setup hsetup hk
  obtain ⟨_, _, hrun⟩ := hbecame
  obtain ⟨_, _, _, rfl⟩ := conclude_ok hrun
  rfl

/-- The only field of a container stands under its name for its attribute. -/
theorem shows_of_fields {model name shown : String} (hmain : c.profile.mainModel = model)
    (h : c.fields.map (fun f => (f.name, f.attribute?)) = [(name, some (model, shown))]) :
    c.Shows name shown := by
  obtain ⟨f, hfields, hf⟩ := List.map_eq_singleton_iff.1 h
  obtain ⟨hname, hshown⟩ := Prod.mk.inj hf
  exact ⟨f, by rw [hfields]; exact List.mem_singleton_self f, hname, by rw [hmain, hshown]⟩

end Container

/-! ## Offices to look at -/

/-- A team from the staff of a firm, no two of them of the same age, where the field for the age has
some name. -/
def Container.agedTeam (name : String) : Container :=
  let staff : Expression := .path .models ⟨"firm", none⟩ [⟨"staff", none⟩] .pending
  let age : Expression := .path .models ⟨"person", none⟩ [⟨"age", none⟩] .pending
  let field : Field := ⟨name, age, .input, .input, none, none, none, none, none⟩
  let model : ModelTree := .node ⟨"person", .expression staff⟩ []
  let p := newProfile "team" (.extension none) model (some (.ofRule (.multi false)))
  (Container.mk p (.declared model [.ofField field [] []] [] [])).withUnique
    ⟨none, none, .children, [name], true⟩

/-- An office with such a team. -/
def Container.agedOffice (name : String) : Container :=
  let model : ModelTree := .node ⟨"firm", .type (.plain (.model RecordModel.firm))⟩ []
  .mk (newProfile "office" .ruleSet model none)
    (.declared model [.leaf (.extension (agedTeam name))] [] [])

/-- An office that is set up holds its team, with the combination and the field that it was declared
with. -/
theorem Container.team_of_agedOffice {name : String} (hok : (agedOffice name).setup.1.isOk)
    (hteam : (agedOffice name).setup.2.extensions.map (fun team =>
      (team.profile.uniques, team.profile.mainModel)) =
      [([⟨none, some "team", .children, [name], true⟩], "person")])
    (hfields : (agedOffice name).setup.2.extensions.map (fun team =>
      team.fields.map fun f => (f.name, f.attribute?)) = [[(name, some ("person", "age"))]]) :
    ∃ c team, (agedOffice name).setup = (.ok (), c) ∧ c.extensions = [team] ∧ c.Holds team ∧
      team.profile.uniques = [⟨none, some "team", .children, [name], true⟩] ∧
      team.Shows name "age" := by
  rcases hsetup : (agedOffice name).setup with ⟨_ | ⟨⟩, c⟩ <;> rw [hsetup] at hok hteam hfields
  · cases hok
  obtain ⟨team, hextensions, hparts⟩ := List.map_eq_singleton_iff.1 hteam
  obtain ⟨huniques, hmain⟩ := Prod.mk.inj hparts
  rw [hextensions, List.map_singleton, List.singleton_inj] at hfields
  exact ⟨c, team, rfl, hextensions, holds_of_extensions hextensions, huniques,
    shows_of_fields hmain hfields⟩

theorem Value.aged_areRecords (age : Int64) : AreRecords [aged age, aged age] := by
  intro item hitem
  rcases List.mem_pair.1 hitem with rfl | rfl <;> exact ⟨aged_wellKeyed age, _, rfl⟩

/-- Two of the same age repeat each other. -/
theorem Value.aged_repeats (age : Int64) : Repeats ["age"] [aged age, aged age] := by
  refine ⟨0, 1, _, _, Nat.zero_ne_one, rfl, rfl, List.forall_mem_singleton.2 ?_⟩
  exact ⟨.integer age, .integer age, rfl, rfl, nofun, nofun, by simp [equal]⟩

/-! ## The law -/

/-- A combination is enforced on the attributes that its fields are bound to exactly if its names
are among these attributes. Let setup of a rule set succeed, and let each name of a combination, in
the rule set or in a container that it holds, be that of a field for an attribute of the main model.
If all names are among the attributes, records that repeat each other on the attributes are refused.
If one is not, there are two records that repeat each other and pass the check, and they are
accepted where no other check is against them. The names are those of the attributes where fields
are named after what they are bound to. -/
theorem combinations_are_enforced_iff_their_names_are_attributes {c c' k : Container}
    (hsetup : c.setup = (.ok (), c')) (hk : c'.Holds k) {u : UniqueCheck}
    (hu : u ∈ k.profile.uniques) {attributes : List String}
    (hshows : List.Forall₂ k.Shows u.fields attributes) :
    (u.fields ⊆ attributes → ∀ items, Value.AreRecords items → Value.Repeats attributes items →
      ∃ e, k.validateChildren items = .error e) ∧
    (¬ u.fields ⊆ attributes → ∃ item other, Value.AreRecords [item, other] ∧
      Value.Repeats attributes [item, other] ∧ u.validate [item, other] true = .ok true ∧
      (k.profile.uniques = [u] →
        (∀ check, k.profile.cardinality = some check → check.rule.Allows 2) →
        k.validateChildren [item, other] = .ok ())) ∧
    ((∀ f ∈ k.fields, f.name ∈ u.fields → Field.nameOfBind f.bind = .ok f.name) →
      u.fields ⊆ attributes) := by
  have hfinished := Container.isFinished_of_setup hsetup hk
  refine ⟨fun hnames items hitems hrepeats => ?_, fun hnames => ?_, fun hnamed => ?_⟩
  · rcases hvalid : k.validateChildren items with e | ⟨⟩
    · exact ⟨e, rfl⟩
    have hkeyed := fun item hitem => (hitems item hitem).1
    have haccepts := ((Container.validateChildren_iff_accepts hfinished hkeyed).1 hvalid).2 u hu
    exact (UniqueCheck.not_accepts_of_repeats hnames hrepeats haccepts).elim
  · obtain ⟨name, hname, hother⟩ : ∃ name ∈ u.fields, name ∉ attributes := by
      simpa [List.subset_def] using hnames
    have hrecords := Value.areRecords_numbered (n := 1) (m := 2) hother
    have haccepts := UniqueCheck.accepts_numbered hname hother
    refine ⟨_, _, hrecords, Value.repeats_numbered hother,
      UniqueCheck.validate_of_accepts hrecords haccepts, fun honly hallows => ?_⟩
    have hkeyed := fun item hitem => (hrecords item hitem).1
    refine (Container.validateChildren_iff_accepts hfinished hkeyed).2 ⟨hallows, ?_⟩
    rw [honly]
    exact List.forall_mem_singleton.2 haccepts
  · rw [Container.attributes_eq_of_named hshows hnamed]
    exact List.Subset.refl _

/-- In a team whose field is named after the age, two of the same age are refused. -/
theorem combinations_are_enforced_iff_their_names_are_attributes_in_an_office : ∃ c team,
    (Container.agedOffice "age").setup = (.ok (), c) ∧ c.Holds team ∧ team.Shows "age" "age" ∧
      Value.Repeats ["age"] [.aged 41, .aged 41] ∧
      ∃ e, team.validateChildren [.aged 41, .aged 41] = .error e := by
  have hok : (Container.agedOffice "age").setup.1.isOk := by decide +kernel
  obtain ⟨c, team, hsetup, _, hholds, huniques, hshows⟩ :=
    Container.team_of_agedOffice hok (by decide +kernel) (by decide +kernel)
  obtain ⟨hrefused, _⟩ := combinations_are_enforced_iff_their_names_are_attributes hsetup hholds
    (huniques ▸ List.mem_singleton_self _) (List.forall₂_cons.2 ⟨hshows, .nil⟩)
  exact ⟨c, team, hsetup, hholds, hshows, Value.aged_repeats 41,
    hrefused (List.Subset.refl _) _ (Value.aged_areRecords 41) (Value.aged_repeats 41)⟩

/-- In a team whose field for the age is called `years`, with the combination of `years` alone, two
of the same age are accepted. -/
theorem a_combination_of_a_renamed_field_is_not_enforced : ∃ c team,
    (Container.agedOffice "years").setup = (.ok (), c) ∧ c.Holds team ∧
      team.profile.uniques = [⟨none, some "team", .children, ["years"], true⟩] ∧
      team.Shows "years" "age" ∧ Value.Repeats ["age"] [.aged 41, .aged 41] ∧
      team.validateChildren [.aged 41, .aged 41] = .ok () := by
  have hok : (Container.agedOffice "years").setup.1.isOk := by decide +kernel
  have hitems : (Container.agedOffice "years").setup.2.extensions.map (fun team =>
      (team.validateChildren [.aged 41, .aged 41]).isOk) = [true] := by decide +kernel
  obtain ⟨c, team, hsetup, hextensions, hholds, huniques, hshows⟩ :=
    Container.team_of_agedOffice hok (by decide +kernel) (by decide +kernel)
  rw [hsetup, hextensions, List.map_singleton, List.singleton_inj] at hitems
  refine ⟨c, team, hsetup, hholds, huniques, hshows, Value.aged_repeats 41, ?_⟩
  rcases hvalid : team.validateChildren [.aged 41, .aged 41] with e | ⟨⟩
  · rw [hvalid] at hitems
    cases hitems
  · rfl

end Formwork
