-- What the fields of a container are bound to, for rule sets and for the extensions in them at any
-- depth, and what reading a bind gives. Reading a path of plain attributes on data with values for
-- all models succeeds, and gives a value of the type that setup found.
import Formwork.Container.Declare
import Formwork.Proofs.Container.Stages
import Formwork.Proofs.Expression.Reading

namespace Formwork

open Drafting

/-! ## Fields that are bound -/

/-- A container that setup has finished: a rule set, an extension in whatever surroundings, or one
that such a container holds. What was declared is well-named, since models are built under
identifiers only. -/
inductive Container.SetUp : Container → Prop where
  | ruleSet {c c' : Container} : c.WellNamed → c.setup = (.ok (), c') → SetUp c'
  | extension {levels : Nat} {config : Config} {c c' : Container} {outer outer' : Heap} :
    c.WellNamed → Container.setupLevels levels config c outer = ⟨.ok (), c', outer'⟩ → SetUp c'
  | held {c inner : Container} {tree : Tree} {node : Node} : SetUp c → c.tree? = some tree →
    node ∈ tree.nodes → node.part = some (.extension inner) → SetUp inner

/-- The field is bound. If its bind has plain names, the bind is a path that is ready to be read,
and the field is bound to what its attributes lead to from one of the models. -/
def Field.BoundAlong (models : Ordered ModelInfo) (f : Field) : Prop :=
  ∃ binding, f.binding = some binding ∧ ∀ root hops, f.bind.hops = root :: hops →
    (∀ hop ∈ root :: hops, ¬ Pointed hop.name) →
    ∃ name info, f.bind = .path .models root hops
        (.resolved ⟨(root :: hops).map .attribute, some name⟩) ∧
      models.find? root.name = some info ∧
      info.descriptor.along (hops.map Hop.name) = .ok binding.descriptor

/-- The fields of the container are bound along its models. -/
def Container.FieldsBound (c : Container) : Prop :=
  PlainModels c.profile.models → ∀ tree, c.tree? = some tree → ∀ node ∈ tree.nodes, ∀ f,
    node.part = some (.field f) → f.BoundAlong c.profile.models

/-- A container whose models are registered in its own heap binds its fields. -/
theorem Container.Assembled.fieldsBound {c : Container} (hc : Assembled WellNamed c) :
    c.FieldsBound := by
  obtain ⟨hwell, henter, h⟩ := hc
  obtain ⟨entered, provided, registered, equipped, laid, tree, hstaged⟩ :=
    staged_of_conclude henter h
  intro hplain t htree node hnode f hf
  obtain rfl : tree = t := Option.some.inj (hstaged.tree?_eq.symm.trans htree)
  obtain ⟨_, hentered⟩ := hstaged.enters
  obtain ⟨_, hregisters⟩ := henter.registers hentered
  rw [hstaged.models_eq] at hplain ⊢
  have htyped := hregisters.typed hwell.1 hplain (Heap.Typed.empty _ _)
  obtain ⟨_, _, d, d', _, _, hbefore, _, _, hrun⟩ := hstaged.part_ok hnode hf
  obtain ⟨_, _, hfield⟩ := setupPart_field hrun
  obtain ⟨binding, _, hbind, hbinding, _⟩ := setupField_ok hfield
  refine ⟨binding, hbinding, fun root hops hhops hnames => ?_⟩
  exact bindField_along (((htyped.builds (by decide) hstaged.provides.heap).builds (by decide)
    hstaged.occupies.heap).uses hbefore.heap) hbind hhops hnames

theorem Container.SetUp.assembled {c : Container} (hc : c.SetUp) : Assembled WellNamed c := by
  induction hc with
  | ruleSet hwell hc => exact assembled_of_setup hwell hc
  | @extension levels config c c' outer outer' hwell hc =>
    have ho : (Container.setupLevels levels config c outer).outcome = .ok () := by rw [hc]
    have h := assembled_of_setupLevels inherited_wellNamed hwell ho
    rw [hc] at h
    exact h
  | held _ htree hnode hext ih => exact ih.extension inherited_wellNamed htree hnode hext

/-- Every container that was set up has bound its fields, and so have those it holds. -/
theorem Container.SetUp.binds {c : Container} (hc : c.SetUp) : ∀ k, c.Holds k → k.FieldsBound :=
  fun _ hk => (hc.assembled.holds inherited_wellNamed hk).fieldsBound

/-! ## Reading a bind -/

/-- The data have a record with a value for every model, of the type that the model has. -/
def Data.Supplies (data : Data) (models : Ordered ModelInfo) : Prop :=
  ∃ fields : Ordered Value, data.root? .models = some (.record fields) ∧
    ∀ name info, models.find? name = some info →
      ∃ v, fields.find? name = some v ∧ Conforms v (.plain info.descriptor.underlying)

/-- A path whose attributes lead to a shape reads a value of the type with that shape, if what comes
before the last attribute is neither a list nor optional. -/
theorem read_along {models : Ordered ModelInfo} {data : Data} (hdata : data.Supplies models)
    (target : Option String) {root : Hop} {hops : List Hop} {info : ModelInfo} {d : Descriptor}
    (hinfo : models.find? root.name = some info)
    (halong : info.descriptor.along (hops.map Hop.name) = .ok d) (hne : hops ≠ [])
    (hcalls : ∀ hop ∈ root :: hops, hop.call = none)
    (hbetween : ∀ before after between, hops.map Hop.name = before ++ after → before ≠ [] →
      after ≠ [] → info.descriptor.along before = .ok between →
      between.isList = false ∧ between.isOptional = false) :
    ∃ v, (Expression.path .models root hops
        (.resolved ⟨(root :: hops).map .attribute, target⟩)).read data = .ok v ∧
      Conforms v d.declared := by
  obtain ⟨fields, hroot, hmodels⟩ := hdata
  obtain ⟨first, hfirst, hconforms⟩ := hmodels root.name info hinfo
  obtain ⟨v, hread, hv⟩ := Conforms.readAll data.functions hops first info.descriptor d hconforms
    (fun hop hm => hcalls hop (List.mem_cons_of_mem _ hm)) hne halong hbetween
  have hhop : Hop.read data.functions (.record fields) root = .ok first := by
    simp only [Hop.read, Value.getAttr, hfirst, hcalls root List.mem_cons_self]
    rfl
  have hall : Hop.readAll data.functions (.record fields) (root :: hops) = .ok v := by
    rw [Hop.readAll, List.foldlM_cons, hhop]
    exact hread
  refine ⟨v, ?_, hv⟩
  rw [Expression.read_path, Data.root, hroot]
  show (Hop.readAll data.functions (.record fields) (root :: hops)).mapError _ = _
  rw [hall]
  rfl

/-- The bind of a field, read on data that conform to the models, gives a value of the type that the
field is bound to. The names of the record fields and of the bind are plain, nothing is called, and
only the last attribute may be a list or optional. -/
theorem a_bind_reads_a_value_of_its_type {c : Container} (hc : c.SetUp)
    (hplain : PlainModels c.profile.models) {tree : Tree} (htree : c.tree? = some tree)
    {node : Node} (hnode : node ∈ tree.nodes) {f : Field} (hfield : node.part = some (.field f))
    {root : Hop} {hops : List Hop} (hhops : f.bind.hops = root :: hops) (hne : hops ≠ [])
    (hnames : ∀ hop ∈ root :: hops, isIdentifier hop.name)
    (hcalls : ∀ hop ∈ root :: hops, hop.call = none)
    (hbetween : ∀ info before after between, c.profile.models.find? root.name = some info →
      hops.map Hop.name = before ++ after → before ≠ [] → after ≠ [] →
      info.descriptor.along before = .ok between →
      between.isList = false ∧ between.isOptional = false)
    {data : Data} (hdata : data.Supplies c.profile.models) :
    ∃ v binding, f.bind.read data = .ok v ∧ f.binding = some binding ∧
      Conforms v binding.descriptor.declared := by
  obtain ⟨binding, hbinding, hbound⟩ :=
    hc.binds c (.self c) hplain tree htree node hnode f hfield
  obtain ⟨name, info, hpath, hinfo, halong⟩ :=
    hbound root hops hhops fun hop hm => not_pointed_of_isIdentifier (hnames hop hm)
  obtain ⟨v, hread, hv⟩ := read_along hdata (some name) hinfo halong hne hcalls
    fun before after between => hbetween info before after between hinfo
  exact ⟨v, binding, by rw [hpath]; exact hread, hbinding, hv⟩

/-! ## A container to look at -/

/-- A field for the age of the boss. -/
def Field.sample : Field :=
  ⟨"age", .ofModels "company" ["boss", "age"], .input, .input, none, none, none, none, none⟩

/-- A company as a model. -/
def ModelTree.sample : ModelTree :=
  .node ⟨"company", .type (.plain (.model RecordModel.sample))⟩ []

/-- An office that is about a company. -/
def Profile.sample : Profile := Container.newProfile "office" .ruleSet .sample none

/-- A rule set for an office, with one field. -/
def Container.sample : Container :=
  .mk .sample (.declared .sample [.ofField .sample [] []] [] [])

/-- A company whose boss is 41. -/
def Value.sample : Value :=
  .record [("name", .string "Initech"), ("boss", .record [("age", .integer 41)])]

theorem Value.sample_conforms : Conforms .sample (.plain (.model RecordModel.sample)) := by
  have hfields : ∀ field ∈ RecordModel.sample.fields, ∃ v,
      Ordered.find? [("name", .string "Initech"), ("boss", .record [("age", .integer 41)])]
        field.name = some v ∧ Conforms v field.declared := by
    intro field hm
    simp only [RecordModel.sample, List.mem_cons, List.not_mem_nil, or_false] at hm
    rcases hm with rfl | rfl
    · exact ⟨_, rfl, .scalar rfl⟩
    · refine ⟨_, rfl, .model ?_ ?_⟩
      · intro field hm
        rw [List.mem_singleton.1 hm]
        rfl
      · intro field hm v hv
        rw [List.mem_singleton.1 hm] at hv ⊢
        cases hv
        exact .scalar rfl
  refine .model ?_ ?_
  · intro field hm
    obtain ⟨v, hv, _⟩ := hfields field hm
    rw [hv]
    rfl
  · intro field hm v hv
    obtain ⟨w, hw, hconforms⟩ := hfields field hm
    rw [hw] at hv
    cases hv
    exact hconforms

theorem RecordModel.sample_wellNamed : PlainType.WellNamed (.model RecordModel.sample) := by
  intro r hr field hm
  cases hr with
  | here =>
    simp only [RecordModel.sample, List.mem_cons, List.not_mem_nil, or_false] at hm
    rcases hm with rfl | rfl <;> decide
  | field hf hr =>
    simp only [RecordModel.sample, List.mem_cons, List.not_mem_nil, or_false] at hf
    rcases hf with rfl | rfl
    · cases hr
    · cases hr with
      | here =>
        rw [List.mem_singleton.1 hm]
        decide
      | field hf hr =>
        rw [List.mem_singleton.1 hf] at hr
        cases hr

/-- The components of the sample before they are set up. -/
def Tree.sample : Tree :=
  ⟨[containerNode "office" .ruleSet [1, 2],
    (Part.model ModelTree.sample.model).nodeAt 1 0 "office",
    (Part.field .sample).nodeAt 2 0 "office"], [("office", 0), ("company", 1), ("age", 2)]⟩

/-- What is known of the company. -/
def ModelInfo.sample : ModelInfo :=
  ⟨⟨.plain (.model RecordModel.sample), .model RecordModel.sample, false, false, .direct⟩, ⟨0⟩⟩

/-- The office when its model and its components have variables. -/
def Draft.sample : Draft :=
  ((registerNodes Tree.sample.nodes).run
    ((registerTree "office" .sample).run (Draft.start .sample)).2).2

theorem Container.sample_setup : ∃ c root model node index f,
    Container.sample.setup = (.ok (), c) ∧ c.profile.models = [("company", .sample)] ∧
    c.tree? = some ⟨[root, model, node], index⟩ ∧ node.name = "age" ∧ node.kind = .field ∧
    node.part = some (.field f) ∧
    f.bind = .path .models ⟨"company", none⟩ [⟨"boss", none⟩, ⟨"age", none⟩]
      (.resolved ⟨[.attribute ⟨"company", none⟩, .attribute ⟨"boss", none⟩,
        .attribute ⟨"age", none⟩], some "company.boss.age"⟩) := by
  have hregister : (registerNodes Tree.sample.nodes).run
      ((registerTree "office" .sample).run (Draft.start .sample)).2 = (.ok (), Draft.sample) := rfl
  have hrun : (assemble (setupLevels (levelsOfAll [.ofField .sample [] []] + 1)) .sample
      (registerTree Profile.sample.name .sample) [.ofField .sample [] []] [] []).run
      (Draft.start .sample) = (.ok ⟨[_, _, _], _⟩, _) :=
    run_assemble Tree.sample rfl rfl rfl hregister rfl rfl rfl rfl
  exact ⟨_, _, _, _, _, _, (setup_ruleSet rfl).trans (congrArg (conclude .sample) hrun), rfl, rfl,
    rfl, rfl, rfl, rfl⟩

/-- Data with a company. -/
def Data.sample : Data :=
  (Data.empty fun _ _ _ => .ok .null).withRoot .models (.record [("company", .sample)])

/-- The age of the boss is read as 41, which is a whole number as the field expects. -/
theorem a_bind_reads_a_value_of_its_type_in_an_office :
    ∃ c tree node f, Container.sample.setup = (.ok (), c) ∧ c.tree? = some tree ∧
      node ∈ tree.nodes ∧ node.part = some (.field f) ∧
      f.bind.read .sample = .ok (.integer 41) ∧
      ∃ v binding, f.bind.read .sample = .ok v ∧ f.binding = some binding ∧
        Conforms v binding.descriptor.declared := by
  obtain ⟨c, root, model, node, index, f, hsetup, hmodels, htree, _, _, hfield, hbind⟩ :=
    Container.sample_setup
  have hwell : Container.sample.WellNamed :=
    ⟨⟨by decide, trivial⟩, ⟨⟨trivial, trivial⟩, trivial⟩⟩
  have hmodel : ∀ name info, c.profile.models.find? name = some info →
      name = "company" ∧ info = .sample := by
    intro name info hi
    rw [hmodels, Ordered.find?_cons] at hi
    split at hi
    · rename_i hname
      cases hi
      exact ⟨hname, rfl⟩
    · cases hi
  have hplain : PlainModels c.profile.models := by
    intro name info hi
    rw [(hmodel name info hi).2]
    exact RecordModel.sample_wellNamed
  have hdata : Data.Supplies .sample c.profile.models := by
    refine ⟨_, rfl, fun name info hi => ?_⟩
    obtain ⟨rfl, rfl⟩ := hmodel name info hi
    exact ⟨.sample, rfl, Value.sample_conforms⟩
  have hnode : node ∈ [root, model, node] := by simp
  have hbetween : ∀ info before after between,
      c.profile.models.find? "company" = some info → ["boss", "age"] = before ++ after →
      before ≠ [] → after ≠ [] → info.descriptor.along before = .ok between →
      between.isList = false ∧ between.isOptional = false := by
    intro info before after between hi heq hbefore hafter halong
    obtain ⟨_, rfl⟩ := hmodel "company" info hi
    obtain rfl : before = ["boss"] := by
      rcases before with _ | ⟨first, _ | ⟨second, rest⟩⟩
      · exact absurd rfl hbefore
      · cases heq
        rfl
      · simp only [List.cons_append, List.cons.injEq, List.nil_eq, List.append_eq_nil_iff] at heq
        exact absurd heq.2.2.2 hafter
    cases halong
    exact ⟨rfl, rfl⟩
  refine ⟨c, _, _, f, hsetup, htree, hnode, hfield, by rw [hbind]; rfl, ?_⟩
  exact a_bind_reads_a_value_of_its_type (.ruleSet hwell hsetup) hplain htree hnode hfield
    (by rw [hbind]; rfl) (by simp) (by decide) (by simp) hbetween hdata

end Formwork
