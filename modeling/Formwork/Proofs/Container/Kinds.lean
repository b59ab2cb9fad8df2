-- Fields for truth values and for members of enums. Builders look at the default of a field for
-- truth values; setup looks at the attribute of both kinds, and at the default of a field for members
-- of an enum. A default counts as a member if it equals one, and whole numbers equal doubles: so the
-- default of a field with an enum of whole numbers may be a double.
import Formwork.Proofs.Container.Combinations
import Formwork.Proofs.Container.Declaring

namespace Formwork

open Drafting

/-! ## Enums and their members -/

namespace EnumType

/-- The enum is one that its members were collected for. -/
def Declared (e : EnumType) : Prop :=
  ∃ members, declare e.name e.valueType members = .ok e

theorem collect_accepts {name : String} {valueType : ScalarType} {all : Ordered Value} :
    ∀ {members : List (String × Value)} {collected : Ordered Value},
    collect name valueType collected members = .ok all →
    (∀ v ∈ collected.values, valueType.accepts v) → ∀ v ∈ all.values, valueType.accepts v
  | [], _, h, haccepts => by
    cases h
    exact haccepts
  | (key, value) :: rest, collected, h, haccepts => by
    unfold collect at h
    split at h
    · cases h
    rename_i hvalue
    split at h
    · cases h
    rename_i hnew
    refine collect_accepts h ?_
    rw [Ordered.put_of_not_mem value fun hkey => hnew (Ordered.has_iff_mem_keys.2 hkey),
      Ordered.values, List.map_append]
    exact List.forall_mem_append.2 ⟨haccepts, List.forall_mem_singleton.2 (by simpa using hvalue)⟩

/-- The members of a declared enum fit its type. -/
theorem Declared.accepts {e : EnumType} (h : e.Declared) :
    ∀ member ∈ e.members.values, e.valueType.accepts member := by
  obtain ⟨members, h⟩ := h
  rw [declare_eq] at h
  rcases hcollect : collect e.name e.valueType [] members with error | collected <;>
    rw [hcollect] at h
  · cases h
  · simp only [Except.bind] at h
    split at h
    · cases h
    · obtain rfl : collected = e.members := congrArg EnumType.members (Except.ok.inj h)
      exact collect_accepts hcollect (List.forall_mem_nil _)

end EnumType

/-- What equals a value that fits a type fits the type too, but for doubles among whole numbers. -/
theorem ScalarType.accepts_of_equal {t : ScalarType} {member v : Value}
    (haccepts : t.accepts member) (hequal : member.equal v) :
    t.accepts v ∨
      t = .int ∧ ∃ n x, member = .integer n ∧ v = .float x ∧ Value.nearestDouble n == x := by
  cases member with
  | integer n =>
    cases v with
    | integer m =>
      cases t with
      | int | float | decimal => exact .inl rfl
      | _ => cases haccepts
    | float x =>
      cases t with
      | int => exact .inr ⟨rfl, n, x, rfl, rfl, by simpa [Value.equal] using hequal⟩
      | float | decimal => exact .inl rfl
      | _ => cases haccepts
    | _ => simp [Value.equal] at hequal
  | float x =>
    cases v with
    | integer _ | float _ =>
      cases t with
      | float | decimal => exact .inl rfl
      | _ => cases haccepts
    | _ => simp [Value.equal] at hequal
  | boolean b =>
    cases v with
    | boolean _ =>
      cases t with
      | bool => exact .inl rfl
      | _ => cases haccepts
    | _ => simp [Value.equal] at hequal
  | string s =>
    cases v with
    | string _ =>
      cases t with
      | str | date | datetime => exact .inl rfl
      | _ => cases haccepts
    | _ => simp [Value.equal] at hequal
  | _ => cases t <;> cases haccepts

/-- A member of a declared enum fits its type, or is a double that equals a whole number. -/
theorem EnumType.Declared.accepts_member {e : EnumType} (h : e.Declared) {v : Value}
    (hv : e.containsValue v) :
    e.valueType.accepts v ∨ e.valueType = .int ∧
      ∃ n x, .integer n ∈ e.members.values ∧ v = .float x ∧ Value.nearestDouble n == x := by
  obtain ⟨member, hmember, hequal⟩ := List.any_eq_true.1 hv
  rcases ScalarType.accepts_of_equal (h.accepts member hmember) hequal with
    haccepts | ⟨hint, n, x, rfl, hdouble⟩
  · exact .inl haccepts
  · exact .inr ⟨hint, n, x, hmember, hdouble⟩

/-! ## What setup asks of a kind -/

theorem checkBoolean_ok_iff {d : Descriptor} :
    checkBoolean d = .ok () ↔ d.underlying = .scalar .bool ∧ d.isList = false := by
  obtain ⟨declared, underlying, isList, isOptional, origin⟩ := d
  unfold checkBoolean
  rcases underlying with scalar | e | m
  · by_cases hbool : scalar = .bool
    · cases isList <;> simp [hbool, PlainOf.scalar?]
    · simp [hbool, PlainOf.scalar?]
  · simp [PlainOf.scalar?]
  · simp [PlainOf.scalar?]

/-- The enum of a field whose attribute has the type, and that was given an enum or none. -/
inductive EnumType.ChosenFor (e : EnumType) : Option EnumType → PlainType → Prop where
  | own : ChosenFor e none (.enum e)
  | equal {bound : EnumType} : e.equal bound → ChosenFor e (some e) (.enum bound)
  | scalar : ChosenFor e (some e) (.scalar e.valueType)

theorem chooseEnum_ok {given : Option EnumType} {d : Descriptor} {e : EnumType}
    (h : chooseEnum given d = .ok e) : e.ChosenFor given d.underlying := by
  unfold chooseEnum at h
  rcases given with _ | own <;> rcases hunderlying : d.underlying with scalar | bound | m <;>
    rw [hunderlying] at h <;> dsimp only at h
  · cases h
  · cases h
    exact .own
  · cases h
  · split at h <;> cases h
    rename_i hsuits
    obtain rfl := beq_iff_eq.1 hsuits
    exact .scalar
  · split at h <;> cases h
    rename_i hsuits
    exact .equal hsuits
  · cases h

theorem checkEnum_ok {given : Option EnumType} {d : Descriptor} {default : Option Operand}
    {e : EnumType} (h : checkEnum given d default = .ok e) :
    e.ChosenFor given d.underlying ∧ ∀ v, default = some (.literal v) → e.containsValue v := by
  unfold checkEnum at h
  obtain ⟨chosen, hchosen, h⟩ := except_bind_ok h
  split at h
  · rename_i value
    split at h <;> cases h
    rename_i hmember
    refine ⟨chooseEnum_ok hchosen, ?_⟩
    rintro v ⟨⟩
    exact hmember
  · rename_i hother
    cases h
    exact ⟨chooseEnum_ok hchosen, fun v hv => absurd hv (hother v)⟩

/-- Setup keeps the kind of a field for truth values, and gives an enum to one for its members. -/
theorem settleKind_ok {config : Config} {f : Field} {d : Descriptor} {default : Option Operand}
    {kind : FieldKind} {draft draft' : Draft}
    (hr : (settleKind config f d default).run draft = (.ok kind, draft')) :
    (kind = .boolean → f.kind = .boolean ∧ checkBoolean d = .ok ()) ∧
      ∀ own, kind = .enum own → ∃ given e, f.kind = .enum given ∧ own = some e ∧
        checkEnum given d default = .ok e := by
  unfold settleKind at hr
  split at hr
  · cases hr
    exact ⟨nofun, nofun⟩
  · rename_i hboolean
    obtain ⟨_, _, hcheck, hr⟩ := Step.run_bind_ok hr
    cases hr
    exact ⟨fun _ => ⟨hboolean, (Step.run_ofExcept_ok hcheck).1⟩, nofun⟩
  · rename_i given henum
    obtain ⟨e, _, hcheck, hr⟩ := Step.run_bind_ok hr
    cases hr
    refine ⟨nofun, ?_⟩
    rintro _ ⟨⟩
    exact ⟨given, e, henum, rfl, (Step.run_ofExcept_ok hcheck).1⟩
  · obtain ⟨spec, _, _, hr⟩ := Step.run_bind_ok hr
    cases hr
    exact ⟨nofun, nofun⟩

/-- A fixed value stays what it is, and nothing else becomes one. -/
theorem settleOption_literal {owner : String} {operand operand' : Option Operand}
    {draft draft' : Draft} (hr : (settleOption owner operand).run draft = (.ok operand', draft'))
    {v : Value} (hv : operand' = some (.literal v)) : operand = some (.literal v) := by
  subst hv
  rcases operand with _ | e | w
  · cases hr
  · obtain ⟨settled, _, hsettle, hr⟩ := Step.run_bind_ok hr
    obtain ⟨_, _, _, hsettle⟩ := Step.run_bind_ok hsettle
    cases hsettle
    cases hr
  · cases hr
    rfl

/-- The kind of a field is set up after its default, against the shape that the field is bound to. -/
theorem setupField_kind {config : Config} {f f' : Field} {draft draft' : Draft}
    (hr : (setupField config f).run draft = (.ok f', draft')) :
    ∃ binding d d', f'.binding = some binding ∧
      (∀ v, f'.default = some (.literal v) → f.default = some (.literal v)) ∧
      (settleKind config f binding.descriptor f'.default).run d = (.ok f'.kind, d') := by
  unfold setupField at hr
  obtain ⟨⟨bind, binding⟩, _, _, hr⟩ := Step.run_bind_ok hr
  obtain ⟨_, _, _, hr⟩ := Step.run_bind_ok hr
  obtain ⟨_, _, _, hr⟩ := Step.run_bind_ok hr
  obtain ⟨_, _, _, hr⟩ := Step.run_bind_ok hr
  obtain ⟨default, d, hdefault, hr⟩ := Step.run_bind_ok hr
  obtain ⟨kind, _, hkind, hr⟩ := Step.run_bind_ok hr
  cases hr
  exact ⟨binding, d, draft', rfl, fun v hv => settleOption_literal hdefault hv,
    Step.run_adapt_eq_ok.1 hkind⟩

/-! ## What builders ask of a default -/

variable {E : Expression → Prop}

/-- However a field for truth values is built, its fixed default is a truth value. -/
theorem Field.Built.boolean_default {f : Field} (hf : f.Built E) (hkind : f.kind = .boolean)
    {v : Value} (hv : f.default = some (.literal v)) : ∃ b, v = .boolean b := by
  induction hf with
  | ofKind _ _ h =>
    obtain ⟨_, _, h⟩ := except_bind_ok h
    cases h
    cases hv
  | withName _ h ih =>
    obtain ⟨_, _, h⟩ := except_bind_ok h
    cases h
    exact ih hkind hv
  | withType _ h ih =>
    unfold Field.withType at h
    split at h <;> cases h
    exact ih hkind hv
  | withEnum _ h ih =>
    unfold Field.withEnum at h
    split at h <;> cases h
    cases hkind
  | withChoiceValue _ _ h ih | withChoiceLabel _ _ h ih =>
    simp only [Field.withChoiceValue, Field.withChoiceLabel, Field.withChoice] at h
    split at h <;> cases h
    cases hkind
  | @withDefault f f' default hbuilt hdefault h ih =>
    unfold Field.withDefault at h
    split at h
    · rename_i b _
      cases h
      cases hv
      exact ⟨b, rfl⟩
    · cases h
    · rename_i hother
      cases h
      cases hv
      exact (hother v hkind rfl).elim
  | withConditions _ _ ih => exact ih hkind hv

/-! ## Fields of containers -/

/-- The part is built, if it is a field or an extension. -/
def Part.Made (E : Expression → Prop) : Part → Prop
  | .field f => f.Built E
  | .extension c => c.Built E
  | _ => True

/-- The fields and the extensions are built, wherever they stand in the component. -/
def Component.Made (E : Expression → Prop) (component : Component) : Prop :=
  ∀ owner, ∀ entry ∈ component.preorder owner, entry.2.Made E

namespace Component

theorem made_node {part : Part} {contents : List Component} (hpart : part.Made E)
    (hcontents : ∀ component ∈ contents, component.Made E) : (node part contents).Made E := by
  intro owner
  rw [preorder]
  refine List.forall_mem_cons.2 ⟨hpart, fun entry he => ?_⟩
  obtain ⟨component, hcomponent, he⟩ := mem_preorderAll.1 he
  exact hcontents component hcomponent _ entry he

theorem made_leaf {part : Part} (hpart : part.Made E) : (leaf part).Made E :=
  made_node hpart (List.forall_mem_nil _)

theorem made_rules (rules : List Validation) :
    ∀ component ∈ rules.map ofValidation, component.Made E :=
  List.forall_mem_map.2 fun _ _ => made_leaf trivial

theorem made_ofGroup {group : Group} {contents : List Component} {rules : List Validation}
    (hcontents : ∀ component ∈ contents, component.Made E) :
    (ofGroup group contents rules).Made E :=
  made_node trivial (List.forall_mem_append.2 ⟨hcontents, made_rules rules⟩)

theorem made_ofModel (model : ModelTree) : (ofModel model).Made E := by
  intro owner entry he
  obtain ⟨m, _, hpart⟩ := mem_preorder_ofModel he
  rw [hpart]
  trivial

end Component

theorem Container.declaring_made {c : Container} {contents : List Component}
    {providers : List DataVar} {rules : List Validation}
    (hc : ∀ component ∈ c.contents, component.Made E)
    (hcontents : ∀ component ∈ contents, component.Made E) :
    ∀ component ∈ (c.declaring contents providers rules).contents, component.Made E := by
  obtain ⟨p, ⟨model, old, _, _⟩ | ⟨_, _⟩ | _⟩ := c
  · exact List.forall_mem_append.2 ⟨hc, hcontents⟩
  · exact hc
  · exact hc

/-- A new container has no contents. -/
theorem Container.contents_of_new {name : String} {model : ModelTree} {c : Container}
    (h : ruleSet name model = .ok c ∨ ∃ check, extension name model check = .ok c) :
    c.contents = [] := by
  rcases h with h | ⟨check, h⟩
  · unfold ruleSet at h
    split at h
    · cases h
    · obtain ⟨_, _, h⟩ := except_bind_ok h
      cases h
      rfl
  · unfold extension at h
    split at h
    · cases h
    · obtain ⟨_, _, h⟩ := except_bind_ok h
      cases h
      rfl

/-- What stands in a container that is built is built: the induction goes through components and
containers alike. -/
theorem Container.Built.contents_made {c : Container} (h : c.Built E) :
    ∀ component ∈ c.contents, component.Made E := by
  refine @Container.Built.rec E (fun component _ => component.Made E)
    (fun c _ => ∀ component ∈ c.contents, component.Made E) ?field ?group ?dataVar ?validation
    ?model ?inside ?cardinality ?unique ?ruleSet ?extension ?withConfig ?withUnique ?declaring
    ?addGroup c h
  case field =>
    intro f rules enables hf _ _ henables
    exact Component.made_node hf
      (List.forall_mem_append.2 ⟨Component.made_rules rules, henables⟩)
  case group => exact fun _ _ _ _ hcontents => Component.made_ofGroup hcontents
  case dataVar => exact fun _ => Component.made_leaf trivial
  case validation => exact fun _ => Component.made_leaf trivial
  case model => exact fun _ => Component.made_ofModel _
  case inside => exact fun hc _ => Component.made_leaf hc
  case cardinality => exact fun _ => Component.made_leaf trivial
  case unique => exact fun _ => Component.made_leaf trivial
  case ruleSet =>
    intro name model c _ h
    rw [contents_of_new (.inl h)]
    exact List.forall_mem_nil _
  case extension =>
    intro name model check c _ _ h
    rw [contents_of_new (.inr ⟨check, h⟩)]
    exact List.forall_mem_nil _
  case withConfig =>
    intro c config _ hc
    obtain ⟨p, _ | _ | _⟩ := c <;> exact hc
  case withUnique =>
    intro c check _ _ hc
    obtain ⟨p, _ | _ | _⟩ := c <;> exact hc
  case declaring => exact fun _ _ _ _ hc hcontents => declaring_made hc hcontents
  case addGroup =>
    intro c c' name g available contents rules _ _ _ _ _ h hc hcontents
    rw [addGroup_ok h]
    exact declaring_made hc (List.forall_mem_singleton.2 (Component.made_ofGroup hcontents))

/-- What a container that is built declares is built, but for its owner and its configuration. -/
theorem Container.Declares.contents_made {c d : Container} (hd : c.Declares d) (hc : c.Built E) :
    ∀ component ∈ d.contents, component.Made E := by
  induction hd with
  | self => exact hc.contents_made
  | @config p phase config _ ih =>
    rcases phase with _ | _ | _ <;> exact ih
  | @inside p model contents providers validations owner entry d _ he _ howned ih =>
    obtain ⟨above, part⟩ := entry
    obtain ⟨component, hcomponent, he⟩ := Component.mem_preorderAll.1 he
    have hpart := ih component hcomponent owner _ he
    obtain ⟨p, phase, rfl, rfl⟩ := Part.eq_extension_of_ownedBy howned
    have hmade := Container.Built.contents_made hpart
    rcases phase with _ | _ | _ <;> exact hmade

theorem Part.eq_field_of_ownedBy {owner : String} {part : Part} {f : Field}
    (h : part.ownedBy owner = .field f) : part = .field f := by
  have hkind : part.kind = .field := by
    rw [← Part.kind_ownedBy owner, h]
    rfl
  cases part <;> cases hkind
  cases h
  rfl

/-- A field in a container that was set up comes from one in the contents that were declared. -/
theorem Container.Became.field {d k : Container} (hd : d.Became k) {tree : Tree}
    (htree : k.tree? = some tree) {node : Node} (hnode : node ∈ tree.nodes) {f : Field}
    (hpart : node.part = some (.field f)) :
    ∃ entry ∈ Component.preorderAll d.name d.contents, ∃ declared config draft draft',
      entry.2 = .field declared ∧ (setupField config declared).run draft = (.ok f, draft') := by
  obtain ⟨hd, henter, h⟩ := hd
  subst hd
  obtain ⟨_, _, _, _, _, tree', hstaged⟩ := staged_of_conclude henter h
  obtain rfl : tree' = tree := Option.some.inj (hstaged.tree?_eq.symm.trans htree)
  obtain ⟨node₀, source, draft, draft', hnode₀, hsource, _, _, _, hrun⟩ :=
    hstaged.part_ok hnode hpart
  obtain ⟨declared, rfl, hfield⟩ := setupPart_field hrun
  obtain ⟨_, _, _, hlaid⟩ := hstaged.lays
  obtain ⟨entry, he, _, howned⟩ := Tree.declared_of_mem hlaid hnode₀ hsource
  have hentry := Part.eq_field_of_ownedBy howned
  refine ⟨entry, Tree.mem_contents he ?_, declared, _, draft, draft', hentry, hfield⟩
  rw [hentry]
  simp [Part.kind]

/-! ## The law -/

/-- Fields for truth values and for members of enums fit what they are bound to. However a container
is built, and wherever a field stands in what setup has made of it, the field comes from a declared
one and is bound. If it is for truth values, it was declared so, its attribute is a single truth
value, and so is its default if that is fixed. If it is for members of an enum, it has got its enum:
the one that it was given, which equals the enum of the attribute or has its scalar type, or else the
enum of the attribute. A fixed default then is a member of the enum, which fits the type of the enum
or is a double that equals a whole number among the members. -/
theorem fields_for_truth_values_and_members_fit_their_attributes {c c' k : Container} {tree : Tree}
    {node : Node} {f : Field} (hbuilt : c.Built E) (hsetup : c.setup = (.ok (), c'))
    (hk : c'.Holds k) (htree : k.tree? = some tree) (hnode : node ∈ tree.nodes)
    (hpart : node.part = some (.field f)) :
    ∃ d, c.Declares d ∧ d.Became k ∧ ∃ entry ∈ Component.preorderAll d.name d.contents,
      ∃ declared binding, entry.2 = .field declared ∧ f.binding = some binding ∧
        (f.kind = .boolean → declared.kind = .boolean ∧
          binding.descriptor.underlying = .scalar .bool ∧ binding.descriptor.isList = false ∧
          ∀ v, f.default = some (.literal v) → ∃ b, v = .boolean b) ∧
        ∀ own, f.kind = .enum own → ∃ given e, declared.kind = .enum given ∧ own = some e ∧
          e.ChosenFor given binding.descriptor.underlying ∧
          ∀ v, f.default = some (.literal v) → e.containsValue v ∧
            (e.Declared → e.valueType.accepts v ∨ e.valueType = .int ∧
              ∃ n x, .integer n ∈ e.members.values ∧ v = .float x ∧
                Value.nearestDouble n == x) := by
  obtain ⟨d, hd, hbecame⟩ := Container.became_of_setup hsetup hk
  obtain ⟨entry, he, declared, config, draft, draft', hentry, hfield⟩ :=
    hbecame.field htree hnode hpart
  obtain ⟨component, hcomponent, hmem⟩ := Component.mem_preorderAll.1 he
  have hmade := hd.contents_made hbuilt component hcomponent _ entry hmem
  rw [hentry] at hmade
  obtain ⟨binding, _, _, hbinding, hdefault, hkind⟩ := setupField_kind hfield
  obtain ⟨hboolean, henum⟩ := settleKind_ok hkind
  refine ⟨d, hd, hbecame, entry, he, declared, binding, hentry, hbinding, fun htruth => ?_,
    fun own hown => ?_⟩
  · obtain ⟨hdeclared, hcheck⟩ := hboolean htruth
    obtain ⟨hbool, hsingle⟩ := checkBoolean_ok_iff.1 hcheck
    exact ⟨hdeclared, hbool, hsingle, fun v hv =>
      Field.Built.boolean_default hmade hdeclared (hdefault v hv)⟩
  · obtain ⟨given, e, hdeclared, hsome, hcheck⟩ := henum own hown
    obtain ⟨hchosen, hmember⟩ := checkEnum_ok hcheck
    exact ⟨given, e, hdeclared, hsome, hchosen, fun v hv =>
      ⟨hmember v hv, fun he => he.accepts_member (hmember v hv)⟩⟩

/-! ## A graded company -/

/-- Grades, which are whole numbers. -/
def EnumType.grades : EnumType := ⟨"Grade", .int, [("low", .integer 1), ("high", .integer 2)]⟩

/-- A company is open or not and has a grade. -/
def RecordModel.graded : RecordModel :=
  ⟨"Company", .struct, [⟨"open", .scalar .bool, true, none⟩, ⟨"grade", .scalar .int, true, none⟩]⟩

/-- A graded company as a model. -/
def ModelTree.gradedCompany : ModelTree := .node ⟨"company", .type (.model .graded)⟩ []

/-- A field that says whether the company is open, which it is if nothing else is said. -/
def Field.isOpen : Field :=
  ⟨"open", .ofModels "company" ["open"], .boolean, .boolean, none, none, none,
    some (.literal (.boolean true)), none⟩

/-- A field for the grade of the company. Its default is a double. -/
def Field.grade : Field :=
  ⟨"grade", .ofModels "company" ["grade"], .enum, .enum (some .grades), none, none, none,
    some (.literal (.float 1)), none⟩

/-- An office with both fields. -/
def Container.gradedOffice : Container :=
  .mk (newProfile "office" .ruleSet .gradedCompany none)
    (.declared .gradedCompany [.ofField .isOpen [] [], .ofField .grade [] []] [] [])

theorem Container.gradedOffice_built : Container.gradedOffice.Built fun _ => True := by
  have hcompany : BoundModel.ofType "company" (.model .graded) =
      .ok ModelTree.gradedCompany.model := rfl
  have hmodel : ModelTree.gradedCompany.Built fun _ => True :=
    .node (.ofType hcompany) (List.forall_mem_nil _)
  have hplain : Field.ofKind (.ofModels "company" ["open"]) .boolean =
      .ok { Field.isOpen with default := none } := rfl
  have hfixed : { Field.isOpen with default := none }.withDefault (.literal (.boolean true)) =
      .ok Field.isOpen := rfl
  have hopen : Field.isOpen.Built fun _ => True :=
    .withDefault (.ofKind trivial (fun _ _ => trivial) hplain) (fun _ _ => trivial) hfixed
  have hbare : Field.ofKind (.ofModels "company" ["grade"]) (.enum none) =
      .ok { Field.grade with kind := .enum none, default := none } := rfl
  have hgraded : { Field.grade with kind := .enum none, default := none }.withEnum .grades =
      .ok { Field.grade with default := none } := rfl
  have hdouble : { Field.grade with default := none }.withDefault (.literal (.float 1)) =
      .ok Field.grade := rfl
  have hgrade : Field.grade.Built fun _ => True :=
    .withDefault (.withEnum (.ofKind trivial (fun _ _ => trivial) hbare) hgraded)
      (fun _ _ => trivial) hdouble
  have hnew : ruleSet "office" .gradedCompany =
      .ok (.mk (newProfile "office" .ruleSet .gradedCompany none)
        (.declared .gradedCompany [] [] [])) := rfl
  have hnone : ∀ rule ∈ ([] : List Validation), rule.Built fun _ => True := List.forall_mem_nil _
  refine .declaring (.ruleSet hmodel hnew) ?_ (List.forall_mem_nil _) hnone
  exact List.forall_mem_cons.2 ⟨.field hopen hnone (List.forall_mem_nil _),
    List.forall_mem_singleton.2 (.field hgrade hnone (List.forall_mem_nil _))⟩

theorem Container.mem_fields {c : Container} {f : Field} (h : f ∈ c.fields) :
    ∃ tree node, c.tree? = some tree ∧ node ∈ tree.nodes ∧ node.part = some (.field f) := by
  obtain ⟨node, hnode, hpart⟩ := List.mem_filterMap.1 h
  rcases htree : c.tree? with _ | tree <;> rw [htree] at hnode
  · cases hnode
  · refine ⟨tree, node, rfl, hnode, ?_⟩
    split at hpart <;> cases hpart
    assumption

/-- What is to be seen of a field: its kind, the type of its enum and that of its fixed default. -/
def Field.outward (f : Field) : FieldType × Option ScalarType × Option String :=
  let own := match f.kind with
    | .enum own => own
    | _ => none
  let fixed := match f.default with
    | some (.literal v) => some v
    | _ => none
  (f.kind.defaultType, own.map EnumType.valueType, fixed.map Value.typeName)

theorem Field.kind_of_outward {f : Field} {own : Option ScalarType} {fixed : Option String}
    (h : f.outward = (.boolean, own, fixed)) : f.kind = .boolean := by
  have hkind : f.kind.defaultType = .boolean := congrArg Prod.fst h
  rcases hf : f.kind <;> rw [hf] at hkind <;> cases hkind

/-- A field for members of an enum of whole numbers may be seen to have a double as default. -/
theorem Field.double_of_outward {f : Field} (h : f.outward = (.enum, some .int, some "float")) :
    ∃ e x, f.kind = .enum (some e) ∧ e.valueType = .int ∧
      f.default = some (.literal (.float x)) := by
  obtain ⟨name, bind, type, kind, _, _, _, default, _⟩ := f
  simp only [outward, Prod.mk.injEq] at h
  obtain ⟨_, hown, hfixed⟩ := h
  rcases kind with _ | _ | _ | own
  · cases hown
  · cases hown
  · cases hown
  obtain ⟨e, rfl, he⟩ := Option.map_eq_some_iff.1 hown
  rcases default with _ | _ | v
  · cases hfixed
  · cases hfixed
  cases v with
  | float x => exact ⟨e, x, rfl, he, rfl⟩
  | _ => simp [Value.typeName] at hfixed

/-- The setup of the office succeeds, and leaves the default of the second field a double. -/
theorem Container.gradedOffice_setup : ∃ c f f', Container.gradedOffice.setup = (.ok (), c) ∧
    c.fields = [f, f'] ∧ f.outward = (.boolean, none, some "bool") ∧
    f'.outward = (.enum, some .int, some "float") := by
  have hok : Container.gradedOffice.setup.1.isOk := by decide +kernel
  have hseen : Container.gradedOffice.setup.2.fields.map Field.outward =
      [(.boolean, none, some "bool"), (.enum, some .int, some "float")] := by decide +kernel
  generalize Container.gradedOffice.setup = result at hok hseen
  obtain ⟨_ | ⟨⟩, c⟩ := result
  · cases hok
  · obtain ⟨f, rest, hfields, hf, hrest⟩ := List.map_eq_cons_iff.1 hseen
    obtain ⟨f', rfl, hf'⟩ := List.map_eq_singleton_iff.1 hrest
    exact ⟨c, f, f', rfl, hfields, hf, hf'⟩

/-- The attribute of the first field is a truth value, and the default of the second is a member of
its enum. -/
theorem fields_for_truth_values_and_members_fit_their_attributes_in_an_office :
    ∃ c f f' binding e x, (Container.gradedOffice.Built fun _ => True) ∧
      Container.gradedOffice.setup = (.ok (), c) ∧ c.Holds c ∧ c.fields = [f, f'] ∧
      f.kind = .boolean ∧ f.binding = some binding ∧
      binding.descriptor.underlying = .scalar .bool ∧ f'.kind = .enum (some e) ∧
      f'.default = some (.literal (.float x)) ∧ e.containsValue (.float x) := by
  obtain ⟨c, f, f', hsetup, hfields, hf, hf'⟩ := Container.gradedOffice_setup
  have hkind := Field.kind_of_outward hf
  obtain ⟨e, x, henum, _, hdefault⟩ := Field.double_of_outward hf'
  obtain ⟨tree, node, htree, hnode, hpart⟩ := Container.mem_fields (hfields ▸ List.mem_cons_self)
  obtain ⟨tree', node', htree', hnode', hpart'⟩ :=
    Container.mem_fields (hfields ▸ List.mem_cons_of_mem _ (List.mem_singleton_self f'))
  obtain ⟨_, _, _, _, _, _, binding, _, hbinding, htruth, _⟩ :=
    fields_for_truth_values_and_members_fit_their_attributes Container.gradedOffice_built hsetup
      (.self c) htree hnode hpart
  obtain ⟨_, _, _, _, _, _, _, _, _, _, hmembers⟩ :=
    fields_for_truth_values_and_members_fit_their_attributes Container.gradedOffice_built hsetup
      (.self c) htree' hnode' hpart'
  obtain ⟨_, _, _, hsame, _, hmember⟩ := hmembers _ henum
  cases hsame
  exact ⟨c, f, f', binding, e, x, Container.gradedOffice_built, hsetup, .self c, hfields, hkind,
    hbinding, (htruth hkind).2.1, henum, hdefault, (hmember _ hdefault).1⟩

/-- A default that is a member need not fit the type of its enum: the setup of the office succeeds,
though the enum is one of whole numbers and the default a double. -/
theorem a_double_is_the_default_among_whole_numbers : ∃ c tree node f e v,
    (Container.gradedOffice.Built fun _ => True) ∧ EnumType.grades.Declared ∧
      Container.gradedOffice.setup = (.ok (), c) ∧ c.tree? = some tree ∧ node ∈ tree.nodes ∧
      node.part = some (.field f) ∧ f.kind = .enum (some e) ∧ f.default = some (.literal v) ∧
      e.valueType.accepts v = false := by
  obtain ⟨c, f, f', hsetup, hfields, _, hf'⟩ := Container.gradedOffice_setup
  obtain ⟨e, x, henum, hint, hdefault⟩ := Field.double_of_outward hf'
  obtain ⟨tree, node, htree, hnode, hpart⟩ :=
    Container.mem_fields (hfields ▸ List.mem_cons_of_mem _ (List.mem_singleton_self f'))
  have hdeclared : EnumType.grades.Declared := ⟨EnumType.grades.members, rfl⟩
  refine ⟨c, tree, node, f', e, .float x, Container.gradedOffice_built, hdeclared, hsetup, htree,
    hnode, hpart, henum, hdefault, ?_⟩
  rw [hint]
  rfl

end Formwork
