-- Shapes of records, and the record models of a shape. A shape says what a record looks like,
-- however it is declared. The models that are declared for it in the two ways differ in their form
-- alone, and nobody who follows attributes can tell them apart.
import Mathlib.Data.List.Nodup
import Formwork.Proofs.Run
import Formwork.Proofs.Value.Equality
import Formwork.Types.Descriptor
import Formwork.Types.Model

namespace Formwork

/-! ## Shapes -/

/-- A field of a record shape. -/
structure FieldShapeOf (α : Type) where
  name : String
  optional : Bool
  shape : α

/-- A record shape: named fields in order. -/
structure RecordShapeOf (α : Type) where
  name : String
  fields : List (FieldShapeOf α)

/-- The shape of a type. Whether it is optional is said where it is used. -/
inductive Shape where
  | scalar (s : ScalarType)
  /-- An enum of texts. -/
  | texts (name : String) (values : List String)
  /-- An enum of whole numbers. -/
  | numbers (name : String) (values : List Int64)
  /-- A record, with a key if it is defined apart. -/
  | record (key : Option String) (r : RecordShapeOf Shape)
  | list (optional : Bool) (item : Shape)

/-- A field of a record shape. -/
abbrev FieldShape := FieldShapeOf Shape

/-- A record shape. -/
abbrev RecordShape := RecordShapeOf Shape

namespace Shape

/-- Whether the shape is that of a list. -/
def isList : Shape → Bool
  | .list _ _ => true
  | _ => false

mutual

/-- Enums have values, none of them twice, and records have fields with names, none of them
twice. -/
def WellFormed : Shape → Prop
  | .scalar _ => True
  | .texts _ values => values ≠ [] ∧ values.Nodup
  | .numbers _ values => values ≠ [] ∧ values.Nodup
  | .record _ ⟨_, fields⟩ =>
    (∀ field ∈ fields, field.name ≠ "") ∧ (fields.map FieldShapeOf.name).Nodup ∧ AllWellFormed fields
  | .list _ item => item.WellFormed

/-- All fields have shapes of this kind. -/
def AllWellFormed : List (FieldShapeOf Shape) → Prop
  | [] => True
  | ⟨_, _, shape⟩ :: rest => shape.WellFormed ∧ AllWellFormed rest

end

end Shape

/-! ## Models of a shape -/

/-- The type, or an optional one. -/
def DeclaredType.optionalIf (optional : Bool) (d : DeclaredType) : DeclaredType :=
  if optional then d.optional else d

/-- The members of an enum of texts. -/
def EnumType.textMembers (values : List String) : List (String × Value) :=
  values.map fun value => (value, .string value)

/-- The members of an enum of whole numbers. -/
def EnumType.numberMembers (values : List Int64) : List (String × Value) :=
  values.map fun value => (toString value.toInt, .integer value)

namespace Shape

mutual

/-- The type of a shape, with all record models in it declared field by field. -/
def build : Shape → Except Error DeclaredType
  | .scalar s => return .scalar s
  | .texts name values => do
    return .plain (.enum (← EnumType.declare name .str (EnumType.textMembers values)))
  | .numbers name values => do
    return .plain (.enum (← EnumType.declare name .int (EnumType.numberMembers values)))
  | .record _ ⟨name, fields⟩ => do
    return .model (← RecordModel.declare name (← buildFields fields))
  | .list optional item => do return .list ((← item.build).optionalIf optional)

/-- The fields of the types. -/
def buildFields : List (FieldShapeOf Shape) → Except Error (List ModelField)
  | [] => return []
  | ⟨name, optional, shape⟩ :: rest => do
    let declared ← shape.build
    return RecordModel.fieldOf name (declared.optionalIf optional) :: (← buildFields rest)

end

mutual

/-- The type of a shape, with all record models in it in a form. -/
def declared (form : ModelForm) : Shape → DeclaredType
  | .scalar s => .scalar s
  | .texts name values => .plain (.enum ⟨name, .str, EnumType.textMembers values⟩)
  | .numbers name values => .plain (.enum ⟨name, .int, EnumType.numberMembers values⟩)
  | .record _ ⟨name, fields⟩ => .model ⟨name, form, declaredFields form fields⟩
  | .list optional item => .list ((item.declared form).optionalIf optional)

/-- The fields of the types. A schema tells apart which fields are required. -/
def declaredFields (form : ModelForm) : List (FieldShapeOf Shape) → List ModelField
  | [] => []
  | ⟨name, optional, shape⟩ :: rest =>
    ⟨name, (shape.declared form).optionalIf optional, form = .struct || !optional, none⟩ ::
      declaredFields form rest

end

end Shape

namespace RecordShapeOf

/-- The record model of a record shape, declared field by field. -/
def build (r : RecordShape) : Except Error RecordModel := do
  RecordModel.declare r.name (← Shape.buildFields r.fields)

/-- The record model of a record shape in a form. -/
def model (form : ModelForm) (r : RecordShape) : RecordModel :=
  ⟨r.name, form, Shape.declaredFields form r.fields⟩

end RecordShapeOf

/-- The field of a model, in a form. -/
def FieldShapeOf.declared (form : ModelForm) (f : FieldShape) : ModelField :=
  ⟨f.name, (f.shape.declared form).optionalIf f.optional, form = .struct || !f.optional, none⟩

namespace Shape

theorem declaredFields_eq_map (form : ModelForm) (fields : List FieldShape) :
    declaredFields form fields = fields.map (FieldShapeOf.declared form) := by
  induction fields with
  | nil => rfl
  | cons field rest ih => rw [declaredFields, ih, List.map_cons, FieldShapeOf.declared]

theorem fieldNames_declaredFields (form : ModelForm) (fields : List FieldShape) :
    (declaredFields form fields).map FieldOf.name = fields.map FieldShapeOf.name := by
  rw [declaredFields_eq_map, List.map_map]
  rfl

end Shape

/-! ## Written numbers -/

theorem toDigits_inj {m n : Nat} (h : Nat.toDigits 10 m = Nat.toDigits 10 n) : m = n := by
  have hread := congrArg (fun digits => Nat.ofDigitChars 10 digits 0) h
  simpa only [Nat.ofDigitChars_ten_toDigits] using hread

/-- Digits do not begin with a sign. -/
theorem toDigits_ne_sign (m n : Nat) : Nat.toDigits 10 m ≠ '-' :: Nat.toDigits 10 n := by
  intro h
  have hmem : '-' ∈ Nat.toDigits 10 m := h ▸ List.mem_cons_self
  exact absurd (Nat.isDigit_of_mem_toDigits (by decide) (by decide) hmem) (by decide)

/-- Different numbers are written in different ways. -/
theorem toString_inj {a b : Int} (h : toString a = toString b) : a = b := by
  have hchars := congrArg String.toList h
  rw [Int.toString_eq_repr, Int.toString_eq_repr, Int.repr_eq_if, Int.repr_eq_if] at hchars
  simp only [apply_ite String.toList, String.toList_append, Nat.repr_eq_ofList_toDigits,
    String.toList_ofList] at hchars
  split at hchars <;> split at hchars
  · have := toDigits_inj hchars
    omega
  · exact absurd hchars (toDigits_ne_sign _ _)
  · exact absurd hchars.symm (toDigits_ne_sign _ _)
  · have := toDigits_inj (List.cons.inj hchars).2
    omega

/-! ## Declaring field by field -/

namespace EnumType

theorem collect_ok {name : String} {valueType : ScalarType} :
    ∀ {members : List (String × Value)} {collected : Ordered Value},
    (∀ member ∈ members, valueType.accepts member.2) →
    (collected.keys ++ members.map Prod.fst).Nodup →
    collect name valueType collected members = .ok (collected ++ members)
  | [], collected, _, _ => by rw [collect, List.append_nil]
  | (key, value) :: rest, collected, haccepts, hkeys => by
    obtain ⟨hvalue, hrest⟩ := List.forall_mem_cons.1 haccepts
    have hnew : key ∉ collected.keys := fun hmem =>
      (List.nodup_append.1 hkeys).2.2 key hmem key List.mem_cons_self rfl
    have hhas : collected.has key = false := by
      rwa [← Bool.not_eq_true, Ordered.has_iff_mem_keys]
    rw [collect, hvalue, hhas, Ordered.put_of_not_mem value hnew]
    simp only [Bool.not_true, Bool.false_eq_true, if_false]
    rw [collect_ok hrest, List.append_assoc, List.singleton_append]
    rw [Ordered.keys, List.map_append, List.append_assoc]
    exact hkeys

theorem declare_ok {name : String} {valueType : ScalarType} {members : List (String × Value)}
    (haccepts : ∀ member ∈ members, valueType.accepts member.2) (hne : members ≠ [])
    (hkeys : (members.map Prod.fst).Nodup) :
    declare name valueType members = .ok ⟨name, valueType, members⟩ := by
  have hcollect : collect name valueType [] members = .ok ([] ++ members) :=
    collect_ok haccepts hkeys
  rw [declare_eq, hcollect, List.nil_append]
  show (if _ then _ else _) = _
  rw [if_neg (by simpa using hne)]

/-- Enums of texts have the texts as names. -/
theorem keys_textMembers (values : List String) : (textMembers values).map Prod.fst = values := by
  simp [textMembers, Function.comp_def]

theorem nodup_keys_numberMembers {values : List Int64} (h : values.Nodup) :
    ((numberMembers values).map Prod.fst).Nodup := by
  have hkeys : (numberMembers values).map Prod.fst = values.map fun value => toString value.toInt := by
    simp [numberMembers, Function.comp_def]
  rw [hkeys]
  exact List.Nodup.map (fun value other heq => Int64.toInt_inj.1 (toString_inj heq)) h

theorem declare_texts {name : String} {values : List String} (hne : values ≠ [])
    (hvalues : values.Nodup) :
    declare name .str (textMembers values) = .ok ⟨name, .str, textMembers values⟩ := by
  refine declare_ok (List.forall_mem_map.2 fun _ _ => rfl) ?_ ?_
  · simpa [textMembers] using hne
  · rwa [keys_textMembers]

theorem declare_numbers {name : String} {values : List Int64} (hne : values ≠ [])
    (hvalues : values.Nodup) :
    declare name .int (numberMembers values) = .ok ⟨name, .int, numberMembers values⟩ := by
  refine declare_ok (List.forall_mem_map.2 fun _ _ => rfl) ?_ (nodup_keys_numberMembers hvalues)
  simpa [numberMembers] using hne

end EnumType

namespace RecordModel

theorem checkFields_ok {model : String} : ∀ {fields : List ModelField} {before : List String},
    (∀ field ∈ fields, field.name ≠ "") → (before ++ fields.map FieldOf.name).Nodup →
    checkFields model before fields = .ok ()
  | [], _, _, _ => rfl
  | field :: rest, before, hnames, hnodup => by
    obtain ⟨hname, hrest⟩ := List.forall_mem_cons.1 hnames
    have hnew : field.name ∉ before := fun hmem =>
      (List.nodup_append.1 hnodup).2.2 field.name hmem field.name List.mem_cons_self rfl
    rw [checkFields, if_neg (by simpa using hname), if_neg (by simpa using hnew)]
    exact checkFields_ok hrest (List.perm_middle.nodup_iff.1 hnodup)

theorem declare_ok {name : String} {fields : List ModelField}
    (hnames : ∀ field ∈ fields, field.name ≠ "") (hnodup : (fields.map FieldOf.name).Nodup) :
    declare name fields = .ok ⟨name, .struct, fields⟩ := by
  rw [declare, checkFields_ok hnames hnodup]
  rfl

end RecordModel

namespace Shape

theorem declare_fields {name : String} {fields : List FieldShape}
    (hnames : ∀ field ∈ fields, field.name ≠ "") (hnodup : (fields.map FieldShapeOf.name).Nodup) :
    RecordModel.declare name (declaredFields .struct fields) =
      .ok ⟨name, .struct, declaredFields .struct fields⟩ := by
  refine RecordModel.declare_ok ?_ ?_
  · rw [declaredFields_eq_map]
    exact List.forall_mem_map.2 hnames
  · rwa [fieldNames_declaredFields]

mutual

/-- All that a shape asks for can be declared. -/
theorem build_ok : ∀ {shape : Shape}, shape.WellFormed →
    shape.build = .ok (shape.declared .struct)
  | .scalar _, _ => rfl
  | .texts name values, h => by
    rw [build, EnumType.declare_texts h.1 h.2]
    rfl
  | .numbers name values, h => by
    rw [build, EnumType.declare_numbers h.1 h.2]
    rfl
  | .record _ ⟨name, fields⟩, h => by
    rw [build, buildFields_ok h.2.2]
    show RecordModel.declare name (declaredFields .struct fields) >>= _ = _
    rw [declare_fields h.1 h.2.1]
    rfl
  | .list _ item, h => by
    have hitem : item.WellFormed := h
    rw [build, build_ok hitem]
    rfl

/-- All that its fields ask for can be declared. -/
theorem buildFields_ok : ∀ {fields : List (FieldShapeOf Shape)}, AllWellFormed fields →
    buildFields fields = .ok (declaredFields .struct fields)
  | [], _ => rfl
  | ⟨name, optional, shape⟩ :: rest, h => by
    rw [buildFields, build_ok h.1, buildFields_ok h.2]
    rfl

end

end Shape

/-! ## Types of one shape -/

namespace DeclaredType

theorem text_optionalIf (optional : Bool) (d : DeclaredType) :
    (d.optionalIf optional).text = if optional then "Optional[" ++ d.text ++ "]" else d.text := by
  cases optional
  · rfl
  · exact text.eq_3 d

theorem describe_plain (p : PlainType) (optional : Bool) (origin : Origin) :
    ((plain p).optionalIf optional).describe origin =
      .ok ⟨(plain p).optionalIf optional, p, false, optional, origin⟩ := by
  cases optional <;> rfl

theorem describe_list (item : DeclaredType) (optional : Bool) (origin : Origin) :
    ((list item).optionalIf optional).describe origin =
      match item with
      | .plain p => .ok ⟨(list item).optionalIf optional, p, true, optional, origin⟩
      | _ => .error (.ofKind .name (s!"annotation must have a single parametrized argument, got "
        ++ ((list item).optionalIf optional).text)) := by
  cases optional <;> cases item <;> rfl

end DeclaredType

namespace Shape

/-- The form of record models is not seen in the written form of a type. -/
theorem text_declared (form form' : ModelForm) : ∀ shape : Shape,
    (shape.declared form).text = (shape.declared form').text
  | .scalar _ => rfl
  | .texts _ _ => rfl
  | .numbers _ _ => rfl
  | .record _ ⟨_, _⟩ => rfl
  | .list optional item => by
    rw [declared, declared, DeclaredType.text, DeclaredType.text, DeclaredType.text_optionalIf,
      DeclaredType.text_optionalIf, text_declared form form' item]

/-- A shape other than that of a list has a plain type. -/
theorem declared_plain {shape : Shape} (h : shape.isList = false) :
    ∃ p : ModelForm → PlainType, ∀ form, shape.declared form = .plain (p form) := by
  cases shape with
  | list => cases h
  | record _ r => exact ⟨fun form => .model (r.model form), fun _ => rfl⟩
  | _ => exact ⟨fun _ => _, fun _ => rfl⟩

end Shape

/-! ## Attributes -/

/-- The descriptors are those of one shape, with record models declared field by field and with
record models read from a schema. -/
structure Descriptor.Twin (d d' : Descriptor) : Prop where
  shape : ∃ shape : Shape, shape.WellFormed ∧ shape.declared .struct = .plain d.underlying ∧
    shape.declared .schema = .plain d'.underlying
  isList : d.isList = d'.isList
  isOptional : d.isOptional = d'.isOptional

/-- Both descriptors are found and are those of one shape, or there is one error instead of both. -/
inductive TwinOutcome : Except Error Descriptor → Except Error Descriptor → Prop where
  | found {d d' : Descriptor} : d.Twin d' → TwinOutcome (.ok d) (.ok d')
  | failed (e : Error) : TwinOutcome (.error e) (.error e)

namespace Shape

/-- The types of a shape are described alike. -/
theorem describe_twin {shape : Shape} (hshape : shape.WellFormed) (optional : Bool)
    (origin origin' : Origin) :
    TwinOutcome (((shape.declared .struct).optionalIf optional).describe origin)
      (((shape.declared .schema).optionalIf optional).describe origin') := by
  rcases hlist : shape.isList
  · obtain ⟨p, hp⟩ := declared_plain hlist
    rw [hp, hp, DeclaredType.describe_plain, DeclaredType.describe_plain]
    exact .found ⟨⟨shape, hshape, hp _, hp _⟩, rfl, rfl⟩
  obtain ⟨inner, item, rfl⟩ : ∃ inner item, shape = .list inner item := by
    cases shape with
    | list inner item => exact ⟨inner, item, rfl⟩
    | _ => cases hlist
  have htext : (((list inner item).declared .struct).optionalIf optional).text =
      (((list inner item).declared .schema).optionalIf optional).text := by
    rw [DeclaredType.text_optionalIf, DeclaredType.text_optionalIf, text_declared .struct .schema]
  rw [declared, declared] at htext ⊢
  rw [DeclaredType.describe_list, DeclaredType.describe_list, htext]
  cases inner with
  | true => exact .failed _
  | false =>
    rcases hitem : item.isList
    · obtain ⟨p, hp⟩ := declared_plain hitem
      rw [hp, hp]
      exact .found ⟨⟨item, hshape, hp _, hp _⟩, rfl, rfl⟩
    · cases item with
      | list => exact .failed _
      | _ => cases hitem

theorem field?_model (form : ModelForm) (r : RecordShape) (name : String) :
    RecordModel.field? (r.model form) name =
      (r.fields.find? fun field => field.name == name).map (FieldShapeOf.declared form) := by
  rw [RecordModel.field?, RecordShapeOf.model, declaredFields_eq_map, List.find?_map]
  rfl

theorem fieldNames_model (form : ModelForm) (r : RecordShape) :
    RecordModel.fieldNames (r.model form) = r.fields.map FieldShapeOf.name :=
  fieldNames_declaredFields form r.fields

theorem allWellFormed_iff {fields : List FieldShape} :
    AllWellFormed fields ↔ ∀ field ∈ fields, field.shape.WellFormed := by
  induction fields with
  | nil => exact iff_of_true trivial (List.forall_mem_nil _)
  | cons field rest ih => rw [AllWellFormed, ih, List.forall_mem_cons]

end Shape

namespace Descriptor

/-- What is no record has no attributes, in one way as in the other. -/
theorem attr_same {d d' : Descriptor} {p : PlainType} (name : String) (limit : Nat)
    (hd : DeclaredType.plain p = .plain d.underlying)
    (hd' : DeclaredType.plain p = .plain d'.underlying) (hnone : p.model? = none) :
    TwinOutcome (d.attr name limit) (d'.attr name limit) := by
  rw [attr, attr, model?, model?, ← DeclaredType.plain.inj hd, ← DeclaredType.plain.inj hd', hnone]
  exact .failed _

/-- An attribute is found in both ways, or in neither. -/
theorem attr_twin {d d' : Descriptor} (h : d.Twin d') (name : String) (limit : Nat) :
    TwinOutcome (d.attr name limit) (d'.attr name limit) := by
  obtain ⟨shape, hshape, hd, hd'⟩ := h.shape
  cases shape with
  | scalar => exact attr_same name limit hd hd' rfl
  | texts => exact attr_same name limit hd hd' rfl
  | numbers => exact attr_same name limit hd hd' rfl
  | list => cases hd
  | record key r =>
    have hmodel : d.model? = some (r.model .struct) := by
      rw [model?, ← DeclaredType.plain.inj hd]
      rfl
    have hmodel' : d'.model? = some (r.model .schema) := by
      rw [model?, ← DeclaredType.plain.inj hd']
      rfl
    rw [attr, attr, hmodel, hmodel']
    simp only [Shape.field?_model, Shape.fieldNames_model]
    rcases hfield : r.fields.find? fun field => field.name == name with _ | field <;> rw [hfield]
    · exact .failed _
    · have hmem := List.mem_of_find?_eq_some hfield
      exact Shape.describe_twin (Shape.allWellFormed_iff.1 hshape.2.2 field hmem) ..

/-- Whole paths of attributes lead to twins, too. -/
theorem attrs_twin (limit : Nat) : ∀ {path : List String} {d d' : Descriptor}, d.Twin d' →
    TwinOutcome (path.foldlM (fun d name => d.attr name limit) d)
      (path.foldlM (fun d name => d.attr name limit) d')
  | [], _, _, h => .found h
  | name :: rest, d, d', h => by
    rw [List.foldlM_cons, List.foldlM_cons]
    have hattr := attr_twin h name limit
    generalize d.attr name limit = o, d'.attr name limit = o' at hattr
    cases hattr with
    | found h => exact attrs_twin limit h
    | failed e => exact .failed e

end Descriptor

/-- What attributes lead to from a record model, one after the other. -/
def RecordModel.follow (m : RecordModel) (limit : Nat) (path : List String) :
    Except Error Descriptor := do
  path.foldlM (fun d name => d.attr name limit) (← (DeclaredType.model m).describe .direct)

/-- Whatever attributes are followed from the models of a shape, the outcome is the same. -/
theorem RecordShapeOf.follow_twin {r : RecordShape} {key : Option String}
    (h : (Shape.record key r).WellFormed) (limit : Nat) (path : List String) :
    TwinOutcome (RecordModel.follow (r.model .struct) limit path)
      (RecordModel.follow (r.model .schema) limit path) :=
  Descriptor.attrs_twin limit ⟨⟨.record key r, h, rfl, rfl⟩, rfl, rfl⟩

/-! ## Agreement -/

/-- The descriptors agree: on the underlying type, and on whether it is a list or optional. -/
def Descriptor.Agree (d d' : Descriptor) : Prop :=
  d.underlying.equal d'.underlying ∧ d.isList = d'.isList ∧ d.isOptional = d'.isOptional

/-- Both outcomes are descriptors that agree, or both are the same error. -/
def AgreeOutcome : Except Error Descriptor → Except Error Descriptor → Prop
  | .ok d, .ok d' => d.Agree d'
  | .error e, .error e' => e = e'
  | _, _ => False

theorem EnumType.equal_self {e : EnumType} (hkeys : e.members.keys.Nodup)
    (hvalues : ∀ entry ∈ e.members, Value.equal entry.2 entry.2) : e.equal e := by
  simp [equal, Value.equal_record_self hkeys hvalues]

/-- Descriptors of one shape agree. -/
theorem Descriptor.Twin.agree {d d' : Descriptor} (h : d.Twin d') : d.Agree d' := by
  refine ⟨?_, h.isList, h.isOptional⟩
  obtain ⟨shape, hshape, hd, hd'⟩ := h.shape
  cases shape with
  | list => cases hd
  | scalar s =>
    rw [← DeclaredType.plain.inj hd, ← DeclaredType.plain.inj hd']
    exact beq_self_eq_true s
  | record key r =>
    rw [← DeclaredType.plain.inj hd, ← DeclaredType.plain.inj hd']
    exact beq_self_eq_true r.name
  | texts name values =>
    rw [← DeclaredType.plain.inj hd, ← DeclaredType.plain.inj hd']
    refine EnumType.equal_self ?_ (List.forall_mem_map.2 fun value _ => ?_)
    · show ((EnumType.textMembers values).map Prod.fst).Nodup
      rw [EnumType.keys_textMembers]
      exact hshape.2
    · exact beq_self_eq_true value
  | numbers name values =>
    rw [← DeclaredType.plain.inj hd, ← DeclaredType.plain.inj hd']
    refine EnumType.equal_self (EnumType.nodup_keys_numberMembers hshape.2)
      (List.forall_mem_map.2 fun value _ => ?_)
    exact beq_self_eq_true value

theorem TwinOutcome.agree {o o' : Except Error Descriptor} (h : TwinOutcome o o') :
    AgreeOutcome o o' := by
  cases h with
  | found h => exact h.agree
  | failed => rfl

end Formwork
