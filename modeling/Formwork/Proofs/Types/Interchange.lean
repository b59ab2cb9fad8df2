-- Schema documents of record shapes. A record stands in place, or apart among the definitions of the
-- document, where a reference leads to it from each place that needs it. Reading the document gives
-- back the shape, and so the models that are declared in the two ways can stand for each other.
import Formwork.Proofs.Types.Rereading
import Formwork.Proofs.Types.Shapes

namespace Formwork

/-! ## Writing shapes -/

namespace ScalarType

/-- The name of the type in a schema. -/
def schemaName : ScalarType → String
  | .int => "integer"
  | .float | .decimal => "number"
  | .bool => "boolean"
  | .str | .date | .datetime => "string"

/-- The format that tells the type from others of its name. -/
def schemaFormat : ScalarType → Ordered Json
  | .decimal => [("format", .text "decimal")]
  | .date => [("format", .text "date")]
  | .datetime => [("format", .text "date-time")]
  | _ => []

end ScalarType

namespace Shape

/-- Names a type, or lists the name with "null" for an optional one. -/
def typeMember (optional : Bool) (type : String) : String × Json :=
  ("type", if optional then .array [.text type, .text "null"] else .text type)

/-- Refers to a definition, or chooses between that and null. -/
def reference (optional : Bool) (key : String) : Json :=
  let direct := Json.object [("$ref", .text ("#/$defs/" ++ key))]
  if optional then .object [("anyOf", .array [direct, .object [("type", .text "null")]])] else direct

/-- The names of the fields that must be there. -/
def required (fields : List FieldShape) : List String :=
  (fields.filter fun field => !field.optional).map FieldShapeOf.name

/-- The members of the schema of a record. -/
def recordMembers (optional : Bool) (name : String) (fields : List FieldShape)
    (properties : Ordered Json) : Ordered Json :=
  [("title", .text name), typeMember optional "object", ("properties", .object properties),
    ("required", .array ((required fields).map .text))]

mutual

/-- The schema of a shape, optional or not. -/
def schema (optional : Bool) : Shape → Json
  | .scalar s => .object (typeMember optional s.schemaName :: s.schemaFormat)
  | .texts name values =>
    .object [("title", .text name), typeMember optional "string",
      ("enum", .array (values.map .text))]
  | .numbers name values =>
    .object [("title", .text name), typeMember optional "integer",
      ("enum", .array (values.map fun value => .integer value.toInt))]
  | .record none ⟨name, fields⟩ => .object (recordMembers optional name fields (properties fields))
  | .record (some key) _ => reference optional key
  | .list inner item => .object [typeMember optional "array", ("items", item.schema inner)]

/-- The schemas of fields under their names. -/
def properties : List (FieldShapeOf Shape) → Ordered Json
  | [] => []
  | ⟨name, optional, shape⟩ :: rest => (name, shape.schema optional) :: properties rest

end

mutual

/-- The records of a shape that are defined apart, each under its key. -/
def keyed : Shape → List (String × RecordShape)
  | .record (some key) ⟨name, fields⟩ => (key, ⟨name, fields⟩) :: keyedIn fields
  | .record none ⟨_, fields⟩ => keyedIn fields
  | .list _ item => item.keyed
  | _ => []

/-- The records of fields that are defined apart. -/
def keyedIn : List (FieldShapeOf Shape) → List (String × RecordShape)
  | [] => []
  | ⟨_, _, shape⟩ :: rest => shape.keyed ++ keyedIn rest

end

end Shape

namespace RecordShapeOf

/-- The members of the schema of a record that must be there. -/
def members (r : RecordShape) : Ordered Json :=
  Shape.recordMembers false r.name r.fields (Shape.properties r.fields)

/-- The definitions of a document. A record that is used more than once is defined once. -/
def definitions (r : RecordShape) : Ordered Json :=
  .ofPairs ((Shape.keyedIn r.fields).map fun (key, other) => (key, .object other.members))

/-- The schema document of a record shape. -/
def document (r : RecordShape) : Json := .object (r.members ++ [("$defs", .object r.definitions)])

/-- No two records are defined under one key. -/
def KeysOwned (r : RecordShape) : Prop :=
  ∀ key a b, (key, a) ∈ Shape.keyedIn r.fields → (key, b) ∈ Shape.keyedIn r.fields → a = b

/-- All shapes of the record are as they should be, and so are its fields. -/
def WellFormed (r : RecordShape) : Prop := (Shape.record none r).WellFormed

end RecordShapeOf

namespace Schema

/-! ## Reading types by name -/

section Named

variable {definitions : Option (Ordered Json)} {visiting : List String} {schema : Json}
  {property type : String} {declared : DeclaredType}

/-- The schema says by name what its type is, and leaves nothing else to look at first. -/
structure Declares (schema : Json) (optional : Bool) (type : String) : Prop where
  object : schema.members?.isNone = false
  noReference : text? schema "$ref" = none
  noVariants : variants? schema = none
  noNullable : schema.get? "nullable" = none
  type : schema.get? "type" = some (Shape.typeMember optional type).2

/-- The schema is read by the name, or by a list of the name and "null". -/
theorem Declares.typeForm_eq {optional : Bool} (h : Declares schema optional type) :
    typeForm schema property =
      .ok (if optional then .listed [.text type, .text "null"] else .named type) := by
  unfold typeForm form?
  rw [h.object, h.noReference, h.noVariants, h.type]
  cases optional <;> rfl

theorem Declares.nullable_eq {optional : Bool} (h : Declares schema optional type) :
    nullable schema declared = declared := by
  rw [nullable, h.noNullable]
  rfl

/-- The name leads to a reading of its own, which has nothing to remember. -/
theorem settles_leaf {reading : Reading DeclaredType}
    (hleaf : leaf? schema property type = some reading) (h : reading = pure declared) :
    Settles (fun fuel => rereadNamed definitions fuel visiting schema property type)
      (.ok declared) := by
  refine .of_succ (fun fuel => ?_) (.pure declared)
  rw [rereadNamed_eq, namedForm_of_leaf hleaf, h]
  rfl

/-- Such a schema is optional if the name is in a list with "null". -/
theorem Declares.settles {optional : Bool} (h : Declares schema optional type)
    (hnamed : Settles (fun fuel => rereadNamed definitions fuel visiting schema property type)
      (.ok declared)) :
    Settles (fun fuel => rereadType definitions fuel visiting schema property)
      (.ok (declared.optionalIf optional)) := by
  cases optional with
  | false =>
    refine .of_succ (fun fuel => ?_) hnamed
    simp [rereadType_eq, h.typeForm_eq, h.nullable_eq]
  | true =>
    have hnone : Settles (fun fuel => rereadTypes definitions fuel visiting schema property [])
        (.ok []) := .of_succ (fun _ => by rw [rereadTypes]) (.pure _)
    have hrest : Settles
        (fun fuel => rereadTypes definitions fuel visiting schema property [.text "null"])
        (.ok [.absent]) :=
      .of_succ (fun _ => by rw [rereadTypes]) ((settles_leaf rfl rfl).bind (hnone.map _))
    have htypes : Settles
        (fun fuel => rereadTypes definitions fuel visiting schema property [.text type, .text "null"])
        (.ok [declared, .absent]) :=
      .of_succ (fun _ => by rw [rereadTypes]) (hnamed.bind (hrest.map _))
    refine .of_succ (fun fuel => ?_) (htypes.map oneOf)
    simp [rereadType_eq, h.typeForm_eq, h.nullable_eq]

theorem settles_array {items : Json} (hitems : schema.get? "items" = some items)
    (h : Settles (fun fuel => rereadType definitions fuel visiting items property)
      (.ok declared)) :
    Settles (fun fuel => rereadNamed definitions fuel visiting schema property "array")
      (.ok (.list declared)) := by
  refine .of_succ (fun fuel => ?_) (h.map DeclaredType.list)
  simp only [rereadNamed_eq, namedForm, hitems]

theorem settles_object {model : RecordModel}
    (h : Settles (fun fuel => rereadModel definitions fuel visiting schema (some property))
      (.ok model)) :
    Settles (fun fuel => rereadNamed definitions fuel visiting schema property "object")
      (.ok (.model model)) :=
  .of_succ (fun _ => rereadNamed_eq) (h.map DeclaredType.model)

/-- A choice between a schema and null gives an optional type. -/
theorem settles_choice
    (h : Settles (fun fuel => rereadType definitions fuel visiting schema property)
      (.ok declared)) :
    Settles (fun fuel => rereadType definitions fuel visiting
      (.object [("anyOf", .array [schema, .object [("type", .text "null")]])]) property)
      (.ok declared.optional) := by
  have hdeclares : Declares (.object [("type", .text "null")]) false "null" :=
    ⟨rfl, rfl, rfl, rfl, rfl⟩
  have hnull : Settles (fun fuel =>
      rereadType definitions fuel visiting (.object [("type", .text "null")]) property)
      (.ok .absent) :=
    hdeclares.settles (settles_leaf rfl rfl)
  have hnone : Settles (fun fuel => rereadVariants definitions fuel visiting property [])
      (.ok []) := .of_succ (fun _ => by rw [rereadVariants]) (.pure _)
  have hrest : Settles (fun fuel =>
      rereadVariants definitions fuel visiting property [.object [("type", .text "null")]])
      (.ok [.absent]) :=
    .of_succ (fun _ => by rw [rereadVariants]) (hnull.bind (hnone.map _))
  have hvariants : Settles (fun fuel =>
      rereadVariants definitions fuel visiting property [schema, .object [("type", .text "null")]])
      (.ok [declared, .absent]) :=
    .of_succ (fun _ => by rw [rereadVariants]) (h.bind (hrest.map _))
  refine .of_succ (fun fuel => ?_) (hvariants.map oneOf)
  rw [rereadType_eq]
  rfl

end Named

end Schema

/-! ## Reading shapes back -/

namespace Shape

open Schema

/-- An enum that can be declared under the title is the type that is read. -/
theorem enumeration_eq {schema : Json} {property name : String} {valueType : ScalarType}
    {members : List (String × Value)} {e : EnumType} (htitle : text? schema "title" = some name)
    (h : EnumType.declare name valueType members = .ok e) :
    enumeration schema property valueType members = pure (.plain (.enum e)) := by
  rw [enumeration, htitle, Option.getD_some, h]

theorem textType_texts {name : String} {values : List String} (optional : Bool) (property : String)
    (h : (texts name values).WellFormed) :
    textType ((texts name values).schema optional) property =
      pure ((texts name values).declared .schema) := by
  have hmembers : (values.map Json.text).filterMap (fun v => v.text?.map fun s => (s, .string s)) =
      EnumType.textMembers values := by
    rw [List.filterMap_map, EnumType.textMembers, ← List.filterMap_eq_map]
    rfl
  have henum : array? ((texts name values).schema optional) "enum" = some (values.map .text) := rfl
  rw [textType, henum]
  simp only [hmembers]
  exact enumeration_eq rfl (EnumType.declare_texts h.1 h.2)

theorem int64?_toInt (value : Int64) : (Json.integer value.toInt).int64? = some value := by
  have hlt : value.toInt < (Nat.pow 2 63 : Nat) := Int64.toInt_lt value
  rw [Json.int64?, if_pos hlt, Int64.ofInt_toInt]

theorem wholeType_numbers {name : String} {values : List Int64} (optional : Bool)
    (property : String) (h : (numbers name values).WellFormed) :
    wholeType ((numbers name values).schema optional) property =
      pure ((numbers name values).declared .schema) := by
  have hmembers : (values.map fun value => Json.integer value.toInt).filterMap
      (fun v => v.int64?.map fun n => (toString n.toInt, .integer n)) =
      EnumType.numberMembers values := by
    rw [List.filterMap_map, EnumType.numberMembers, ← List.filterMap_eq_map]
    simp only [Function.comp_def, int64?_toInt, Option.map_some]
  have henum : array? ((numbers name values).schema optional) "enum" =
      some (values.map fun value => .integer value.toInt) := rfl
  rw [wholeType, henum]
  simp only [hmembers]
  exact enumeration_eq rfl (EnumType.declare_numbers h.1 h.2)

/-- What follows a way to the definitions is the key. -/
theorem referenced?_key (key : String) : referenced? ("#/$defs/" ++ key) = some key := by
  have hbegins : ("#/$defs/").toList.isPrefixOf ("#/$defs/" ++ key).toList := by
    rw [String.toList_append, List.isPrefixOf_iff_prefix]
    exact List.prefix_append _ _
  have hdrop : ("#/$defs/" ++ key).toList.drop ("#/$defs/").length = key.toList := by
    rw [String.toList_append]
    exact List.drop_left
  rw [referenced?]
  simp only [hbegins, if_true, hdrop, String.ofList_toList, Option.some_or]

/-- A field is listed as required exactly if it is not optional. -/
theorem contains_required {fields : List FieldShape} (hnodup : (fields.map FieldShapeOf.name).Nodup)
    {field : FieldShape} (hmem : field ∈ fields) :
    (required fields).contains field.name = !field.optional := by
  rw [Bool.eq_iff_iff, List.contains_iff_mem, required, List.mem_map]
  constructor
  · rintro ⟨other, hother, hname⟩
    obtain ⟨hother, hrequired⟩ := List.mem_filter.1 hother
    rwa [← List.inj_on_of_nodup_map hnodup hother hmem hname]
  · exact fun hrequired => ⟨field, List.mem_filter.2 ⟨hmem, hrequired⟩, rfl⟩

/-- What there is to rely on where a shape of some size is read. The records that are defined apart
are found among the definitions, one under each key, and those that are being read are around the
shape. -/
structure Available (definitions : Ordered Json) (entries : List (String × RecordShape))
    (visiting : List String) (size : Nat) : Prop where
  found : ∀ {key r}, (key, r) ∈ entries → definitions.find? key = some (.object r.members)
  owned : ∀ {key a b}, (key, a) ∈ entries → (key, b) ∈ entries → a = b
  around : ∀ key ∈ visiting, ∃ r, (key, r) ∈ entries ∧ size ≤ sizeOf r.fields

section Available

variable {definitions : Ordered Json} {entries : List (String × RecordShape)}
  {visiting : List String} {size : Nat}

theorem Available.mono (h : Available definitions entries visiting size) {less : Nat}
    (hle : less ≤ size) : Available definitions entries visiting less := by
  refine ⟨h.found, h.owned, fun key hkey => ?_⟩
  obtain ⟨r, hmem, hsize⟩ := h.around key hkey
  exact ⟨r, hmem, Nat.le_trans hle hsize⟩

/-- No record is being read inside itself. -/
theorem Available.not_mem (h : Available definitions entries visiting size) {key : String}
    {r : RecordShape} (hmem : (key, r) ∈ entries) (hlt : sizeOf r.fields < size) :
    key ∉ visiting := by
  intro hkey
  obtain ⟨other, hother, hsize⟩ := h.around key hkey
  rw [← h.owned hmem hother] at hsize
  exact absurd hlt (Nat.not_lt.2 hsize)

/-- The fields of a record are read with its definition around them. -/
theorem Available.visit (h : Available definitions entries visiting size) {key : String}
    {r : RecordShape} (hmem : (key, r) ∈ entries) (hlt : sizeOf r.fields < size) :
    Available definitions entries (key :: visiting) (sizeOf r.fields) := by
  refine ⟨h.found, h.owned, List.forall_mem_cons.2 ⟨⟨r, hmem, Nat.le_refl _⟩, ?_⟩⟩
  exact (h.mono (Nat.le_of_lt hlt)).around

end Available

/-- The schema is that of a record with the name and the fields. -/
structure Describes (schema : Json) (name : String) (fields : List FieldShape) : Prop where
  object : schema.members?.isNone = false
  title : text? schema "title" = some name
  properties : object? schema "properties" = some (Shape.properties fields)
  required : array? schema "required" = some ((Shape.required fields).map .text)

/-- Its record model has the fields that its properties are read as. -/
theorem Describes.settles {definitions : Option (Ordered Json)} {visiting : List String}
    {schema : Json} {name : String} {fields : List FieldShape} {read : List ModelField}
    (h : Describes schema name fields) (fallback : Option String)
    (hfields : Settles (fun fuel => rereadProperties definitions fuel visiting name
      (Shape.required fields) (Shape.properties fields)) (.ok read)) :
    Settles (fun fuel => rereadModel definitions fuel visiting schema fallback)
      (.ok ⟨name, .schema, read⟩) := by
  have hrequired : ((Shape.required fields).map Json.text).filterMap Json.text? =
      Shape.required fields := by
    rw [List.filterMap_map]
    exact List.filterMap_some
  refine .of_succ (fun fuel => ?_) (hfields.map (ModelOf.mk name .schema))
  rw [rereadModel_eq, modelForm, h.object, h.title, h.properties, requiredNames, h.required]
  simp only [Bool.false_eq_true, if_false, Option.some_or, Option.getD_some, hrequired]

theorem description_schema (optional : Bool) (shape : Shape) :
    text? (shape.schema optional) "description" = none := by
  rcases shape with s | _ | _ | ⟨_ | _, _⟩ | _
  · cases s <;> rfl
  all_goals cases optional <;> rfl

theorem isOptional_declared (form : ModelForm) (optional : Bool) (shape : Shape) :
    ((shape.declared form).optionalIf optional).isOptional = optional := by
  cases shape <;> cases optional <;> rfl

/-- A property of a shape is read as the field of the shape. -/
theorem field_eq {name : String} {optional : Bool} {shape : Shape} {required : List String}
    (h : required.contains name = !optional) :
    fieldOf required name (shape.schema optional) ((shape.declared .schema).optionalIf optional) =
      FieldShapeOf.declared .schema ⟨name, optional, shape⟩ := by
  rw [fieldOf, h, description_schema, isOptional_declared]
  cases optional <;> rfl

mutual

-- By induction on the shape. Each step inwards leaves less of it, and what is being read stays
-- around the rest, so that no definition is met again while it is read.

/-- The schema of a shape gives its type back. -/
theorem settles_type {definitions : Ordered Json} {entries : List (String × RecordShape)}
    (optional : Bool) (property : String) : ∀ {shape : Shape} {visiting : List String},
    shape.WellFormed → shape.keyed ⊆ entries →
    Available definitions entries visiting (sizeOf shape) →
    Settles
      (fun fuel => rereadType (some definitions) fuel visiting (shape.schema optional) property)
      (.ok ((shape.declared .schema).optionalIf optional))
  | .scalar s, _, _, _, _ => by
    have hdeclares : Declares ((scalar s).schema optional) optional s.schemaName := by
      cases s <;> exact ⟨rfl, rfl, rfl, rfl, rfl⟩
    refine hdeclares.settles ?_
    cases s <;> exact settles_leaf rfl rfl
  | .texts name values, _, hshape, _, _ =>
    Declares.settles ⟨rfl, rfl, rfl, rfl, rfl⟩
      (settles_leaf rfl (textType_texts optional property hshape))
  | .numbers name values, _, hshape, _, _ =>
    Declares.settles ⟨rfl, rfl, rfl, rfl, rfl⟩
      (settles_leaf rfl (wholeType_numbers optional property hshape))
  | .record none ⟨name, fields⟩, visiting, hshape, hkeyed, havailable => by
    have hfields := settles_properties name hshape.2.2 hkeyed
      (havailable.mono (by simp; omega)) fun field hmem => contains_required hshape.2.1 hmem
    have hdescribes : Describes ((record none ⟨name, fields⟩).schema optional) name fields :=
      ⟨rfl, rfl, rfl, rfl⟩
    exact Declares.settles ⟨rfl, rfl, rfl, rfl, rfl⟩
      (settles_object (hdescribes.settles (some property) hfields))
  | .record (some key) ⟨name, fields⟩, visiting, hshape, hkeyed, havailable => by
    obtain ⟨hmem, hkeyed⟩ := List.cons_subset.1 hkeyed
    have hlt : sizeOf fields < sizeOf (record (some key) ⟨name, fields⟩) := by
      simp
      omega
    have hfields := settles_properties name hshape.2.2 hkeyed (havailable.visit hmem hlt)
      fun field hmem => contains_required hshape.2.1 hmem
    have hdescribes : Describes (.object (RecordShapeOf.members ⟨name, fields⟩)) name fields :=
      ⟨rfl, rfl, rfl, rfl⟩
    -- Had its definition been opened already, the record would stand inside its own fields.
    have hdefinition : definition (some definitions) visiting ("#/$defs/" ++ key) key =
        .ok (.object (RecordShapeOf.members ⟨name, fields⟩)) :=
      definition_ok_iff.2 ⟨havailable.not_mem hmem hlt, havailable.found hmem⟩
    have hdirect : Settles (fun fuel =>
        rereadType (some definitions) fuel visiting (reference false key) property)
        (.ok (.model ⟨name, .schema, declaredFields .schema fields⟩)) :=
      .of_succ (fun _ => rereadType_eq) (settles_reference (referenced?_key key) hdefinition
        (hdescribes.settles (some key) hfields))
    cases optional with
    | false => exact hdirect
    | true => exact settles_choice hdirect
  | .list inner item, visiting, hshape, hkeyed, havailable =>
    have hitem : item.WellFormed := hshape
    Declares.settles ⟨rfl, rfl, rfl, rfl, rfl⟩
      (settles_array rfl
        (settles_type inner property hitem hkeyed (havailable.mono (by simp))))

/-- The properties of fields give the fields back. -/
theorem settles_properties {definitions : Ordered Json} {entries : List (String × RecordShape)}
    (model : String) {required : List String} : ∀ {fields : List (FieldShapeOf Shape)}
    {visiting : List String}, AllWellFormed fields → keyedIn fields ⊆ entries →
    Available definitions entries visiting (sizeOf fields) →
    (∀ field ∈ fields, required.contains field.name = !field.optional) →
    Settles (fun fuel =>
        rereadProperties (some definitions) fuel visiting model required (properties fields))
      (.ok (declaredFields .schema fields))
  | [], _, _, _, _, _ => .of_succ (fun _ => by rw [properties, rereadProperties]) (.pure [])
  | ⟨name, optional, shape⟩ :: rest, visiting, hfields, hkeyed, havailable, hrequired => by
    obtain ⟨hshape, hrest⟩ := List.append_subset.1 hkeyed
    obtain ⟨hfirst, hothers⟩ := List.forall_mem_cons.1 hrequired
    have htype := (settles_type optional name hfields.1 hshape
      (havailable.mono (by simp; omega))).within (model ++ "." ++ name)
    have hproperties := settles_properties model hfields.2 hrest
      (havailable.mono (by simp)) hothers
    refine .of_succ (fun fuel => by rw [properties, rereadProperties_cons]) (htype.bind ?_)
    rw [field_eq hfirst]
    exact hproperties.map _

end

end Shape

namespace RecordShapeOf

variable {r : RecordShape}

theorem available (hkeys : r.KeysOwned) :
    Shape.Available r.definitions (Shape.keyedIn r.fields) [] (sizeOf r.fields) := by
  refine ⟨fun {key other} hmem => Ordered.find?_ofPairs ?_ ?_, hkeys _ _ _, List.forall_mem_nil _⟩
  · intro schema hschema
    obtain ⟨⟨key', other'⟩, hmem', heq⟩ := List.mem_map.1 hschema
    cases heq
    rw [hkeys _ _ _ hmem hmem']
  · exact List.mem_map.2 ⟨(key, other), hmem, rfl⟩

/-- The schema document of a record shape is read as the record model of the shape. -/
theorem ofDocument_document (h : r.WellFormed) (hkeys : r.KeysOwned) :
    Schema.ofDocument r.document = .ok (r.model .schema) := by
  have hfields := Shape.settles_properties r.name h.2.2 (List.Subset.refl _) (available hkeys)
    fun field hmem => Shape.contains_required h.2.1 hmem
  have hdescribes : Shape.Describes r.document r.name r.fields := ⟨rfl, rfl, rfl, rfl⟩
  obtain ⟨depth, hmodel⟩ := hdescribes.settles none hfields
  obtain ⟨depth', hdocument⟩ := Schema.rereadDocument_settles r.document
  have hread := hdocument (max depth depth') (Nat.le_max_right ..)
  have hdefinitions : Schema.definitions? r.document = some r.definitions := rfl
  rw [Schema.rereadDocument, hdefinitions, hmodel _ (Nat.le_max_left ..)] at hread
  exact (Option.some.inj hread).symm

theorem build_ok (h : r.WellFormed) : r.build = .ok (r.model .struct) := by
  rw [build, Shape.buildFields_ok h.2.2]
  exact Shape.declare_fields h.1 h.2.1

end RecordShapeOf

/-! ## The law -/

/-- A record shape can be declared field by field, and its schema document can be read. The record
models that this gives have the fields of the shape in its order. Whatever attributes are followed
from the one and from the other, there is the same error, or descriptors that agree. -/
theorem models_of_a_shape_are_interchangeable {r : RecordShape} (h : r.WellFormed)
    (hkeys : r.KeysOwned) : ∃ struct schema : RecordModel,
      r.build = .ok struct ∧ Schema.ofDocument r.document = .ok schema ∧
      RecordModel.fieldNames struct = r.fields.map FieldShapeOf.name ∧
      RecordModel.fieldNames schema = RecordModel.fieldNames struct ∧
      ∀ limit path, AgreeOutcome (RecordModel.follow struct limit path)
        (RecordModel.follow schema limit path) := by
  refine ⟨r.model .struct, r.model .schema, r.build_ok h, r.ofDocument_document h hkeys,
    Shape.fieldNames_model _ r, ?_, fun limit path => (r.follow_twin h limit path).agree⟩
  rw [Shape.fieldNames_model, Shape.fieldNames_model]

/-- An address, defined apart. -/
def Shape.address : Shape :=
  .record (some "Address") ⟨"Address", [⟨"city", false, .scalar .str⟩,
    ⟨"floor", true, .numbers "Floor" [1, 2]⟩]⟩

/-- A company with a seat, if it has one, and branches. -/
def RecordShapeOf.company : RecordShape :=
  ⟨"Company", [⟨"name", false, .scalar .str⟩, ⟨"size", true, .texts "Size" ["small", "large"]⟩,
    ⟨"seat", true, .address⟩, ⟨"branches", false, .list false .address⟩]⟩

theorem models_of_a_shape_are_interchangeable_in_a_company :
    RecordShapeOf.company.WellFormed ∧ RecordShapeOf.company.KeysOwned ∧
    ∃ struct schema : RecordModel, RecordShapeOf.company.build = .ok struct ∧
      Schema.ofDocument RecordShapeOf.company.document = .ok schema ∧
      RecordModel.fieldNames struct = ["name", "size", "seat", "branches"] ∧
      RecordModel.fieldNames schema = RecordModel.fieldNames struct ∧
      ∀ limit path, AgreeOutcome (RecordModel.follow struct limit path)
        (RecordModel.follow schema limit path) := by
  have h : RecordShapeOf.company.WellFormed := by
    simp [RecordShapeOf.company, RecordShapeOf.WellFormed, Shape.address, Shape.WellFormed,
      Shape.AllWellFormed]
  have hkeys : RecordShapeOf.company.KeysOwned := by
    intro key a b ha hb
    simp [RecordShapeOf.company, Shape.address, Shape.keyedIn, Shape.keyed] at ha hb
    rw [ha.2, hb.2]
  exact ⟨h, hkeys, models_of_a_shape_are_interchangeable h hkeys⟩

end Formwork
