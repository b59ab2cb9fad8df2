-- The forms of schemas. The members of a schema decide how it is read, before any other schema is: its
-- record model by a name and properties, its type by a reference, by variants, by names or by
-- properties, and the type of a name by the name. Each reader is said here once, by the form that it
-- goes by, and whatever else reads schemas is said by the same forms.
import Formwork.Types.Schema

namespace Formwork

/-! ## Refusals -/

/-- The refusal is of a schema for its own members, and not of a definition or an enum. -/
def SchemaRefusal.isOfForm : SchemaRefusal → Bool
  | .recursiveReference _ | .noDefinitions _ | .unknownDefinition _ _ | .badEnum _ => false
  | _ => true

/-- The error is one of setup, and its words are about an enum. -/
def Error.IsOfEnum (e : Error) : Prop :=
  ∃ kind message, e = .ofKind kind message ∧ "Enum ".toList <+: message.toList

/-- Such an error does not begin with other words. -/
theorem Error.IsOfEnum.not_begins {e : Error} (h : e.IsOfEnum) {words : List Char}
    (hwords : ¬ "Enum ".toList <+: words ∧ ¬ words <+: "Enum ".toList) :
    ¬ words <+: e.message.toList := by
  obtain ⟨kind, message, rfl, henum⟩ := h
  intro hbegins
  exact (List.prefix_or_prefix_of_prefix henum hbegins).elim hwords.1 hwords.2

namespace EnumType

variable {name : String} {valueType : ScalarType} {e : Error}

theorem isOfEnum_collect : ∀ {members : List (String × Value)} {collected : Ordered Value},
    collect name valueType collected members = .error e → e.IsOfEnum
  | [], _, h => by cases h
  | (key, value) :: rest, collected, h => by
    unfold collect at h
    split at h
    · cases h
      exact ⟨_, _, rfl, by simp [toString]⟩
    · split at h
      · cases h
        exact ⟨_, _, rfl, by simp [toString]⟩
      · exact isOfEnum_collect h

/-- An enum that can not be declared is reported as such. -/
theorem isOfEnum_declare {members : List (String × Value)}
    (h : declare name valueType members = .error e) : e.IsOfEnum := by
  rw [declare_eq] at h
  rcases hcollected : collect name valueType [] members with cause | collected <;>
    rw [hcollected] at h
  · cases h
    exact isOfEnum_collect hcollected
  · change (if _ then _ else _) = _ at h
    split at h <;> cases h
    exact ⟨_, _, rfl, by simp [toString]⟩

end EnumType

namespace Schema

/-! ## Record models -/

/-- The names of the properties that must be there. -/
def requiredNames (schema : Json) : List String :=
  ((array? schema "required").getD []).filterMap Json.text?

/-- The field of a property with a type. It is optional unless it must be there. -/
def fieldOf (required : List String) (name : String) (schema : Json) (declared : DeclaredType) :
    ModelField :=
  { name
    declared := if !required.contains name && !declared.isOptional then declared.optional
      else declared
    required := required.contains name
    description := text? schema "description" }

/-- What the record model of a schema is read off, its name and its properties, or why it can not be
read. -/
def modelForm (schema : Json) (fallback : Option String) :
    Except SchemaRefusal (String × Ordered Json) :=
  if schema.members?.isNone then .error (.notObject (fallback.getD "document"))
  else match (text? schema "title").or fallback with
    | none => .error .untitled
    | some name =>
      match object? schema "properties" with
      | none => .error (.noProperties name)
      | some properties => .ok (name, properties)

section Models

variable {schema : Json} {fallback : Option String} {refusal : SchemaRefusal}

theorem modelForm_ok {name : String} {properties : Ordered Json}
    (h : modelForm schema fallback = .ok (name, properties)) :
    (text? schema "title").or fallback = some name ∧
      object? schema "properties" = some properties := by
  unfold modelForm at h
  split at h
  · cases h
  · split at h
    · cases h
    · split at h <;> cases h
      exact ⟨‹_›, ‹_›⟩

theorem isOfForm_modelForm (h : modelForm schema fallback = .error refusal) :
    refusal.isOfForm = true := by
  unfold modelForm at h
  split at h
  · cases h
    rfl
  · split at h
    · cases h
      rfl
    · split at h <;> cases h
      rfl

/-- The record model of a schema has the fields of its properties. -/
theorem readModel_eq {definitions : Option (Ordered Json)} {visiting : List String} :
    readModel definitions visiting schema fallback =
      match modelForm schema fallback with
      | .error refusal => refuse refusal
      | .ok (name, properties) => do
        return ⟨name, .schema,
          ← readProperties definitions visiting name (requiredNames schema) properties⟩ := by
  rw [readModel]
  unfold modelForm
  cases schema.members?.isNone with
  | true => rfl
  | false =>
    rcases (text? schema "title").or fallback with _ | name
    · rfl
    · simp only [Bool.false_eq_true, if_false]
      split
      · rename_i hproperties
        simp only [hproperties]
      · rename_i hproperties
        simp only [hproperties]
        rfl

/-- The fields of properties are read one after the other. -/
theorem readProperties_cons {definitions : Option (Ordered Json)} {visiting : List String}
    {model name : String} {required : List String} {rest : List (String × Json)} :
    readProperties definitions visiting model required ((name, schema) :: rest) = do
      let declared ← within (model ++ "." ++ name) (readType definitions visiting schema name)
      return fieldOf required name schema declared ::
        (← readProperties definitions visiting model required rest) := by
  rw [readProperties]
  rfl

end Models

/-! ## Types -/

/-- What the type of a schema is read off: a reference, variants, the name of a type, a list of them,
or the properties of the schema itself. -/
inductive Form where
  | reference (reference : String)
  | variants (variants : List Json)
  | named (type : String)
  | listed (types : List Json)
  | untyped

/-- The form of a schema, unless its type can not be read. A reference goes before variants, and both
before a type that is named. -/
def form? (schema : Json) : Option Form :=
  match text? schema "$ref" with
  | some reference => some (.reference reference)
  | none =>
    match variants? schema with
    | some variants => some (.variants variants)
    | none =>
      match schema.get? "type" with
      | some (.text type) => some (.named type)
      | some (.array (type :: types)) => some (.listed (type :: types))
      | some _ => none
      | none => some .untyped

/-- The refusal of a schema without a form. -/
def unreadable (schema : Json) (property : String) : SchemaRefusal :=
  match schema.get? "type" with
  | some (.array _) => .noTypes property
  | some declaration => .unreadableType declaration property
  | none => .untyped property

/-- The form that the type of a schema is read by, or why it can not be read. -/
def typeForm (schema : Json) (property : String) : Except SchemaRefusal Form :=
  if schema.members?.isNone then .error (.notObject property)
  else match form? schema with
    | none => .error (unreadable schema property)
    | some .untyped =>
      if (schema.get? "properties").isSome then .ok .untyped else .error (.untyped property)
    | some form => .ok form

/-- The names of the types of a schema, a single one or a list. -/
def typeNames (schema : Json) : List String :=
  match schema.get? "type" with
  | some (.text type) => [type]
  | some (.array types) => types.filterMap Json.text?
  | _ => []

/-- The type of a schema that may say that the value can be absent. -/
def nullable (schema : Json) (declared : DeclaredType) : DeclaredType :=
  if ((schema.get? "nullable").bind Json.bool?).getD false && !declared.isOptional then
    declared.optional
  else declared

/-- The type that a reference gives: what is remembered under its name, or else the record model of
its definition, which is remembered from then on. -/
def readReference (definitions : Option (Ordered Json)) (visiting : List String)
    (reference : String) : Reading DeclaredType :=
  match referenced? reference with
  | none => refuse (.foreignReference reference)
  | some name => do
    match Ordered.find? (← get) name with
    | some model => return .model model
    | none =>
      match definition definitions visiting reference name with
      | .error refusal => refuse refusal
      | .ok target =>
        let model ← readModel definitions (name :: visiting) target (some name)
        modify (Ordered.put name model)
        return .model model

section Types

variable {schema : Json} {property : String} {form : Form} {refusal : SchemaRefusal}

theorem form?_reference_iff {reference : String} :
    form? schema = some (.reference reference) ↔ text? schema "$ref" = some reference := by
  unfold form?
  split
  · rename_i href
    simp [href]
  · rename_i href
    rw [href]
    refine iff_of_false (fun h => ?_) fun h => by cases h
    split at h
    · cases h
    · split at h <;> cases h

/-- The keywords that a form is read off. -/
theorem form?_keywords : form? schema = some form →
    match form with
    | .reference reference => text? schema "$ref" = some reference
    | .variants variants => text? schema "$ref" = none ∧ variants? schema = some variants
    | .named type => text? schema "$ref" = none ∧ variants? schema = none ∧
      schema.get? "type" = some (.text type)
    | .listed types => text? schema "$ref" = none ∧ variants? schema = none ∧
      schema.get? "type" = some (.array types)
    | .untyped => text? schema "$ref" = none ∧ variants? schema = none ∧
      schema.get? "type" = none := by
  intro h
  unfold form? at h
  split at h
  · cases h
    assumption
  · split at h
    · cases h
      exact ⟨‹_›, ‹_›⟩
    · split at h <;> cases h <;> exact ⟨‹_›, ‹_›, ‹_›⟩

/-- A schema with names goes by them, by a single one or by a list. -/
theorem form?_of_typeNames {type : String} (href : text? schema "$ref" = none)
    (hvariants : variants? schema = none) (hmem : type ∈ typeNames schema) :
    form? schema = some (.named type) ∨
      ∃ types, form? schema = some (.listed types) ∧ type ∈ types.filterMap Json.text? := by
  unfold typeNames at hmem
  unfold form?
  rw [href, hvariants]
  split at hmem
  · rename_i htype
    obtain rfl := List.mem_singleton.1 hmem
    exact .inl (by rw [htype])
  · rename_i types htypes
    cases types with
    | nil => cases hmem
    | cons first rest => exact .inr ⟨first :: rest, by rw [htypes], hmem⟩
  · cases hmem

theorem typeForm_ok (h : typeForm schema property = .ok form) : form? schema = some form := by
  unfold typeForm at h
  split at h
  · cases h
  · split at h
    · cases h
    · split at h <;> cases h
      assumption
    · cases h
      assumption

theorem isOfForm_typeForm (h : typeForm schema property = .error refusal) :
    refusal.isOfForm = true := by
  unfold typeForm at h
  split at h
  · cases h
    rfl
  · split at h
    · cases h
      unfold unreadable
      split <;> rfl
    · split at h <;> cases h
      rfl
    · cases h

/-- The type of a schema is read by its form. -/
theorem readType_eq {definitions : Option (Ordered Json)} {visiting : List String} :
    readType definitions visiting schema property =
      match typeForm schema property with
      | .error refusal => refuse refusal
      | .ok (.reference reference) => readReference definitions visiting reference
      | .ok (.variants variants) => do
        return oneOf (← readVariants definitions visiting property variants)
      | .ok (.named type) => do
        return nullable schema (← readNamed definitions visiting schema property type)
      | .ok (.listed types) => do
        return nullable schema (oneOf (← readTypes definitions visiting schema property types))
      | .ok .untyped => do
        return nullable schema (.model (← readModel definitions visiting schema property)) := by
  rw [readType]
  unfold typeForm
  cases schema.members?.isNone with
  | true => rfl
  | false =>
    unfold form? unreadable
    rcases text? schema "$ref" with _ | reference
    · simp only [Bool.false_eq_true, if_false]
      split
      · rename_i variants hvariants
        simp only [hvariants]
      · rename_i hvariants
        simp only [hvariants]
        rcases schema.get? "type" with _ | declaration
        · cases (schema.get? "properties").isSome <;> rfl
        · cases declaration with
          | array types => cases types <;> rfl
          | _ => rfl
    · simp only [Bool.false_eq_true, if_false, readReference]
      rcases referenced? reference with _ | name
      · rfl
      · refine congrArg (get >>= ·) (funext fun remembered => ?_)
        rcases remembered.find? name with _ | model
        · simp only
          split <;> rename_i hdefinition <;> simp only [hdefinition]
        · rfl

end Types

/-! ## Names of types -/

/-- The reading of a type by its name, for the names that need no other schema. -/
def leaf? (schema : Json) (property : String) : String → Option (Reading DeclaredType)
  | "string" => some (textType schema property)
  | "integer" => some (wholeType schema property)
  | "number" => some (numberType schema)
  | "boolean" => some (pure (.scalar .bool))
  | "null" => some (pure .absent)
  | _ => none

/-- What the type that a name gives a schema is read off: the members of the schema itself, its items,
or its record model. -/
inductive NamedForm where
  | leaf (reading : Reading DeclaredType)
  | items (items : Json)
  | record

/-- The form that the type of a name is read by, or why it can not be read. -/
def namedForm (schema : Json) (property : String) : String → Except SchemaRefusal NamedForm
  | "array" =>
    match schema.get? "items" with
    | none => .error (.noItems property)
    | some items => .ok (.items items)
  | "object" => .ok .record
  | type =>
    match leaf? schema property type with
    | some reading => .ok (.leaf reading)
    | none => .error (.unknownType type property)

section Names

variable {schema : Json} {property type : String} {refusal : SchemaRefusal}
  {reading : Reading DeclaredType}

theorem namedForm_ok {form : NamedForm} : namedForm schema property type = .ok form →
    match form with
    | .leaf reading => leaf? schema property type = some reading
    | .items items => type = "array" ∧ schema.get? "items" = some items
    | .record => type = "object" := by
  intro h
  unfold namedForm at h
  split at h
  · split at h <;> cases h
    exact ⟨rfl, ‹_›⟩
  · cases h
    rfl
  · split at h <;> cases h
    assumption

theorem isOfForm_namedForm (h : namedForm schema property type = .error refusal) :
    refusal.isOfForm = true := by
  unfold namedForm at h
  split at h
  · split at h <;> cases h
    rfl
  · cases h
  · split at h <;> cases h
    rfl

theorem namedForm_of_leaf (h : leaf? schema property type = some reading) :
    namedForm schema property type = .ok (.leaf reading) := by
  unfold namedForm
  split
  · cases h
  · cases h
  · rw [h]

/-- No other names are known. -/
theorem namedForm_of_other
    (h : type ∉ ["string", "integer", "number", "boolean", "array", "object", "null"]) :
    namedForm schema property type = .error (.unknownType type property) := by
  simp only [List.mem_cons, List.not_mem_nil, or_false, not_or] at h
  have hleaf : leaf? schema property type = none := by
    unfold leaf?
    split <;> simp_all
  unfold namedForm
  split <;> simp_all

/-- The type of a name is read by its form. -/
theorem readNamed_eq {definitions : Option (Ordered Json)} {visiting : List String} :
    readNamed definitions visiting schema property type =
      match namedForm schema property type with
      | .error refusal => refuse refusal
      | .ok (.leaf reading) => reading
      | .ok (.items items) => do return .list (← readType definitions visiting items property)
      | .ok .record => do return .model (← readModel definitions visiting schema property) := by
  unfold readNamed
  split
  · rfl
  · rfl
  · rfl
  · rfl
  · unfold namedForm
    rcases schema.get? "items" with _ | items <;> rfl
  · rfl
  · rfl
  · rw [namedForm_of_other (by simp_all)]

/-- Enums are declared without a look at what is remembered. -/
theorem run_enumeration (valueType : ScalarType) (members : List (String × Value))
    (remembered : Ordered RecordModel) :
    (enumeration schema property valueType members).run remembered =
      (Prod.fst <$> (enumeration schema property valueType members).run []).map
        fun a => (a, remembered) := by
  unfold enumeration
  split <;> rfl

/-- A reading that needs no other schema does not look at what is remembered. -/
theorem run_leaf (hleaf : leaf? schema property type = some reading)
    (remembered : Ordered RecordModel) :
    reading.run remembered = (Prod.fst <$> reading.run []).map fun a => (a, remembered) := by
  unfold leaf? at hleaf
  split at hleaf <;> cases hleaf
  · unfold textType
    split
    · exact run_enumeration ..
    · split <;> rfl
  · unfold wholeType
    split
    · exact run_enumeration ..
    · rfl
  · unfold numberType
    split <;> rfl
  · rfl
  · rfl

theorem enumeration_fault {valueType : ScalarType} {members : List (String × Value)}
    {fault : SchemaFault}
    (h : Prod.fst <$> (enumeration schema property valueType members).run [] = .error fault) :
    ∃ cause, fault.refusal = .badEnum cause ∧ cause.IsOfEnum := by
  unfold enumeration at h
  split at h <;> cases h
  exact ⟨_, rfl, EnumType.isOfEnum_declare ‹_›⟩

/-- It ends in a fault only if an enum can not be declared. -/
theorem leaf_fault {fault : SchemaFault} (hleaf : leaf? schema property type = some reading)
    (h : Prod.fst <$> reading.run [] = .error fault) :
    ∃ cause, fault.refusal = .badEnum cause ∧ cause.IsOfEnum := by
  unfold leaf? at hleaf
  split at hleaf <;> cases hleaf
  · unfold textType at h
    split at h
    · exact enumeration_fault h
    · split at h <;> cases h
  · unfold wholeType at h
    split at h
    · exact enumeration_fault h
    · cases h
  · unfold numberType at h
    split at h <;> cases h
  · cases h
  · cases h

end Names

end Schema

end Formwork
