-- Record models read from schema documents. A schema is an object with properties; the type of a
-- property is a reference to a definition of the document, a choice of variants, a named type, a
-- list of named types, or properties of its own. A definition is read once and then remembered, and
-- a definition that is needed while it is being read is refused.
import Formwork.Types.Descriptor
import Formwork.Json.Reader
import Formwork.Json.Writer

namespace Formwork

/-! ## Refusals -/

/-- Why a schema is refused. -/
inductive SchemaRefusal where
  | notObject (context : String)
  | untitled
  | noProperties (model : String)
  | foreignReference (reference : String)
  | recursiveReference (reference : String)
  | noDefinitions (reference : String)
  | unknownDefinition (name : String) (available : List String)
  | unnamedType (property : String)
  | noTypes (property : String)
  | unreadableType (declaration : Json) (property : String)
  | untyped (property : String)
  | noItems (property : String)
  | unknownType (type property : String)
  | badEnum (cause : Error)

/-- A refusal and the innermost property it was met at. -/
structure SchemaFault where
  refusal : SchemaRefusal
  place : Option String

namespace SchemaRefusal

/-- The error that reports a refusal. -/
def error : SchemaRefusal → Error
  | notObject context => .ofKind .type s!"Schema of {context} must be an object"
  | untitled => .ofKind .name "Schema object needs a title"
  | noProperties model => .ofKind .type s!"Schema {model} has no properties"
  | foreignReference reference => .ofKind .type s!"Unsupported schema reference {reference}"
  | recursiveReference reference => .ofKind .type s!"Recursive schema reference {reference}"
  | noDefinitions reference => .ofKind .type s!"No definitions for reference {reference}"
  | unknownDefinition name available =>
    .unknownName none s!"Schema definition '{name}' not found" (Hint.closest name available 10)
  | unnamedType property => .ofKind .type s!"Type list of {property} must hold strings"
  | noTypes property => .ofKind .type s!"Empty type list for {property}"
  | unreadableType declaration property =>
    .ofKind .type s!"Unsupported type declaration {declaration.write} for {property}"
  | untyped property => .ofKind .type s!"Schema of {property} declares no type"
  | noItems property => .ofKind .type s!"Array {property} declares no items"
  | unknownType type property => .ofKind .type s!"Unsupported schema type '{type}' for {property}"
  | badEnum cause => cause

end SchemaRefusal

namespace SchemaFault

/-- Names the place of a fault, unless it has one. -/
def placed (place : String) (fault : SchemaFault) : SchemaFault :=
  { fault with place := fault.place.or (some place) }

/-- The error that reports a fault. -/
def error (fault : SchemaFault) : Error :=
  match fault.place with
  | some place => fault.refusal.error.withOwner place
  | none => fault.refusal.error

end SchemaFault

namespace Schema

/-! ## Parts of a schema -/

/-- The array under a name. -/
def array? (schema : Json) (key : String) : Option (List Json) :=
  (schema.get? key).bind Json.items?

/-- The members of the object under a name. -/
def object? (schema : Json) (key : String) : Option (Ordered Json) :=
  (schema.get? key).bind Json.members?

/-- The text under a name. -/
def text? (schema : Json) (key : String) : Option String := (schema.get? key).bind Json.text?

/-- The variants that a schema chooses from. -/
def variants? (schema : Json) : Option (List Json) :=
  (array? schema "anyOf").or (array? schema "oneOf")

/-- The definitions of a document. The newer section hides the older one. -/
def definitions? (document : Json) : Option (Ordered Json) :=
  ((document.get? "$defs").or (document.get? "definitions")).bind Json.members?

/-- The name of the definition that a reference points to. -/
def referenced? (reference : String) : Option String :=
  let after := fun start : String =>
    if start.toList.isPrefixOf reference.toList then
      some (String.ofList (reference.toList.drop start.length))
    else none
  (after "#/$defs/").or (after "#/definitions/")

/-- The type that lists of types stand for: a single one itself, several a union. -/
def oneOf : List DeclaredType → DeclaredType
  | [only] => only
  | several => .union several

/-- The names of the definitions that are not being read. -/
def unvisited (definitions : Ordered Json) (visiting : List String) : Nat :=
  definitions.countP fun definition => !visiting.contains definition.1

theorem sizeOf_of_array? {schema : Json} {key : String} {items : List Json}
    (h : array? schema key = some items) : sizeOf items < sizeOf schema := by
  obtain ⟨value, hv, hi⟩ := Option.bind_eq_some_iff.1 h
  have := Json.sizeOf_of_get? hv
  cases value <;> simp [Json.items?] at hi
  subst hi
  simp at this
  omega

theorem sizeOf_of_object? {schema : Json} {key : String} {members : Ordered Json}
    (h : object? schema key = some members) : sizeOf members < sizeOf schema := by
  obtain ⟨value, hv, hi⟩ := Option.bind_eq_some_iff.1 h
  have := Json.sizeOf_of_get? hv
  cases value <;> simp [Json.members?] at hi
  subst hi
  simp at this
  omega

theorem sizeOf_of_variants? {schema : Json} {items : List Json}
    (h : variants? schema = some items) : sizeOf items < sizeOf schema := by
  rcases Option.or_eq_some_iff.1 h with h | ⟨_, h⟩ <;> exact sizeOf_of_array? h

theorem unvisited_cons (entry : String × Json) (rest : Ordered Json) (visiting : List String) :
    unvisited (entry :: rest) visiting
      = unvisited rest visiting + if visiting.contains entry.1 then 0 else 1 := by
  unfold unvisited
  rw [List.countP_cons]
  cases h : visiting.contains entry.1 <;> simp only [Bool.not_true, Bool.not_false] <;> rfl

theorem unvisited_cons_le (definitions : Ordered Json) (visiting : List String) (name : String) :
    unvisited definitions (name :: visiting) ≤ unvisited definitions visiting := by
  apply List.countP_mono_left
  intro entry _ he
  rw [List.contains_cons, Bool.not_or, Bool.and_eq_true] at he
  exact he.2

/-- Opening a definition leaves fewer of them. -/
theorem unvisited_cons_lt {definitions : Ordered Json} {visiting : List String} {name : String}
    {definition : Json} (h : Ordered.find? definitions name = some definition)
    (fresh : visiting.contains name = false) :
    unvisited definitions (name :: visiting) < unvisited definitions visiting := by
  induction definitions with
  | nil => cases h
  | cons entry rest ih =>
    obtain ⟨k, v⟩ := entry
    rw [unvisited_cons, unvisited_cons, List.contains_cons]
    by_cases hk : k = name
    · subst hk
      have := unvisited_cons_le rest visiting k
      rw [fresh, beq_self_eq_true]
      exact Nat.lt_succ_of_le this
    · have hk' : (k == name) = false := beq_eq_false_iff_ne.2 hk
      rw [Ordered.find?_cons, if_neg (Ne.symm hk)] at h
      rw [hk', Bool.false_or]
      exact Nat.add_lt_add_right (ih h) _

/-! ## Reading -/

/-- Reading may remember definitions, and ends in a fault at the first schema that is refused. -/
abbrev Reading := StateT (Ordered RecordModel) (Except SchemaFault)

/-- Ends reading with a refusal. -/
def refuse {α : Type} (refusal : SchemaRefusal) : Reading α := throw ⟨refusal, none⟩

/-- The definition that a reference needs, unless it is being read. -/
def definition (definitions : Option (Ordered Json)) (visiting : List String)
    (reference name : String) : Except SchemaRefusal Json :=
  if visiting.contains name then .error (.recursiveReference reference)
  else match definitions with
    | none => .error (.noDefinitions reference)
    | some members =>
      match Ordered.find? members name with
      | some schema => .ok schema
      | none => .error (.unknownDefinition name members.keys)

/-- Definitions that a reading may still open. -/
def budget (definitions : Option (Ordered Json)) (visiting : List String) : Nat :=
  match definitions with
  | some members => unvisited members visiting
  | none => 0

theorem budget_lt {definitions : Option (Ordered Json)} {visiting : List String}
    {reference name : String} {schema : Json}
    (h : definition definitions visiting reference name = .ok schema) :
    budget definitions (name :: visiting) < budget definitions visiting := by
  unfold definition at h
  split at h
  · simp at h
  · rename_i fresh
    split at h
    · simp at h
    · rename_i members
      split at h
      · rename_i found
        simp only [Except.ok.injEq] at h
        exact unvisited_cons_lt found (by simpa using fresh)
      · simp at h

/-- The enum of the members that have a value of the right kind. -/
def enumeration (schema : Json) (property : String) (valueType : ScalarType)
    (members : List (String × Value)) : Reading DeclaredType :=
  match EnumType.declare ((text? schema "title").getD property) valueType members with
  | .ok e => return .plain (.enum e)
  | .error cause => refuse (.badEnum cause)

/-- The type of texts: an enum of the texts listed, or a date by the format. -/
def textType (schema : Json) (property : String) : Reading DeclaredType :=
  match array? schema "enum" with
  | some values =>
    enumeration schema property .str (values.filterMap fun v =>
      v.text?.map fun s => (s, .string s))
  | none =>
    match text? schema "format" with
    | some "date" => return .scalar .date
    | some "date-time" => return .scalar .datetime
    | _ => return .scalar .str

/-- The type of whole numbers: an enum of the numbers listed, or any. -/
def wholeType (schema : Json) (property : String) : Reading DeclaredType :=
  match array? schema "enum" with
  | some values =>
    enumeration schema property .int (values.filterMap fun v =>
      v.int64?.map fun n => (toString n.toInt, .integer n))
  | none => return .scalar .int

/-- The type of numbers: decimals by the format, doubles otherwise. -/
def numberType (schema : Json) : Reading DeclaredType :=
  match text? schema "format" with
  | some "decimal" => return .scalar .decimal
  | _ => return .scalar .float

/-- Names the place of whatever fault reading ends in. -/
def within {α : Type} (place : String) (reading : Reading α) : Reading α :=
  fun remembered => (reading remembered).mapError (SchemaFault.placed place)

mutual

/-- The record model of a schema with properties. Its name is its title, or else `fallback`. -/
def readModel (definitions : Option (Ordered Json)) (visiting : List String) (schema : Json)
    (fallback : Option String) : Reading RecordModel := do
  if schema.members?.isNone then refuse (.notObject (fallback.getD "document"))
  match (text? schema "title").or fallback with
  | none => refuse .untitled
  | some name =>
    match _h : object? schema "properties" with
    | none => refuse (.noProperties name)
    | some properties =>
      let required := ((array? schema "required").getD []).filterMap Json.text?
      let fields ← readProperties definitions visiting name required properties
      return ⟨name, .schema, fields⟩
termination_by (budget definitions visiting, sizeOf schema, 0, 0)
decreasing_by
  exact Prod.Lex.right _ (Prod.Lex.left _ _ (sizeOf_of_object? _h))

/-- The fields of the properties. A property that is not required is optional. -/
def readProperties (definitions : Option (Ordered Json)) (visiting : List String) (model : String)
    (required : List String) (properties : List (String × Json)) : Reading (List ModelField) := do
  match properties with
  | [] => return []
  | (name, schema) :: rest =>
    let declared ← within (model ++ "." ++ name) (readType definitions visiting schema name)
    let isRequired := required.contains name
    let field : ModelField :=
      { name
        declared := if !isRequired && !declared.isOptional then declared.optional
          else declared
        required := isRequired
        description := text? schema "description" }
    return field :: (← readProperties definitions visiting model required rest)
termination_by (budget definitions visiting, sizeOf properties, 0, 0)

/-- The type that a schema declares for a property. -/
def readType (definitions : Option (Ordered Json)) (visiting : List String) (schema : Json)
    (property : String) : Reading DeclaredType := do
  if schema.members?.isNone then refuse (.notObject property)
  match text? schema "$ref" with
  | some reference =>
    match referenced? reference with
    | none => refuse (.foreignReference reference)
    | some name =>
      match Ordered.find? (← get) name with
      | some model => return .model model
      | none =>
        match _h : definition definitions visiting reference name with
        | .error refusal => refuse refusal
        | .ok target =>
          let model ← readModel definitions (name :: visiting) target (some name)
          modify (Ordered.put name model)
          return .model model
  | none =>
    match _h : variants? schema with
    | some variants => return oneOf (← readVariants definitions visiting property variants)
    | none =>
      let declared ← match schema.get? "type" with
        | some (.text type) => readNamed definitions visiting schema property type
        | some (.array []) => refuse (.noTypes property)
        | some (.array types) =>
          pure (oneOf (← readTypes definitions visiting schema property types))
        | some declaration => refuse (.unreadableType declaration property)
        | none =>
          if (schema.get? "properties").isSome then
            pure (.model (← readModel definitions visiting schema (some property)))
          else refuse (.untyped property)
      let nullable := ((schema.get? "nullable").bind Json.bool?).getD false
      return if nullable && !declared.isOptional then declared.optional else declared
termination_by (budget definitions visiting, sizeOf schema, 3, 0)
decreasing_by
  · exact Prod.Lex.left _ _ (budget_lt _h)
  · exact Prod.Lex.right _ (Prod.Lex.left _ _ (sizeOf_of_variants? _h))
  · exact Prod.Lex.right _ (Prod.Lex.right _ (Prod.Lex.left _ _ (by omega)))
  · exact Prod.Lex.right _ (Prod.Lex.right _ (Prod.Lex.left _ _ (by omega)))
  · exact Prod.Lex.right _ (Prod.Lex.right _ (Prod.Lex.left _ _ (by omega)))

/-- The types of the variants, in order. -/
def readVariants (definitions : Option (Ordered Json)) (visiting : List String) (property : String)
    (variants : List Json) : Reading (List DeclaredType) := do
  match variants with
  | [] => return []
  | variant :: rest =>
    let declared ← readType definitions visiting variant property
    return declared :: (← readVariants definitions visiting property rest)
termination_by (budget definitions visiting, sizeOf variants, 0, 0)

/-- The types that a list of names gives a schema, in order. -/
def readTypes (definitions : Option (Ordered Json)) (visiting : List String) (schema : Json)
    (property : String) (types : List Json) : Reading (List DeclaredType) := do
  match types with
  | [] => return []
  | .text type :: rest =>
    let declared ← readNamed definitions visiting schema property type
    return declared :: (← readTypes definitions visiting schema property rest)
  | _ :: _ => refuse (.unnamedType property)
termination_by (budget definitions visiting, sizeOf schema, 2, types.length)

/-- The type that a name gives a schema. -/
def readNamed (definitions : Option (Ordered Json)) (visiting : List String) (schema : Json)
    (property type : String) : Reading DeclaredType := do
  match type with
  | "string" => textType schema property
  | "integer" => wholeType schema property
  | "number" => numberType schema
  | "boolean" => return .scalar .bool
  | "array" =>
    match _h : schema.get? "items" with
    | none => refuse (.noItems property)
    | some items => return .list (← readType definitions visiting items property)
  | "object" => return .model (← readModel definitions visiting schema (some property))
  | "null" => return .absent
  | other => refuse (.unknownType other property)
termination_by (budget definitions visiting, sizeOf schema, 1, 0)
decreasing_by
  · exact Prod.Lex.right _ (Prod.Lex.left _ _ (Json.sizeOf_of_get? _h))
  · exact Prod.Lex.right _ (Prod.Lex.right _ (Prod.Lex.left _ _ (by omega)))

end

/-- The record model of a document, read from its top schema. -/
def ofDocument (document : Json) : Except Error RecordModel :=
  match (readModel (definitions? document) [] document none).run [] with
  | .ok (model, _) => .ok model
  | .error fault => .error fault.error

/-- The record model of a written document. -/
def ofText (text : String) : Except Error RecordModel :=
  match Json.parse? text with
  | some document => ofDocument document
  | none => .error (.ofKind .type "Invalid schema document:")

end Schema

end Formwork
