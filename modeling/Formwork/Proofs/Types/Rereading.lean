-- Reading schemas without remembering anything. Here a definition is read anew at every reference to
-- it, and only the definitions that are being read are known. Such a reading is stopped after a
-- number of steps, and has no result then.
import Formwork.Proofs.Types.Forms

namespace Formwork.Schema

/-! ## Attempts -/

/-- A reading that remembers nothing, and may be stopped before it has a result. -/
abbrev Attempt := ExceptT SchemaFault Option

namespace Attempt

/-- Stops a reading. -/
def stopped {α : Type} : Attempt α := .mk none

/-- Ends a reading in a fault or a result. -/
def ended {α : Type} (outcome : Except SchemaFault α) : Attempt α := .mk (some outcome)

/-- Ends a reading with a refusal. -/
def refuse {α : Type} (refusal : SchemaRefusal) : Attempt α := ended (.error ⟨refusal, none⟩)

/-- What a reading comes to that has nothing to remember. -/
def ofReading {α : Type} (reading : Reading α) : Attempt α := ended (Prod.fst <$> reading.run [])

/-- Names the place of whatever fault reading ends in. -/
def within {α : Type} (place : String) (attempt : Attempt α) : Attempt α :=
  .mk (attempt.run.map (Except.mapError (SchemaFault.placed place)))

end Attempt

mutual

/-- Reads the record model of a schema. -/
def rereadModel (definitions : Option (Ordered Json)) :
    Nat → List String → Json → Option String → Attempt RecordModel
  | 0, _, _, _ => .stopped
  | fuel + 1, visiting, schema, fallback => do
    if schema.members?.isNone then Attempt.refuse (.notObject (fallback.getD "document"))
    match (text? schema "title").or fallback with
    | none => Attempt.refuse .untitled
    | some name =>
      match object? schema "properties" with
      | none => Attempt.refuse (.noProperties name)
      | some properties =>
        let required := ((array? schema "required").getD []).filterMap Json.text?
        let fields ← rereadProperties definitions fuel visiting name required properties
        return ⟨name, .schema, fields⟩

/-- Reads the fields of the properties. -/
def rereadProperties (definitions : Option (Ordered Json)) :
    Nat → List String → String → List String → List (String × Json) → Attempt (List ModelField)
  | 0, _, _, _, _ => .stopped
  | _ + 1, _, _, _, [] => return []
  | fuel + 1, visiting, model, required, (name, schema) :: rest => do
    let declared ← Attempt.within (model ++ "." ++ name)
      (rereadType definitions fuel visiting schema name)
    let isRequired := required.contains name
    let field : ModelField :=
      { name
        declared := if !isRequired && !declared.isOptional then declared.optional
          else declared
        required := isRequired
        description := text? schema "description" }
    return field :: (← rereadProperties definitions fuel visiting model required rest)

/-- Reads the type that a schema declares for a property. A reference has its definition read, unless
that is being read already. -/
def rereadType (definitions : Option (Ordered Json)) :
    Nat → List String → Json → String → Attempt DeclaredType
  | 0, _, _, _ => .stopped
  | fuel + 1, visiting, schema, property => do
    if schema.members?.isNone then Attempt.refuse (.notObject property)
    match text? schema "$ref" with
    | some reference =>
      match referenced? reference with
      | none => Attempt.refuse (.foreignReference reference)
      | some name =>
        match definition definitions visiting reference name with
        | .error refusal => Attempt.refuse refusal
        | .ok target =>
          return .model (← rereadModel definitions fuel (name :: visiting) target (some name))
    | none =>
      match variants? schema with
      | some variants => return oneOf (← rereadVariants definitions fuel visiting property variants)
      | none =>
        let declared ← match schema.get? "type" with
          | some (.text type) => rereadNamed definitions fuel visiting schema property type
          | some (.array []) => Attempt.refuse (.noTypes property)
          | some (.array types) =>
            pure (oneOf (← rereadTypes definitions fuel visiting schema property types))
          | some declaration => Attempt.refuse (.unreadableType declaration property)
          | none =>
            if (schema.get? "properties").isSome then
              pure (.model (← rereadModel definitions fuel visiting schema (some property)))
            else Attempt.refuse (.untyped property)
        let nullable := ((schema.get? "nullable").bind Json.bool?).getD false
        return if nullable && !declared.isOptional then declared.optional else declared

/-- Reads the types of the variants. -/
def rereadVariants (definitions : Option (Ordered Json)) :
    Nat → List String → String → List Json → Attempt (List DeclaredType)
  | 0, _, _, _ => .stopped
  | _ + 1, _, _, [] => return []
  | fuel + 1, visiting, property, variant :: rest => do
    let declared ← rereadType definitions fuel visiting variant property
    return declared :: (← rereadVariants definitions fuel visiting property rest)

/-- Reads the types that a list of names gives a schema. -/
def rereadTypes (definitions : Option (Ordered Json)) :
    Nat → List String → Json → String → List Json → Attempt (List DeclaredType)
  | 0, _, _, _, _ => .stopped
  | _ + 1, _, _, _, [] => return []
  | fuel + 1, visiting, schema, property, .text type :: rest => do
    let declared ← rereadNamed definitions fuel visiting schema property type
    return declared :: (← rereadTypes definitions fuel visiting schema property rest)
  | _ + 1, _, _, property, _ :: _ => Attempt.refuse (.unnamedType property)

/-- Reads the type that a name gives a schema. -/
def rereadNamed (definitions : Option (Ordered Json)) :
    Nat → List String → Json → String → String → Attempt DeclaredType
  | 0, _, _, _, _ => .stopped
  | fuel + 1, visiting, schema, property, type => do
    match type with
    | "string" => .ofReading (textType schema property)
    | "integer" => .ofReading (wholeType schema property)
    | "number" => .ofReading (numberType schema)
    | "boolean" => return .scalar .bool
    | "array" =>
      match schema.get? "items" with
      | none => Attempt.refuse (.noItems property)
      | some items => return .list (← rereadType definitions fuel visiting items property)
    | "object" => return .model (← rereadModel definitions fuel visiting schema (some property))
    | "null" => return .absent
    | other => Attempt.refuse (.unknownType other property)

end

/-- The record model of a document, read anew at every reference, as far as so many steps lead. -/
def rereadDocument (fuel : Nat) (document : Json) : Option (Except Error RecordModel) :=
  (rereadModel (definitions? document) fuel [] document none).run.map
    (Except.mapError SchemaFault.error)

/-- The type that a reference gives where its definition is read anew. -/
def rereadReference (definitions : Option (Ordered Json)) (fuel : Nat) (visiting : List String)
    (reference : String) : Attempt DeclaredType :=
  match referenced? reference with
  | none => .refuse (.foreignReference reference)
  | some name =>
    match definition definitions visiting reference name with
    | .error refusal => .refuse refusal
    | .ok target => do
      return .model (← rereadModel definitions fuel (name :: visiting) target (some name))

section Forms

variable {definitions : Option (Ordered Json)} {fuel : Nat} {visiting : List String} {schema : Json}
  {property type : String}

/-- A record model is read anew by the same form. -/
theorem rereadModel_eq {fallback : Option String} :
    rereadModel definitions (fuel + 1) visiting schema fallback =
      match modelForm schema fallback with
      | .error refusal => .refuse refusal
      | .ok (name, properties) => do
        return ⟨name, .schema,
          ← rereadProperties definitions fuel visiting name (requiredNames schema) properties⟩ := by
  rw [rereadModel]
  unfold modelForm
  cases schema.members?.isNone with
  | true => rfl
  | false =>
    rcases (text? schema "title").or fallback with _ | name
    · rfl
    · rcases object? schema "properties" with _ | properties <;> rfl

/-- The fields of properties are read anew one after the other. -/
theorem rereadProperties_cons {model name : String} {required : List String}
    {rest : List (String × Json)} :
    rereadProperties definitions (fuel + 1) visiting model required ((name, schema) :: rest) = do
      let declared ← Attempt.within (model ++ "." ++ name)
        (rereadType definitions fuel visiting schema name)
      return fieldOf required name schema declared ::
        (← rereadProperties definitions fuel visiting model required rest) :=
  rfl

/-- A type is read anew by the same form. -/
theorem rereadType_eq : rereadType definitions (fuel + 1) visiting schema property =
    match typeForm schema property with
    | .error refusal => .refuse refusal
    | .ok (.reference reference) => rereadReference definitions fuel visiting reference
    | .ok (.variants variants) => do
      return oneOf (← rereadVariants definitions fuel visiting property variants)
    | .ok (.named type) => do
      return nullable schema (← rereadNamed definitions fuel visiting schema property type)
    | .ok (.listed types) => do
      return nullable schema (oneOf (← rereadTypes definitions fuel visiting schema property types))
    | .ok .untyped => do
      return nullable schema (.model (← rereadModel definitions fuel visiting schema property)) := by
  rw [rereadType]
  unfold typeForm
  cases schema.members?.isNone with
  | true => rfl
  | false =>
    unfold form? unreadable
    rcases text? schema "$ref" with _ | reference
    · rcases variants? schema with _ | variants
      · rcases schema.get? "type" with _ | declaration
        · cases (schema.get? "properties").isSome <;> rfl
        · cases declaration with
          | array types => cases types <;> rfl
          | _ => rfl
      · rfl
    · rfl

/-- The type of a name is read anew by the same form. -/
theorem rereadNamed_eq : rereadNamed definitions (fuel + 1) visiting schema property type =
    match namedForm schema property type with
    | .error refusal => .refuse refusal
    | .ok (.leaf reading) => .ofReading reading
    | .ok (.items items) => do return .list (← rereadType definitions fuel visiting items property)
    | .ok .record => do
      return .model (← rereadModel definitions fuel visiting schema property) := by
  unfold rereadNamed
  split
  · rfl
  · rfl
  · rfl
  · rfl
  · unfold namedForm
    rcases schema.get? "items" with _ | items <;> rfl
  · rfl
  · rfl
  · rw [namedForm_of_other (by simp_all)]

end Forms

/-! ## Settling -/

/-- With enough steps, the reading always has this outcome. -/
def Settles {α : Type} (attempt : Nat → Attempt α) (outcome : Except SchemaFault α) : Prop :=
  ∃ depth, ∀ fuel, depth ≤ fuel → (attempt fuel).run = some outcome

namespace Settles

variable {α β : Type} {attempt attempt' : Nat → Attempt α} {outcome : Except SchemaFault α}

theorem ended (outcome : Except SchemaFault α) : Settles (fun _ => .ended outcome) outcome :=
  ⟨0, fun _ _ => rfl⟩

theorem pure (a : α) : Settles (fun _ => Pure.pure a) (.ok a) := ended _

/-- One step more is no matter. -/
theorem of_succ (hstep : ∀ fuel, attempt' (fuel + 1) = attempt fuel) (h : Settles attempt outcome) :
    Settles attempt' outcome := by
  obtain ⟨depth, h⟩ := h
  refine ⟨depth + 1, fun fuel hfuel => ?_⟩
  obtain ⟨fuel, rfl⟩ := Nat.exists_eq_add_of_lt (Nat.lt_of_succ_le hfuel)
  rw [hstep]
  exact h _ (Nat.le_add_right depth fuel)

theorem bind {next : Nat → α → Attempt β} {a : α} {outcome : Except SchemaFault β}
    (h : Settles attempt (.ok a)) (hnext : Settles (next · a) outcome) :
    Settles (fun fuel => attempt fuel >>= next fuel) outcome := by
  obtain ⟨depth, h⟩ := h
  obtain ⟨depth', hnext⟩ := hnext
  refine ⟨max depth depth', fun fuel hfuel => ?_⟩
  rw [ExceptT.run_bind, h fuel (Nat.le_trans (Nat.le_max_left ..) hfuel)]
  exact hnext fuel (Nat.le_trans (Nat.le_max_right ..) hfuel)

theorem bind_error {next : Nat → α → Attempt β} {fault : SchemaFault}
    (h : Settles attempt (.error fault)) :
    Settles (fun fuel => attempt fuel >>= next fuel) (.error fault) := by
  obtain ⟨depth, h⟩ := h
  refine ⟨depth, fun fuel hfuel => ?_⟩
  rw [ExceptT.run_bind, h fuel hfuel]
  rfl

theorem map (f : α → β) (h : Settles attempt outcome) :
    Settles (fun fuel => do return f (← attempt fuel)) (outcome.map f) := by
  cases outcome with
  | error fault => exact h.bind_error
  | ok a =>
    refine h.bind ?_
    exact .pure (f a)

theorem within (place : String) (h : Settles attempt outcome) :
    Settles (fun fuel => (attempt fuel).within place)
      (outcome.mapError (SchemaFault.placed place)) := by
  obtain ⟨depth, h⟩ := h
  refine ⟨depth, fun fuel hfuel => ?_⟩
  show (attempt fuel).run.map _ = _
  rw [h fuel hfuel]
  rfl

end Settles

/-! ## What is remembered -/

/-- None of the definitions that are being read is remembered. -/
def Apart (visiting : List String) (remembered : Ordered RecordModel) : Prop :=
  ∀ name ∈ visiting, remembered.find? name = none

theorem apart_cons_iff {visiting : List String} {remembered : Ordered RecordModel} {name : String} :
    Apart (name :: visiting) remembered ↔ remembered.find? name = none ∧ Apart visiting remembered :=
  List.forall_mem_cons

theorem apart_put_iff {visiting : List String} {remembered : Ordered RecordModel} {name : String}
    {model : RecordModel} :
    Apart visiting (remembered.put name model) ↔ name ∉ visiting ∧ Apart visiting remembered := by
  simp only [Apart, Ordered.find?_put]
  constructor
  · intro h
    refine ⟨fun hname => (by simpa using h name hname), fun other hother => ?_⟩
    have hnone := h other hother
    split at hnone
    · cases hnone
    · exact hnone
  · rintro ⟨hname, h⟩ other hother
    rw [if_neg (by rintro rfl; exact hname hother)]
    exact h other hother

/-- Each model that is remembered is what its definition gives anew, while any definitions are being
read that are not remembered. -/
def Remembers (definitions : Option (Ordered Json)) (remembered : Ordered RecordModel) : Prop :=
  ∀ name model, remembered.find? name = some model → ∃ target,
    definitions.bind (·.find? name) = some target ∧
      ∀ visiting, Apart visiting remembered →
        Settles (fun fuel => rereadModel definitions fuel (name :: visiting) target (some name))
          (.ok model)

/-- What holds after a reading with a result: what is remembered is right and still apart from what
is being read, nothing was forgotten, and a reading that remembers nothing has the same result, while
any definitions are being read that are not remembered. -/
structure Rereading {α : Type} (definitions : Option (Ordered Json)) (visiting : List String)
    (attempt : List String → Nat → Attempt α) (remembered : Ordered RecordModel) (a : α)
    (remembered' : Ordered RecordModel) : Prop where
  remembers : Remembers definitions remembered'
  apart : Apart visiting remembered'
  grows : ∀ others, Apart others remembered' → Apart others remembered
  settles : ∀ others, Apart others remembered' → Settles (attempt others) (.ok a)

/-- A reading that remembers nothing has the same outcome as one that does. -/
def SameOutcome {α : Type} (definitions : Option (Ordered Json)) (visiting : List String)
    (attempt : List String → Nat → Attempt α) (remembered : Ordered RecordModel) :
    Except SchemaFault (α × Ordered RecordModel) → Prop
  | .ok (a, remembered') => Rereading definitions visiting attempt remembered a remembered'
  | .error fault => Settles (attempt visiting) (.error fault)

/-- Whatever is remembered, the reading has the same outcome as one that remembers nothing. -/
def Rereads {α : Type} (definitions : Option (Ordered Json)) (visiting : List String)
    (reading : Reading α) (attempt : List String → Nat → Attempt α) : Prop :=
  ∀ remembered, Remembers definitions remembered → Apart visiting remembered →
    SameOutcome definitions visiting attempt remembered (reading.run remembered)

section Rules

variable {definitions : Option (Ordered Json)} {visiting : List String} {α β : Type}
  {reading : Reading α} {attempt attempt' : List String → Nat → Attempt α}

/-- One step more is no matter. -/
theorem Rereads.of_succ (hstep : ∀ others fuel, attempt' others (fuel + 1) = attempt others fuel)
    (h : Rereads definitions visiting reading attempt) :
    Rereads definitions visiting reading attempt' := by
  intro remembered hremembers hapart
  have h := h remembered hremembers hapart
  rcases hrun : reading.run remembered with fault | ⟨a, remembered'⟩ <;> rw [hrun] at h
  · exact h.of_succ (hstep visiting)
  · exact ⟨h.remembers, h.apart, h.grows, fun others hothers =>
      (h.settles others hothers).of_succ (hstep others)⟩

/-- A reading that does not look at what is remembered comes to the same. -/
theorem rereads_ended {outcome : Except SchemaFault α}
    (h : ∀ remembered, reading.run remembered = outcome.map fun a => (a, remembered)) :
    Rereads definitions visiting reading fun _ _ => .ended outcome := by
  intro remembered hremembers hapart
  rw [h]
  rcases outcome with fault | a
  · exact .ended _
  · exact ⟨hremembers, hapart, fun _ hothers => hothers, fun _ _ => .ended _⟩

theorem rereads_pure (a : α) :
    Rereads definitions visiting (pure a) fun _ _ => pure a := by
  show Rereads definitions visiting (pure a) fun _ _ => .ended (.ok a)
  exact rereads_ended fun _ => rfl

theorem rereads_refuse (refusal : SchemaRefusal) :
    Rereads definitions visiting (refuse refusal : Reading α) fun _ _ => .refuse refusal :=
  rereads_ended fun _ => rfl

theorem Rereads.bind {next : α → Reading β} {again : List String → Nat → α → Attempt β}
    (h : Rereads definitions visiting reading attempt)
    (hnext : ∀ a, Rereads definitions visiting (next a) fun others fuel => again others fuel a) :
    Rereads definitions visiting (reading >>= next)
      fun others fuel => attempt others fuel >>= again others fuel := by
  intro remembered hremembers hapart
  have h := h remembered hremembers hapart
  rw [StateT.run_bind]
  rcases hrun : reading.run remembered with fault | ⟨a, remembered'⟩ <;> rw [hrun] at h
  · exact h.bind_error
  have hrest := hnext a remembered' h.remembers h.apart
  show SameOutcome _ _ _ _ ((next a).run remembered')
  rcases hrun' : (next a).run remembered' with fault | ⟨b, remembered''⟩ <;> rw [hrun'] at hrest
  · exact (h.settles visiting h.apart).bind hrest
  · exact ⟨hrest.remembers, hrest.apart, fun others hothers => h.grows _ (hrest.grows _ hothers),
      fun others hothers => (h.settles _ (hrest.grows _ hothers)).bind (hrest.settles _ hothers)⟩

theorem Rereads.map (f : α → β) (h : Rereads definitions visiting reading attempt) :
    Rereads definitions visiting (do return f (← reading))
      fun others fuel => do return f (← attempt others fuel) :=
  h.bind fun a => rereads_pure (f a)

theorem Rereads.within (place : String) (h : Rereads definitions visiting reading attempt) :
    Rereads definitions visiting (Schema.within place reading)
      fun others fuel => (attempt others fuel).within place := by
  intro remembered hremembers hapart
  have h := h remembered hremembers hapart
  show SameOutcome _ _ _ _ ((reading.run remembered).mapError _)
  rcases hrun : reading.run remembered with fault | ⟨a, remembered'⟩ <;> rw [hrun] at h
  · exact h.within place
  · exact ⟨h.remembers, h.apart, h.grows, fun others hothers => (h.settles _ hothers).within place⟩

end Rules

/-! ## References -/

section References

variable {definitions : Option (Ordered Json)} {visiting : List String} {reference name : String}
  {target : Json}

theorem definition_ok_iff : definition definitions visiting reference name = .ok target ↔
    name ∉ visiting ∧ definitions.bind (·.find? name) = some target := by
  unfold definition
  split
  · rename_i hvisiting
    exact iff_of_false nofun fun h => h.1 (List.contains_iff_mem.1 hvisiting)
  · rename_i hvisiting
    rw [List.contains_iff_mem] at hvisiting
    rcases definitions with _ | members
    · exact iff_of_false nofun fun h => nomatch h.2
    · simp only [Option.bind_some]
      split
      · rename_i hfound
        simp [hvisiting, hfound]
      · rename_i hfound
        simp [hfound]

/-- A reference gives what is remembered under its name. If there is nothing, the definition is read
and then remembered. -/
theorem run_readReference (hname : referenced? reference = some name)
    (remembered : Ordered RecordModel) :
    (readReference definitions visiting reference).run remembered =
      match remembered.find? name with
      | some model => .ok (.model model, remembered)
      | none =>
        match definition definitions visiting reference name with
        | .error refusal => .error ⟨refusal, none⟩
        | .ok target =>
          ((readModel definitions (name :: visiting) target (some name)).run remembered).map
            fun (model, remembered') => (.model model, remembered'.put name model) := by
  unfold readReference
  simp only [hname]
  rw [StateT.run_bind]
  show StateT.run (match remembered.find? name with | some _ => _ | none => _) remembered = _
  rcases remembered.find? name with _ | model
  · rcases definition definitions visiting reference name with refusal | target
    · rfl
    · simp only [StateT.run_bind]
      rcases (readModel definitions (name :: visiting) _ (some name)).run remembered with _ | _ <;> rfl
  · rfl

/-- Reading a reference anew settles if reading its definition does. -/
theorem settles_reference {outcome : Except SchemaFault RecordModel}
    (hname : referenced? reference = some name)
    (hdefinition : definition definitions visiting reference name = .ok target)
    (h : Settles (fun fuel => rereadModel definitions fuel (name :: visiting) target (some name))
      outcome) :
    Settles (fun fuel => rereadReference definitions fuel visiting reference)
      (outcome.map .model) := by
  unfold rereadReference
  simp only [hname, hdefinition]
  exact h.map DeclaredType.model

/-- A model that is put in among those that are remembered is remembered, if that is what its
definition gives anew. -/
theorem Remembers.put {remembered : Ordered RecordModel} {model : RecordModel}
    (h : Remembers definitions remembered) (hfound : definitions.bind (·.find? name) = some target)
    (hnew : remembered.find? name = none)
    (hmodel : ∀ others, Apart (name :: others) remembered →
      Settles (fun fuel => rereadModel definitions fuel (name :: others) target (some name))
        (.ok model)) :
    Remembers definitions (remembered.put name model) := by
  intro other model' hother
  rw [Ordered.find?_put] at hother
  split at hother
  · rename_i heq
    obtain rfl := Option.some.inj hother
    rw [heq]
    refine ⟨target, hfound, fun others hothers => hmodel others ?_⟩
    exact apart_cons_iff.2 ⟨hnew, (apart_put_iff.1 hothers).2⟩
  · obtain ⟨target', hfound', hsettles⟩ := h other model' hother
    exact ⟨target', hfound', fun others hothers =>
      hsettles others (apart_put_iff.1 hothers).2⟩

/-- A reference comes to the same, if its definition does while it is being read. -/
theorem rereads_reference
    (h : ∀ name target, definition definitions visiting reference name = .ok target →
      Rereads definitions (name :: visiting)
        (readModel definitions (name :: visiting) target (some name))
        fun others fuel => rereadModel definitions fuel others target (some name)) :
    Rereads definitions visiting (readReference definitions visiting reference)
      fun others fuel => rereadReference definitions fuel others reference := by
  rcases hname : referenced? reference with _ | name
  · unfold readReference rereadReference
    simp only [hname]
    exact rereads_refuse _
  intro remembered hremembers hapart
  rw [run_readReference hname]
  rcases hfound : remembered.find? name with _ | model
  · rcases hdefinition : definition definitions visiting reference name with refusal | target
    · show Settles (fun fuel => rereadReference definitions fuel visiting reference) _
      unfold rereadReference
      simp only [hname, hdefinition]
      exact .ended _
    have hmodel := h name target hdefinition remembered hremembers
      (apart_cons_iff.2 ⟨hfound, hapart⟩)
    show SameOutcome _ _ _ _ (Except.map _ _)
    rcases hrun : (readModel definitions (name :: visiting) target (some name)).run remembered with
      fault | ⟨model, remembered'⟩ <;> rw [hrun] at hmodel
    · exact settles_reference hname hdefinition hmodel
    -- From here on the definition is remembered, and it is not read inside itself.
    obtain ⟨hvisiting, htarget⟩ := definition_ok_iff.1 hdefinition
    obtain ⟨hnew, hapart'⟩ := apart_cons_iff.1 hmodel.apart
    refine ⟨hmodel.remembers.put htarget hnew fun others => hmodel.settles _,
      apart_put_iff.2 ⟨hvisiting, hapart'⟩, fun others hothers => ?_, fun others hothers => ?_⟩
    · have hothers' := apart_cons_iff.2 ⟨hnew, (apart_put_iff.1 hothers).2⟩
      exact (apart_cons_iff.1 (hmodel.grows (name :: others) hothers')).2
    · obtain ⟨hmem, hothers⟩ := apart_put_iff.1 hothers
      exact settles_reference hname (definition_ok_iff.2 ⟨hmem, htarget⟩)
        (hmodel.settles (name :: others) (apart_cons_iff.2 ⟨hnew, hothers⟩))
  · -- What is remembered is not being read, and its definition gives it anew.
    obtain ⟨target, hfound', hsettles⟩ := hremembers name model hfound
    refine ⟨hremembers, hapart, fun _ hothers => hothers, fun others hothers => ?_⟩
    refine settles_reference hname (definition_ok_iff.2 ⟨fun hmem => ?_, hfound'⟩)
      (hsettles others hothers)
    exact nomatch hfound.symm.trans (hothers name hmem)

end References

/-! ## The whole reading -/

theorem rereads_leaf {definitions : Option (Ordered Json)} {visiting : List String} {schema : Json}
    {property type : String} {reading : Reading DeclaredType}
    (hleaf : leaf? schema property type = some reading) :
    Rereads definitions visiting reading fun _ _ => .ofReading reading :=
  rereads_ended (run_leaf hleaf)

mutual

/-- The record model of a schema comes to the same. -/
theorem rereads_model (definitions : Option (Ordered Json)) (visiting : List String) (schema : Json)
    (fallback : Option String) :
    Rereads definitions visiting (readModel definitions visiting schema fallback)
      fun others fuel => rereadModel definitions fuel others schema fallback := by
  rw [readModel_eq]
  refine .of_succ (fun _ _ => rereadModel_eq) ?_
  rcases hform : modelForm schema fallback with refusal | ⟨name, properties⟩
  · exact rereads_refuse refusal
  · have hproperties := (modelForm_ok hform).2
    exact (rereads_properties definitions visiting name (requiredNames schema) properties).map _
termination_by (budget definitions visiting, sizeOf schema, 0, 0)
decreasing_by
  exact Prod.Lex.right _ (Prod.Lex.left _ _ (sizeOf_of_object? ‹_›))

/-- The fields of properties come to the same. -/
theorem rereads_properties (definitions : Option (Ordered Json)) (visiting : List String)
    (model : String) (required : List String) (properties : List (String × Json)) :
    Rereads definitions visiting (readProperties definitions visiting model required properties)
      fun others fuel => rereadProperties definitions fuel others model required properties := by
  cases properties with
  | nil =>
    rw [readProperties]
    exact .of_succ (fun _ _ => by rw [rereadProperties]) (rereads_pure _)
  | cons property rest =>
    obtain ⟨name, schema⟩ := property
    rw [readProperties_cons]
    refine .of_succ (fun _ _ => rereadProperties_cons) ?_
    refine ((rereads_type definitions visiting schema name).within _).bind fun declared => ?_
    exact (rereads_properties definitions visiting model required rest).map _
termination_by (budget definitions visiting, sizeOf properties, 0, 0)

/-- The type of a schema comes to the same. -/
theorem rereads_type (definitions : Option (Ordered Json)) (visiting : List String) (schema : Json)
    (property : String) :
    Rereads definitions visiting (readType definitions visiting schema property)
      fun others fuel => rereadType definitions fuel others schema property := by
  rw [readType_eq]
  refine .of_succ (fun _ _ => rereadType_eq) ?_
  rcases hform : typeForm schema property with
    refusal | (reference | variants | type | types | _)
  · exact rereads_refuse refusal
  · exact rereads_reference fun name target hdefinition =>
      rereads_model definitions (name :: visiting) target (some name)
  · have hvariants := (form?_keywords (typeForm_ok hform)).2
    exact (rereads_variants definitions visiting property variants).map oneOf
  · exact (rereads_named definitions visiting schema property type).map (nullable schema)
  · exact (rereads_types definitions visiting schema property types).map _
  · exact (rereads_model definitions visiting schema (some property)).map _
termination_by (budget definitions visiting, sizeOf schema, 3, 0)
decreasing_by
  · exact Prod.Lex.left _ _ (budget_lt ‹_›)
  · exact Prod.Lex.right _ (Prod.Lex.left _ _ (sizeOf_of_variants? ‹_›))
  · exact Prod.Lex.right _ (Prod.Lex.right _ (Prod.Lex.left _ _ (by omega)))
  · exact Prod.Lex.right _ (Prod.Lex.right _ (Prod.Lex.left _ _ (by omega)))
  · exact Prod.Lex.right _ (Prod.Lex.right _ (Prod.Lex.left _ _ (by omega)))

/-- The types of variants come to the same. -/
theorem rereads_variants (definitions : Option (Ordered Json)) (visiting : List String)
    (property : String) (variants : List Json) :
    Rereads definitions visiting (readVariants definitions visiting property variants)
      fun others fuel => rereadVariants definitions fuel others property variants := by
  cases variants with
  | nil =>
    rw [readVariants]
    exact .of_succ (fun _ _ => by rw [rereadVariants]) (rereads_pure _)
  | cons variant rest =>
    rw [readVariants]
    refine .of_succ (fun _ _ => by rw [rereadVariants]) ?_
    refine (rereads_type definitions visiting variant property).bind fun declared => ?_
    exact (rereads_variants definitions visiting property rest).map _
termination_by (budget definitions visiting, sizeOf variants, 0, 0)

/-- The types of a list of names come to the same. -/
theorem rereads_types (definitions : Option (Ordered Json)) (visiting : List String) (schema : Json)
    (property : String) (types : List Json) :
    Rereads definitions visiting (readTypes definitions visiting schema property types)
      fun others fuel => rereadTypes definitions fuel others schema property types := by
  cases types with
  | nil =>
    rw [readTypes]
    exact .of_succ (fun _ _ => by rw [rereadTypes]) (rereads_pure _)
  | cons type rest =>
    cases type with
    | text type =>
      rw [readTypes]
      refine .of_succ (fun _ _ => by rw [rereadTypes]) ?_
      refine (rereads_named definitions visiting schema property type).bind fun declared => ?_
      exact (rereads_types definitions visiting schema property rest).map _
    | _ =>
      rw [readTypes]
      · exact .of_succ (fun _ _ => by rw [rereadTypes]; nofun) (rereads_refuse _)
      · nofun
termination_by (budget definitions visiting, sizeOf schema, 2, types.length)

/-- The type that a name gives a schema comes to the same. -/
theorem rereads_named (definitions : Option (Ordered Json)) (visiting : List String) (schema : Json)
    (property type : String) :
    Rereads definitions visiting (readNamed definitions visiting schema property type)
      fun others fuel => rereadNamed definitions fuel others schema property type := by
  rw [readNamed_eq]
  refine .of_succ (fun _ _ => rereadNamed_eq) ?_
  rcases hform : namedForm schema property type with refusal | (reading | items | _)
  · exact rereads_refuse refusal
  · exact rereads_leaf (namedForm_ok hform)
  · have hitems := (namedForm_ok hform).2
    exact (rereads_type definitions visiting items property).map DeclaredType.list
  · exact (rereads_model definitions visiting schema (some property)).map DeclaredType.model
termination_by (budget definitions visiting, sizeOf schema, 1, 0)
decreasing_by
  · exact Prod.Lex.right _ (Prod.Lex.left _ _ (Json.sizeOf_of_get? ‹_›))
  · exact Prod.Lex.right _ (Prod.Lex.right _ (Prod.Lex.left _ _ (by omega)))

end

/-- A document that is read anew at every reference gives what it gives where definitions are
remembered, and that after finitely many steps. -/
theorem rereadDocument_settles (document : Json) :
    ∃ depth, ∀ fuel, depth ≤ fuel → rereadDocument fuel document = some (ofDocument document) := by
  have h := rereads_model (definitions? document) [] document none [] (fun _ _ h => nomatch h)
    (List.forall_mem_nil _)
  unfold ofDocument rereadDocument
  rcases hrun : (readModel (definitions? document) [] document none).run [] with
    fault | ⟨model, remembered⟩ <;> rw [hrun] at h
  · obtain ⟨depth, h⟩ := h
    exact ⟨depth, fun fuel hfuel => by rw [h fuel hfuel]; rfl⟩
  · obtain ⟨depth, h⟩ := h.settles [] (List.forall_mem_nil _)
    exact ⟨depth, fun fuel hfuel => by rw [h fuel hfuel]; rfl⟩

end Formwork.Schema
