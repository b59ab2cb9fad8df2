-- Values of a type, and what their attributes are. Setup extracts the shape of an attribute from
-- the record model; reading takes the attribute of the record. Both agree on values that conform.
import Formwork.Expression.Read
import Formwork.Identifier
import Formwork.Types.Descriptor

namespace Formwork

/-! ## Values of a type -/

/-- The value is one of the declared type. -/
inductive Conforms : Value → DeclaredType → Prop where
  | scalar {v : Value} {s : ScalarType} : s.accepts v → Conforms v (.plain (.scalar s))
  | enum {v : Value} {e : EnumType} : e.containsValue v → Conforms v (.plain (.enum e))
  /-- Every declared field is there, with a value that conforms. -/
  | model {fields : Ordered Value} {m : RecordModel} :
    (∀ field ∈ m.fields, (fields.find? field.name).isSome) →
    (∀ field ∈ m.fields, ∀ v, fields.find? field.name = some v → Conforms v field.declared) →
    Conforms (.record fields) (.plain (.model m))
  | list {items : List Value} {item : DeclaredType} :
    (∀ v ∈ items, Conforms v item) → Conforms (.list items) (.list item)
  | union {v : Value} {members : List DeclaredType} {member : DeclaredType} :
    member ∈ members → Conforms v member → Conforms v (.union members)
  | absent : Conforms .null .absent

/-! ## Record models inside a type -/

/-- The record model is the type or is reached from it through items, members and fields. -/
inductive Reaches : DeclaredType → RecordModel → Prop where
  | here (m : RecordModel) : Reaches (.plain (.model m)) m
  | field {m r : RecordModel} {field : ModelField} :
    field ∈ m.fields → Reaches field.declared r → Reaches (.plain (.model m)) r
  | list {item : DeclaredType} {r : RecordModel} : Reaches item r → Reaches (.list item) r
  | union {members : List DeclaredType} {member : DeclaredType} {r : RecordModel} :
    member ∈ members → Reaches member r → Reaches (.union members) r

/-- The fields of all record models that the type reaches are named with identifiers. -/
def PlainType.WellNamed (p : PlainType) : Prop :=
  ∀ r, Reaches (.plain p) r → ∀ field ∈ r.fields, isIdentifier field.name

/-! ## Shapes -/

namespace DeclaredType

/-- What is left without the absent markers reaches nothing that was not reached before. -/
theorem reaches_of_withoutAbsent {a : DeclaredType} {r : RecordModel}
    (h : Reaches a.withoutAbsent.1 r) : Reaches a r := by
  cases a with
  | union members =>
    unfold withoutAbsent at h
    simp only at h
    split at h
    · have hfilter : ∀ member ∈ members.filter fun member => !member.isAbsent, member ∈ members :=
        fun member hm => (List.mem_filter.1 hm).1
      split at h
      · rename_i only heq
        exact .union (hfilter only (by rw [heq]; exact List.mem_singleton.2 rfl)) h
      · cases h with
        | union hm hr => exact .union (hfilter _ hm) hr
    · exact h
  | _ => exact h

theorem reaches_of_withoutList {a : DeclaredType} {r : RecordModel}
    (h : Reaches a.withoutList.1 r) : Reaches a r := by
  cases a with
  | list item => exact .list h
  | _ => exact h

/-- A shape keeps the declared type, and reaches what the type reaches. -/
theorem describe_ok {a : DeclaredType} {origin : Origin} {d : Descriptor}
    (h : a.describe origin = .ok d) :
    d.declared = a ∧ ∀ r, Reaches (.plain d.underlying) r → Reaches a r := by
  unfold describe at h
  simp only at h
  split at h
  · rename_i p heq
    cases h
    refine ⟨rfl, fun r hr => ?_⟩
    exact reaches_of_withoutAbsent (reaches_of_withoutList (heq ▸ hr))
  · cases h

/-- A type that is neither list nor optional is its underlying type. -/
theorem describe_single {a : DeclaredType} {origin : Origin} {d : Descriptor}
    (h : a.describe origin = .ok d) (hlist : d.isList = false) (hopt : d.isOptional = false) :
    d.declared = .plain d.underlying := by
  unfold describe at h
  simp only at h
  split at h
  · rename_i p heq
    cases h
    simp only at hlist hopt ⊢
    cases a with
    | plain q => simpa [withoutAbsent, withoutList] using heq
    | list item => simp [withoutAbsent, withoutList] at hlist
    | union members =>
      unfold withoutAbsent at heq hopt
      simp only at heq hopt
      split at hopt
      · split at hopt <;> cases hopt
      · rename_i hany
        simp [hany, withoutList] at heq
    | absent => simp [withoutAbsent, withoutList] at heq
  · cases h

end DeclaredType

namespace Descriptor

/-- The shape of an attribute is that of a field of the record model. -/
theorem attr_ok {d d' : Descriptor} {name : String} {limit : Nat}
    (h : d.attr name limit = .ok d') :
    ∃ (m : RecordModel) (field : ModelField), d.underlying = .model m ∧ field ∈ m.fields ∧
      field.name = name ∧ field.declared.describe m.form.origin = .ok d' := by
  unfold attr at h
  split at h
  · cases h
  · rename_i m hm
    split at h
    · rename_i field hf
      refine ⟨m, field, ?_, List.mem_of_find?_eq_some hf, ?_, h⟩
      · unfold model? PlainOf.model? at hm
        split at hm
        · rename_i m' heq
          cases hm
          exact heq
        · cases hm
      · simpa using List.find?_some hf
    · cases h

/-- The limit of suggestions plays no part in what the shape of an attribute is. -/
theorem attr_limit {d d' : Descriptor} {name : String} {limit : Nat} (other : Nat)
    (h : d.attr name limit = .ok d') : d.attr name other = .ok d' := by
  unfold attr at h ⊢
  split at h
  · cases h
  · split at h
    · exact h
    · cases h

/-- Names stay plain from a record model to its fields. -/
theorem wellNamed_attr {d d' : Descriptor} {name : String} {limit : Nat}
    (h : d.attr name limit = .ok d') (hd : PlainType.WellNamed d.underlying) :
    isIdentifier name ∧ PlainType.WellNamed d'.underlying := by
  obtain ⟨m, field, hm, hfield, rfl, hdesc⟩ := attr_ok h
  unfold PlainType.WellNamed at hd
  rw [hm] at hd
  refine ⟨hd m (.here m) field hfield, fun r hr => hd r ?_⟩
  exact .field hfield ((DeclaredType.describe_ok hdesc).2 r hr)

/-- The shape that attributes lead to, one after the other. -/
def along (d : Descriptor) (names : List String) : Except Error Descriptor :=
  names.foldlM (fun d name => d.attr name 0) d

theorem along_cons {d d' : Descriptor} {name : String} {names : List String} {limit : Nat}
    (h : d.attr name limit = .ok d') : d.along (name :: names) = d'.along names := by
  rw [along, List.foldlM_cons, attr_limit 0 h]
  rfl

end Descriptor

/-! ## Reading -/

/-- An attribute that the type of a value has can be read, and conforms to its own type. -/
theorem Conforms.getAttr {v : Value} {d d' : Descriptor} {name : String} {limit : Nat}
    (hv : Conforms v (.plain d.underlying)) (h : d.attr name limit = .ok d') :
    ∃ w, v.getAttr name = .ok w ∧ Conforms w d'.declared := by
  obtain ⟨m, field, hm, hfield, rfl, hdesc⟩ := Descriptor.attr_ok h
  rw [hm] at hv
  cases hv with
  | model hthere hconforms =>
    rename_i fields
    obtain ⟨w, hw⟩ := Option.isSome_iff_exists.1 (hthere field hfield)
    refine ⟨w, ?_, ?_⟩
    · simp only [Value.getAttr, hw]
    · rw [(DeclaredType.describe_ok hdesc).1]
      exact hconforms field hfield w hw

/-- Attributes that are not called can be read one after the other, as long as those before the last
are neither lists nor optional. -/
theorem Conforms.readAll (functions : Functions) :
    ∀ (hops : List Hop) (v : Value) (d last : Descriptor), Conforms v (.plain d.underlying) →
      (∀ hop ∈ hops, hop.call = none) → hops ≠ [] →
      d.along (hops.map Hop.name) = .ok last →
      (∀ before after between, hops.map Hop.name = before ++ after → before ≠ [] → after ≠ [] →
        d.along before = .ok between → between.isList = false ∧ between.isOptional = false) →
      ∃ w, Hop.readAll functions v hops = .ok w ∧ Conforms w last.declared
  | [], _, _, _, _, _, hne, _, _ => absurd rfl hne
  | hop :: rest, v, d, last, hv, hcalls, _, halong, hbetween => by
    rw [List.map_cons, Descriptor.along, List.foldlM_cons] at halong
    rcases hattr : d.attr hop.name 0 with e | d'
    · rw [hattr] at halong
      cases halong
    rw [hattr] at halong
    obtain ⟨w, hget, hw⟩ := hv.getAttr hattr
    have hread : Hop.read functions v hop = .ok w := by
      simp only [Hop.read, hget, hcalls hop List.mem_cons_self]
      rfl
    rw [Hop.readAll, List.foldlM_cons, hread]
    rcases rest with _ | ⟨next, rest⟩
    · cases halong
      exact ⟨w, rfl, hw⟩
    · -- What comes before the last attribute is a record, so reading goes on.
      have hsingle := hbetween [hop.name] ((next :: rest).map Hop.name) d' rfl (by simp) (by simp)
        (by rw [Descriptor.along_cons hattr]; rfl)
      obtain ⟨m, field, _, _, _, hdesc⟩ := Descriptor.attr_ok hattr
      rw [DeclaredType.describe_single hdesc hsingle.1 hsingle.2] at hw
      refine Conforms.readAll functions (next :: rest) w d' last hw
        (fun other ho => hcalls other (List.mem_cons_of_mem _ ho)) (by simp) halong ?_
      intro before after between heq hbefore hafter hd
      refine hbetween (hop.name :: before) after between ?_ (by simp) hafter ?_
      · rw [List.map_cons, heq]
        rfl
      · rw [Descriptor.along_cons hattr, hd]

end Formwork
