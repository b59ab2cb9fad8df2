-- Which types have a shape. A bare type is a plain one or a list of a plain one. A type has a shape if
-- it is bare, or a union of a single bare type and absent markers, at least one of them, in whatever
-- order. The shape says which of these the type is, and the type can be rebuilt from it; all other
-- types are refused.
import Formwork.Proofs.Types.Shapes

namespace Formwork

/-! ## The grammar -/

/-- The type is plain, or a list of a plain one. -/
inductive Bare : DeclaredType → PlainType → Bool → Prop where
  | plain (p : PlainType) : Bare (.plain p) p false
  | list (p : PlainType) : Bare (.list (.plain p)) p true

/-- The type is bare, or a union of one bare type and absent markers. -/
inductive Shaped : DeclaredType → PlainType → Bool → Bool → Prop where
  | present {t : DeclaredType} {p : PlainType} {isList : Bool} : Bare t p isList →
    Shaped t p isList false
  | optional {before after : List DeclaredType} {t : DeclaredType} {p : PlainType} {isList : Bool} :
    Bare t p isList → before ++ after ≠ [] → (∀ member ∈ before ++ after, member = .absent) →
    Shaped (.union (before ++ t :: after)) p isList true

/-- The type with a shape: optional layer outside, list layer inside. -/
def DeclaredType.ofShape (p : PlainType) (isList isOptional : Bool) : DeclaredType :=
  (if isList then .list (.plain p) else .plain p : DeclaredType).optionalIf isOptional

namespace DeclaredType

/-! ## Layers -/

theorem isAbsent_iff {t : DeclaredType} : t.isAbsent = true ↔ t = .absent := by
  cases t <;> simp [isAbsent]

theorem not_isAbsent_of_bare {t : DeclaredType} {p : PlainType} {isList : Bool}
    (h : Bare t p isList) : t.isAbsent = false := by
  cases h <;> rfl

/-- A plain type is left under at most one list layer exactly if the type is bare. -/
theorem withoutList_eq_iff {t : DeclaredType} {p : PlainType} {isList : Bool} :
    t.withoutList = (.plain p, isList) ↔ Bare t p isList := by
  constructor
  · intro h
    cases t with
    | plain q =>
      cases h
      exact .plain p
    | list item =>
      cases h
      exact .list p
    | _ => cases h
  · rintro (_ | _) <;> rfl

/-- A single member is left of a union when all others are absent markers. -/
theorem filter_absent_eq_singleton_iff {members : List DeclaredType} {t : DeclaredType} :
    members.filter (fun member => !member.isAbsent) = [t] ↔
      ∃ before after, members = before ++ t :: after ∧ t.isAbsent = false ∧
        ∀ member ∈ before ++ after, member = .absent := by
  simp only [List.filter_eq_cons_iff, List.filter_eq_nil_iff, List.forall_mem_append,
    Bool.not_eq_true', Bool.not_eq_false, isAbsent_iff]
  grind

/-- A bare type is left under at most one optional layer exactly if the type is shaped. -/
theorem withoutAbsent_eq_iff {t : DeclaredType} {p : PlainType} {isList isOptional : Bool} :
    (∃ u, t.withoutAbsent = (u, isOptional) ∧ Bare u p isList) ↔ Shaped t p isList isOptional := by
  constructor
  · rintro ⟨u, hu, hbare⟩
    cases t with
    | union members =>
      unfold withoutAbsent at hu
      dsimp only at hu
      split at hu
      · rename_i hany
        split at hu <;> cases hu
        · rename_i hsingle
          obtain ⟨before, after, rfl, hpresent, habsent⟩ := filter_absent_eq_singleton_iff.1 hsingle
          refine .optional hbare (fun hnone => ?_) habsent
          obtain ⟨rfl, rfl⟩ := List.append_eq_nil_iff.1 hnone
          simp [hpresent] at hany
        · cases hbare
      · cases hu
        cases hbare
    | _ =>
      cases hu
      exact .present hbare
  · rintro (hbare | ⟨hbare, hsome, habsent⟩)
    · exact ⟨t, by cases hbare <;> rfl, hbare⟩
    · rename_i before after u
      have hsingle := filter_absent_eq_singleton_iff.2
        ⟨before, after, rfl, not_isAbsent_of_bare hbare, habsent⟩
      have hany : (before ++ u :: after).any isAbsent = true := by
        obtain ⟨member, hmem⟩ := List.exists_mem_of_ne_nil _ hsome
        refine List.any_eq_true.2 ⟨member, ?_, isAbsent_iff.2 (habsent member hmem)⟩
        rcases List.mem_append.1 hmem with h | h
        · exact List.mem_append_left _ h
        · exact List.mem_append_right _ (List.mem_cons_of_mem _ h)
      refine ⟨u, ?_, hbare⟩
      simp only [withoutAbsent, hany, if_true, hsingle]

/-! ## Shapes -/

variable {t : DeclaredType} {origin : Origin}

/-- The shape of a type, if what is left under its layers is plain. -/
theorem describe_eq (t : DeclaredType) (origin : Origin) :
    t.describe origin =
      match t.withoutAbsent.1.withoutList.1 with
      | .plain p => .ok ⟨t, p, t.withoutAbsent.1.withoutList.2, t.withoutAbsent.2, origin⟩
      | _ => .error (.ofKind .name
          ("annotation must have a single parametrized argument, got " ++ t.text)) := rfl

theorem describe_ok_iff {d : Descriptor} : t.describe origin = .ok d ↔
    Shaped t d.underlying d.isList d.isOptional ∧ d.declared = t ∧ d.origin = origin := by
  rw [← withoutAbsent_eq_iff, describe_eq]
  constructor
  · intro h
    split at h <;> cases h
    rename_i p hplain
    exact ⟨⟨_, rfl, withoutList_eq_iff.1 (Prod.ext hplain rfl)⟩, rfl, rfl⟩
  · rintro ⟨⟨u, hu, hbare⟩, rfl, rfl⟩
    rw [hu, withoutList_eq_iff.2 hbare]

/-- A type without a shape is refused, under its own name. -/
theorem describe_error_iff : (¬ ∃ p isList isOptional, Shaped t p isList isOptional) ↔
    t.describe origin = .error (.ofKind .name
      ("annotation must have a single parametrized argument, got " ++ t.text)) := by
  constructor
  · intro hnone
    rw [describe_eq]
    split
    · rename_i p hplain
      exact absurd ⟨p, _, _, withoutAbsent_eq_iff.1
        ⟨_, rfl, withoutList_eq_iff.1 (Prod.ext hplain rfl)⟩⟩ hnone
    · rfl
  · rintro herror ⟨p, isList, isOptional, hshaped⟩
    have hok : t.describe origin = .ok ⟨t, p, isList, isOptional, origin⟩ :=
      describe_ok_iff.2 ⟨hshaped, rfl, rfl⟩
    rw [herror] at hok
    cases hok

/-- A type that is built from a shape has that shape. -/
theorem describe_ofShape (p : PlainType) (isList isOptional : Bool) (origin : Origin) :
    (ofShape p isList isOptional).describe origin =
      .ok ⟨ofShape p isList isOptional, p, isList, isOptional, origin⟩ := by
  cases isList
  · exact describe_plain p isOptional origin
  · exact describe_list (.plain p) isOptional origin

end DeclaredType

/-! ## The law -/

/-- The types with a shape are those of the grammar: plain types, lists of a plain type, and unions of
one of these with absent markers. The shape of such a type has its plain type, says whether there is
a list and whether there are absent markers, and keeps the type and its origin. Any other type is
refused, with an error that writes the type out. A type that is rebuilt from a shape has that shape
again. -/
theorem types_with_a_shape_are_those_of_the_grammar (t : DeclaredType) (origin : Origin) :
    (∀ d, t.describe origin = .ok d ↔
      Shaped t d.underlying d.isList d.isOptional ∧ d.declared = t ∧ d.origin = origin) ∧
    ((¬ ∃ p isList isOptional, Shaped t p isList isOptional) ↔
      t.describe origin = .error (.setup .name none
        ("annotation must have a single parametrized argument, got " ++ t.text))) ∧
    ∀ p isList isOptional,
      (DeclaredType.ofShape p isList isOptional).describe origin =
        .ok ⟨DeclaredType.ofShape p isList isOptional, p, isList, isOptional, origin⟩ :=
  ⟨fun _ => DeclaredType.describe_ok_iff, DeclaredType.describe_error_iff,
    fun p isList isOptional => DeclaredType.describe_ofShape p isList isOptional origin⟩

/-- A list of whole numbers between two absent markers has the shape of an optional list. -/
example : (DeclaredType.union [.absent, .list (.scalar .int), .absent]).describe .direct =
    .ok ⟨.union [.absent, .list (.scalar .int), .absent], .scalar .int, true, true, .direct⟩ := rfl

/-- An optional layer inside a list is one too many. -/
example : (DeclaredType.list (.optional (.scalar .int))).describe .direct = .error (.ofKind .name
    "annotation must have a single parametrized argument, got List[Optional[int]]") := rfl

/-- A union of one type without an absent marker is no shape. -/
example : (DeclaredType.union [.scalar .int]).describe .direct = .error (.ofKind .name
    "annotation must have a single parametrized argument, got Union[int]") := rfl

end Formwork
