-- The names of models. Whatever is declared, the models of a container and of the extensions
-- inside it are named with identifiers, since models are built under identifiers only. That holds
-- of whatever stands anywhere inside.
import Formwork.Component.Layout
import Formwork.Proofs.Component.Preorder

namespace Formwork

/-! ## Well-named containers -/

mutual

/-- The names of a model and of the models nested in it are identifiers. -/
def ModelTree.WellNamed : ModelTree → Prop
  | .node model nested => isIdentifier model.name ∧ ModelTree.AllWellNamed nested

/-- The names of the models, and of those nested in them, are identifiers. -/
def ModelTree.AllWellNamed : List ModelTree → Prop
  | [] => True
  | model :: rest => model.WellNamed ∧ ModelTree.AllWellNamed rest

end

theorem checkIdentifier_ok {name : String} {u : Unit} (h : checkIdentifier name = .ok u) :
    isIdentifier name := by
  unfold checkIdentifier at h
  split at h
  · assumption
  · cases h

/-- Models are built under identifiers only. -/
theorem BoundModel.isIdentifier_name {name : String} {m : BoundModel}
    (h : (∃ declared, ofType name declared = .ok m) ∨ (∃ e, ofExpression name e = .ok m) ∨
      ∃ load save, ofHandlers name load save = .ok m) : isIdentifier m.name := by
  rcases hc : checkIdentifier name with e | u
  · rcases h with ⟨_, h⟩ | ⟨_, h⟩ | ⟨_, _, h⟩ <;>
      simp [ofType, ofExpression, ofHandlers, hc, bind, Except.bind] at h
  · have hname := checkIdentifier_ok hc
    rcases h with ⟨_, h⟩ | ⟨_, h⟩ | ⟨load, save, h⟩
    · simp only [ofType, hc] at h
      cases h
      exact hname
    · simp only [ofExpression, hc] at h
      cases h
      exact hname
    · simp only [ofHandlers, hc, bind, Except.bind] at h
      split at h
      · cases h
      · cases h
        exact hname

mutual

/-- The models of the container, and those of the extensions declared inside it, are named with
identifiers. -/
def Container.WellNamed : Container → Prop
  | .mk _ phase => phase.WellNamed

/-- What is declared is named with identifiers. Nothing is asked of what was set up before. -/
def Phase.WellNamed : Phase → Prop
  | .declared model contents _ _ => model.WellNamed ∧ Component.AllWellNamed contents
  | .finished .. => True
  | .failed => True

/-- The extensions in the components are well-named. -/
def Component.AllWellNamed : List Component → Prop
  | [] => True
  | component :: rest => component.WellNamed ∧ Component.AllWellNamed rest

/-- The extensions in the component are well-named. -/
def Component.WellNamed : Component → Prop
  | .node part contents => part.WellNamed ∧ Component.AllWellNamed contents

/-- An extension is well-named; other parts have no models to name. -/
def Part.WellNamed : Part → Prop
  | .extension c => c.WellNamed
  | _ => True

end

/-! ## Extensions inside -/

theorem Part.WellNamed.ownedBy {part : Part} (hw : part.WellNamed) (owner : String) :
    (part.ownedBy owner).WellNamed := by
  cases part with
  | extension c =>
    obtain ⟨p, phase⟩ := c
    exact hw
  | _ => trivial

mutual

theorem Component.WellNamed.preorder : ∀ {component : Component} {owner : String},
    component.WellNamed → ∀ entry ∈ component.preorder owner, entry.2.WellNamed
  | .node part contents, owner, hw, entry, he => by
    rcases List.mem_cons.1 he with rfl | he
    · exact hw.1
    · exact Component.AllWellNamed.preorderAll hw.2 entry he

theorem Component.AllWellNamed.preorderAll : ∀ {components : List Component} {owner : String},
    Component.AllWellNamed components →
    ∀ entry ∈ Component.preorderAll owner components, entry.2.WellNamed
  | component :: rest, owner, hw, entry, he => by
    rcases List.mem_append.1 he with he | he
    · exact Component.WellNamed.preorder hw.1 entry he
    · exact Component.AllWellNamed.preorderAll hw.2 entry he

end

end Formwork
