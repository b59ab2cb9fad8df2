-- The models of a heap have the shapes that they are known by. A name without a point is that of a
-- registered model; a name with one is that of an attribute, with the shape that its parent gives
-- it. This holds whatever was asked of the heap before, and in whatever order.
import Formwork.Component.Basic
import Formwork.Proofs.Heap.Uses
import Formwork.Proofs.Types.Conforming

namespace Formwork

/-- An identifier has no point. -/
theorem not_pointed_of_isIdentifier {name : String} (h : isIdentifier name) : ¬ Pointed name := by
  intro hp
  unfold isIdentifier at h
  unfold Pointed at hp
  split at h
  · rename_i heq
    rw [heq] at hp
    cases hp
  · rename_i first rest heq
    rw [heq] at hp
    rw [Bool.and_eq_true, List.all_eq_true] at h
    rcases List.mem_cons.1 hp with rfl | hp
    · exact absurd h.1 (by decide)
    · exact absurd (h.2 '.' hp) (by decide)

namespace Heap

/-! ## The invariant -/

/-- A name of the models leads to a variable that has its own name, and whose shape is known: from
the model with the name, or from the variable that it is an attribute of. -/
structure Fits (models : Ordered ModelInfo) (h : Heap) (name : String) (id : VarId)
    (v : Variable) : Prop where
  found : h.find? id = some v
  own : h.lookup .models v.name = some id
  shape : ∃ d, v.data = .typed d ∧ PlainType.WellNamed d.underlying
  named : ¬ Pointed name → ∃ info, models.find? name = some info ∧ v.data = .typed info.descriptor
  derived : Pointed name → h.Derived .models name id

/-- Every name of the models fits. -/
structure Typed (models : Ordered ModelInfo) (h : Heap) : Prop where
  sound : h.Sound
  fits : ∀ name id, h.lookup .models name = some id → ∃ v, Fits models h name id v

variable {models models' : Ordered ModelInfo} {h h' : Heap}

theorem Fits.keeps {name : String} {id : VarId} {v : Variable} (hf : Fits models h name id v)
    (hk : Keeps h h')
    (hm : ∀ name info, models.find? name = some info → models'.find? name = some info) :
    ∃ w, Fits models' h' name id w := by
  obtain ⟨w, hw, hwv⟩ := hk.kept id v hf.found
  obtain ⟨hname, hdata, _⟩ := Variable.eq_of_core hwv
  refine ⟨w, hw, ?_, ?_, ?_, fun hp => (hf.derived hp).keeps hk⟩
  · rw [hname]
    exact hk.names _ _ _ hf.own
  · rw [hdata]
    exact hf.shape
  · intro hp
    obtain ⟨info, hinfo, hd⟩ := hf.named hp
    exact ⟨info, hm name info hinfo, by rw [hdata, hd]⟩

namespace Typed

/-- The invariant stays when a heap changes if it keeps what is there, and what is new fits. -/
theorem extend (ht : Typed models h) (hk : Keeps h h') (hs : h'.Sound)
    (hm : ∀ name info, models.find? name = some info → models'.find? name = some info)
    (hnew : ∀ name id, h'.lookup .models name = some id →
      h.lookup .models name = some id ∨ ∃ v, Fits models' h' name id v) : Typed models' h' := by
  refine ⟨hs, fun name id hl => ?_⟩
  rcases hnew name id hl with hold | hfits
  · obtain ⟨v, hv⟩ := ht.fits name id hold
    exact hv.keeps hk hm
  · exact hfits

theorem empty (name : String) (maxSuggestions : Nat) : Typed [] (.empty name maxSuggestions) := by
  constructor
  · intro ns other id hl
    cases hl
  · intro other id hl
    cases hl

/-- A registered variable has its own name and a shape. -/
theorem registered (ht : Typed models h) {id : VarId} {v : Variable}
    (hv : h.Registered .models id v) :
    h.lookup .models v.name = some id ∧
      ∃ d, v.data = .typed d ∧ PlainType.WellNamed d.underlying := by
  obtain ⟨⟨name, hl⟩, hfind⟩ := hv
  obtain ⟨w, hw⟩ := ht.fits name id hl
  rw [hw.found] at hfind
  cases hfind
  exact ⟨hw.own, hw.shape⟩

/-! ## Uses keep it -/

theorem memberShape_typed {v : Variable} {d d' : Descriptor} {name : String}
    (hd : v.data = .typed d) (h : Heap) (hs : h.memberShape name v = .ok d') :
    d.attr name h.maxSuggestions = .ok d' := by
  unfold memberShape shapeFor at hs
  rw [hd] at hs
  exact hs

theorem withMember (ht : Typed models h) {id : VarId} {v : Variable} {name : String}
    {d : Descriptor} (hv : h.Registered .models id v)
    (hd : h.memberShape name v = .ok d) :
    Typed models (h.withVariable (.fresh (v.name ++ "." ++ name) .models (.typed d))
      (v.name ++ "." ++ name)) := by
  have hk := Keeps.withVariable h (.fresh (v.name ++ "." ++ name) .models (.typed d))
    (v.name ++ "." ++ name)
  refine ht.extend hk (ht.sound.withVariable _ _) (fun _ _ hi => hi) ?_
  intro other found hl
  rcases lookup_withVariable_cases hl with ho | ⟨_, _, rfl, rfl⟩
  · exact .inl ho
  · obtain ⟨_, dv, hdv, hplain⟩ := ht.registered hv
    obtain ⟨hname, hwell⟩ := Descriptor.wellNamed_attr (memberShape_typed hdv h hd) hplain
    obtain ⟨w, hw, hwv⟩ := hv.keeps hk
    obtain ⟨hwname, _⟩ := Variable.eq_of_core hwv
    right
    refine ⟨_, find?_withVariable_new h _ _, hl, ⟨d, rfl, hwell⟩, ?_, ?_⟩
    · intro hp
      exact absurd (pointed_join v.name name) hp
    · intro _
      exact ⟨id, w, name, d, _, hw, not_pointed_of_isIdentifier hname, by rw [hwname],
        (hk.memberShape hwv name).trans hd, find?_withVariable_new h _ _, rfl⟩

theorem withOther (ht : Typed models h) {v : Variable} (hns : v.ns ≠ .models) (name : String) :
    Typed models (h.withVariable v name) := by
  refine ht.extend (Keeps.withVariable h v name) (ht.sound.withVariable v name)
    (fun _ _ hi => hi) ?_
  intro other id hl
  rcases lookup_withVariable_cases hl with ho | ⟨_, he, _, _⟩
  · exact .inl ho
  · exact absurd he.symm hns

theorem step {mine : Namespace → Prop} (hmine : ¬ mine .models) (ht : Typed models h)
    (hb : BuildStep mine h h') : Typed models h' := by
  -- A change in place, or a name outside of the models, is no matter.
  have hsame : (∀ name id, h'.lookup .models name = some id → h.lookup .models name = some id) →
      Typed models h' := fun hl =>
    ht.extend hb.keeps (hb.sound ht.sound) (fun _ _ hi => hi) fun name id hn => .inl (hl name id hn)
  cases hb with
  | @member ns id v name d hv _ hd =>
    by_cases hns : ns = .models
    · subst hns
      exact ht.withMember hv hd
    · exact ht.withOther hns _
  | refer owner _ _ => exact hsame fun _ _ hl => hl
  | bind id b => exact hsame fun _ _ hl => hl
  | add hns _ _ => exact ht.withOther (fun he => hmine (he ▸ hns)) _
  | named name hns _ =>
    refine hsame fun other id hl => ?_
    rcases lookup_withName_cases hl with hl | ⟨he, _, _⟩
    · exact hl
    · exact absurd (he ▸ hns) hmine

/-- Building up a heap keeps the models as long as no models are added. -/
theorem builds {mine : Namespace → Prop} (hmine : ¬ mine .models) (ht : Typed models h)
    (hb : Builds mine h h') : Typed models h' := by
  induction hb with
  | refl => exact ht
  | step _ hs ih => exact ih.step hmine hs

theorem uses (ht : Typed models h) (hu : Uses h h') : Typed models h' := ht.builds id hu

/-! ## Paths through the models -/

/-- The variable of an attribute has the shape that its parent gives it. -/
theorem attr_of_member (ht : Typed models h) {parent id : VarId} {v : Variable} {d : Descriptor}
    {name : String} (hv : h.Registered .models parent v) (hd : v.data = .typed d)
    (hname : ¬ Pointed name) (hl : h.lookup .models (v.name ++ "." ++ name) = some id) :
    ∃ w d', h.Registered .models id w ∧ w.data = .typed d' ∧
      d.attr name h.maxSuggestions = .ok d' := by
  obtain ⟨w, hw⟩ := ht.fits _ id hl
  obtain ⟨other, p, attr, d', u, hp, hattr, heq, hshape, hu, hcore⟩ :=
    hw.derived (pointed_join v.name name)
  obtain ⟨hpv, rfl⟩ := join_inj hname hattr heq
  -- The parent has its own name, so it is this one.
  have hparent := (ht.registered hv).1
  rw [hpv, (ht.registered hp).1] at hparent
  cases hparent
  have hvp := hv.2
  rw [hp.2] at hvp
  cases hvp
  rw [hw.found] at hu
  cases hu
  have hdata : w.data = .typed d' := congrArg Variable.data hcore
  exact ⟨w, d', ⟨⟨_, hl⟩, hw.found⟩, hdata, memberShape_typed hd h hshape⟩

end Typed

namespace Typed

theorem along_members :
    ∀ (hops : List Hop) (h : Heap) (id : VarId) (v : Variable) (d : Descriptor) {last : VarId}
      {h' : Heap}, Typed models h → h.Registered .models id v → v.data = .typed d →
      (∀ hop ∈ hops, ¬ Pointed hop.name) →
      (hops.foldlM (fun id hop => Heap.step .models (some id) hop) id).run h = (.ok last, h') →
      ∃ w d', h'.Registered .models last w ∧ w.data = .typed d' ∧
        d.along (hops.map Hop.name) = .ok d'
  | [], h, id, v, d, _, _, _, hv, hd, _, hr => by
    cases hr
    exact ⟨v, d, hv, hd, rfl⟩
  | hop :: rest, h, id, v, d, last, h', ht, hv, hd, hplain, hr => by
    rw [List.foldlM_cons] at hr
    obtain ⟨next, h₁, hstep, hr⟩ := Step.run_bind_ok hr
    have hwalk : Walks (fun _ _ => True) .models h ((Heap.step .models (some id) hop).run h) :=
      walks_step ht.sound hop (fun _ => trivial) fun other ho => by
        cases ho
        exact ⟨v, hv⟩
    rw [hstep] at hwalk
    have ht₁ : Typed models h₁ := ht.uses hwalk.uses
    -- The parent is still there after the step, and has the same name and shape.
    have hl := memberVariable_ok hv.2 (attributeVariable_ok (step_ok hstep).1)
    obtain ⟨v₁, hv₁, hcore⟩ := hv.keeps hwalk.uses.keeps
    obtain ⟨hname, hdata, _⟩ := Variable.eq_of_core hcore
    rw [← hname] at hl
    obtain ⟨w, d', hw, hwd, hattr⟩ :=
      ht₁.attr_of_member hv₁ (hdata.trans hd) (hplain hop List.mem_cons_self) hl
    obtain ⟨u, last', hu, hud, halong⟩ := along_members rest h₁ next w d' ht₁ hw hwd
      (fun other ho => hplain other (List.mem_cons_of_mem _ ho)) hr
    refine ⟨u, last', hu, hud, ?_⟩
    rw [List.map_cons, Descriptor.along_cons hattr, halong]

/-- A path through the models leads to the shape that its attributes lead to, one after the other,
from the model that it starts at. -/
theorem along_path {root : Hop} {hops : List Hop} {id : VarId} (ht : Typed models h)
    (hroot : ¬ Pointed root.name) (hplain : ∀ hop ∈ hops, ¬ Pointed hop.name)
    (hr : (follow .models root hops).run h = (.ok id, h')) :
    ∃ info v d, models.find? root.name = some info ∧ h'.Registered .models id v ∧
      v.data = .typed d ∧ info.descriptor.along (hops.map Hop.name) = .ok d := by
  rw [follow] at hr
  obtain ⟨first, h₁, hstep, hr⟩ := Step.run_bind_ok hr
  have hrun := attributeVariable_ok (step_ok hstep).1
  rcases run_rootVariable .models root.name h with ⟨found, hl, hf⟩ | ⟨_, e, hf, _⟩
  · simp only [hf] at hrun
    cases hrun
    obtain ⟨v, hv⟩ := ht.fits root.name first hl
    obtain ⟨info, hinfo, hdata⟩ := hv.named hroot
    obtain ⟨w, d, hw, hwd, halong⟩ :=
      along_members hops h first v info.descriptor ht ⟨⟨root.name, hl⟩, hv.found⟩ hdata hplain hr
    exact ⟨info, w, d, hinfo, hw, hwd, halong⟩
  · simp only [hf] at hrun
    cases hrun

end Typed

end Heap

end Formwork
