-- How a heap grows when paths are followed through it. What was there stays. What is new are
-- variables of attributes, each with the shape that its parent gives it. So what a path leads to
-- can be said of the heap that was there first, however much the heap has grown since.
import Formwork.Proofs.Heap.Reachable

namespace Formwork

/-- The variable without those who refer to it and without what it is bound to. -/
def Variable.core (v : Variable) : Variable := { v with references := [], bound := [] }

theorem Variable.eq_of_core {v w : Variable} (h : w.core = v.core) :
    w.name = v.name ∧ w.data = v.data ∧ w.denied = v.denied := by
  cases v
  cases w
  simp_all [core]

theorem Variable.descriptor?_of_core {v w : Variable} (h : w.core = v.core) :
    w.descriptor? = v.descriptor? := by
  rw [descriptor?, descriptor?, (eq_of_core h).2.1]

/-! ## Names with a point -/

/-- The name has a point. -/
def Pointed (name : String) : Prop := '.' ∈ name.toList

theorem pointed_join (name attr : String) : Pointed (name ++ "." ++ attr) := by
  simp [Pointed, String.toList_append]

/-- The last point of a joined name is the one it was joined with. -/
theorem join_inj {p q a b : String} (ha : ¬ Pointed a) (hb : ¬ Pointed b)
    (h : p ++ "." ++ a = q ++ "." ++ b) : p = q ∧ a = b := by
  have hl : p.toList ++ '.' :: a.toList = q.toList ++ '.' :: b.toList := by
    have := congrArg String.toList h
    simpa [String.toList_append] using this
  rcases List.append_eq_append_iff.1 hl with ⟨xs, hq, hx⟩ | ⟨xs, hp, hx⟩
  · rcases xs with _ | ⟨c, rest⟩
    · simp only [List.append_nil, List.nil_append, List.cons.injEq, true_and] at hq hx
      exact ⟨String.toList_inj.1 hq.symm, String.toList_inj.1 hx⟩
    · simp only [List.cons_append, List.cons.injEq] at hx
      exact absurd (by rw [Pointed, hx.2]; simp) ha
  · rcases xs with _ | ⟨c, rest⟩
    · simp only [List.append_nil, List.nil_append, List.cons.injEq, true_and] at hp hx
      exact ⟨String.toList_inj.1 hp, String.toList_inj.1 hx.symm⟩
    · simp only [List.cons_append, List.cons.injEq] at hx
      exact absurd (by rw [Pointed, hx.2]; simp) hb

namespace Heap

variable {base h : Heap}

/-! ## What is kept -/

/-- The names of `base` still lead where they did, to variables that are still the same. -/
structure Keeps (base h : Heap) : Prop where
  limit : h.maxSuggestions = base.maxSuggestions
  names : ∀ ns name id, base.lookup ns name = some id → h.lookup ns name = some id
  kept : ∀ id v, base.find? id = some v → ∃ w, h.find? id = some w ∧ w.core = v.core

namespace Keeps

theorem refl (h : Heap) : Keeps h h :=
  ⟨rfl, fun _ _ _ hl => hl, fun _ v hv => ⟨v, hv, rfl⟩⟩

theorem trans {h' : Heap} (hk : Keeps base h) (hk' : Keeps h h') : Keeps base h' := by
  refine ⟨hk'.limit.trans hk.limit, ?_, ?_⟩
  · intro ns name id hl
    exact hk'.names ns name id (hk.names ns name id hl)
  · intro id v hv
    obtain ⟨w, hw, hwv⟩ := hk.kept id v hv
    obtain ⟨u, hu, huw⟩ := hk'.kept id w hw
    exact ⟨u, hu, huw.trans hwv⟩

theorem withVariable (h : Heap) (v : Variable) (name : String) :
    Keeps h (h.withVariable v name) := by
  refine ⟨rfl, ?_, fun id w hw => ⟨w, find?_withVariable_of_some v name hw, rfl⟩⟩
  intro ns other id hl
  rw [lookup_withVariable, hl, Option.some_or]

theorem withName (h : Heap) (ns : Namespace) (name : String) (id : VarId) :
    Keeps h (h.withName ns name id) := by
  refine ⟨rfl, ?_, fun other v hv => ⟨v, hv, rfl⟩⟩
  intro space other found hl
  rw [lookup_withName, hl, Option.some_or]

theorem withChange (h : Heap) (id : VarId) {f : Variable → Variable}
    (hf : ∀ v, (f v).core = v.core) : Keeps h (h.withChange id f) := by
  refine ⟨rfl, fun ns name other hl => hl, ?_⟩
  intro other v hv
  rw [find?_withChange, hv]
  split
  · exact ⟨f v, rfl, hf v⟩
  · exact ⟨v, rfl, rfl⟩

/-- The shape of an attribute depends on nothing that changes. -/
theorem memberShape (hk : Keeps base h) {v w : Variable} (hw : w.core = v.core) (name : String) :
    h.memberShape name w = base.memberShape name v := by
  obtain ⟨hname, hdata, _⟩ := Variable.eq_of_core hw
  have hshape : shapeFor name w = shapeFor name v := by
    unfold shapeFor
    rw [hname, hdata]
  simp only [Heap.memberShape, hshape, hk.limit]

end Keeps

/-! ## Heaps without ambiguity -/

/-- No two variables of a namespace have one name, and a name with a point that a variable has is
taken. -/
structure Unambiguous (h : Heap) : Prop where
  unique : ∀ ns id other v w, h.Registered ns id v → h.Registered ns other w → v.name = w.name →
    id = other
  taken : ∀ ns id v, h.Registered ns id v → Pointed v.name → (h.lookup ns v.name).isSome

namespace Unambiguous

/-- The variable of an attribute that is not there yet brings no ambiguity. -/
theorem withVariable (hu : h.Unambiguous) (hs : h.Sound) {v : Variable} (hp : Pointed v.name)
    (hnew : h.lookup v.ns v.name = none) : (h.withVariable v v.name).Unambiguous := by
  have hfree : ∀ id w, h.Registered v.ns id w → w.name ≠ v.name := by
    intro id w hw he
    have := hu.taken v.ns id w hw (he ▸ hp)
    rw [he, hnew] at this
    cases this
  constructor
  · intro ns id other w u hw hu' he
    rcases registered_withVariable hs hw with ⟨rfl, rfl, rfl⟩ | hw
    · rcases registered_withVariable hs hu' with ⟨_, rfl, rfl⟩ | hu'
      · rfl
      · exact absurd he.symm (hfree other u hu')
    · rcases registered_withVariable hs hu' with ⟨rfl, rfl, rfl⟩ | hu'
      · exact absurd he (hfree id w hw)
      · exact hu.unique ns id other w u hw hu' he
  · intro ns id w hw hpw
    rw [lookup_withVariable]
    rcases registered_withVariable hs hw with ⟨rfl, rfl, rfl⟩ | hw
    · simp
    · simp [hu.taken ns id w hw hpw]

theorem withChange (hu : h.Unambiguous) (id : VarId) {f : Variable → Variable}
    (hf : ∀ v, (f v).core = v.core) : (h.withChange id f).Unambiguous := by
  have hcases : ∀ ns other w, (h.withChange id f).Registered ns other w →
      ∃ v, h.Registered ns other v ∧ w.name = v.name := by
    intro ns other w hw
    obtain ⟨v, hv, rfl | rfl⟩ := registered_withChange hw
    · exact ⟨w, hv, rfl⟩
    · exact ⟨v, hv, (Variable.eq_of_core (hf v)).1⟩
  constructor
  · intro ns i j v w hv hw he
    obtain ⟨v', hv', hn⟩ := hcases ns i v hv
    obtain ⟨w', hw', hm⟩ := hcases ns j w hw
    exact hu.unique ns i j v' w' hv' hw' (by rw [← hn, ← hm, he])
  · intro ns i v hv hp
    obtain ⟨v', hv', hn⟩ := hcases ns i v hv
    rw [hn] at hp ⊢
    exact hu.taken ns i v' hv' hp

end Unambiguous

/-! ## Growth -/

/-- The name is that of an attribute of a variable, and leads to a variable with the shape that the
parent gives it. -/
def Derived (h : Heap) (ns : Namespace) (name : String) (id : VarId) : Prop :=
  ∃ parent p attr d v, h.Registered ns parent p ∧ ¬ Pointed attr ∧ name = p.name ++ "." ++ attr ∧
    h.memberShape attr p = .ok d ∧ h.find? id = some v ∧ v.core = .fresh name ns (.typed d)

theorem Registered.keeps {h' : Heap} {ns : Namespace} {id : VarId} {v : Variable}
    (hr : h.Registered ns id v) (hk : Keeps h h') :
    ∃ w, h'.Registered ns id w ∧ w.core = v.core := by
  obtain ⟨⟨name, hl⟩, hv⟩ := hr
  obtain ⟨w, hw, hwv⟩ := hk.kept id v hv
  exact ⟨w, ⟨⟨name, hk.names ns name id hl⟩, hw⟩, hwv⟩

theorem Derived.keeps {h' : Heap} {ns : Namespace} {name : String} {id : VarId}
    (hd : h.Derived ns name id) (hk : Keeps h h') : h'.Derived ns name id := by
  obtain ⟨parent, p, attr, d, v, hp, ha, rfl, hshape, hv, hcore⟩ := hd
  obtain ⟨q, hq, hqp⟩ := hp.keeps hk
  obtain ⟨w, hw, hwv⟩ := hk.kept id v hv
  have hname := (Variable.eq_of_core hqp).1
  exact ⟨parent, q, attr, d, w, hq, ha, by rw [hname], (hk.memberShape hqp attr).trans hshape, hw,
    hwv.trans hcore⟩

/-- The heap keeps what `base` has, is as sound and unambiguous, and has nothing new but variables
of attributes. -/
structure Grown (base h : Heap) : Prop where
  origin : base.Sound
  finished : h.finished = base.finished
  keeps : Keeps base h
  sound : h.Sound
  unambiguous : h.Unambiguous
  derived : ∀ ns name id, base.lookup ns name = none → h.lookup ns name = some id →
    h.Derived ns name id

namespace Grown

theorem refl (hs : h.Sound) (hu : h.Unambiguous) : Grown h h := by
  refine ⟨hs, rfl, Keeps.refl h, hs, hu, ?_⟩
  intro ns name id hn hl
  rw [hn] at hl
  cases hl

/-- A heap grows when a variable of an attribute is added. -/
theorem withMember (hg : Grown base h) {ns : Namespace} {parent : VarId} {p : Variable}
    {attr : String} {d : Descriptor} (hp : h.Registered ns parent p) (ha : ¬ Pointed attr)
    (hnew : h.lookup ns (p.name ++ "." ++ attr) = none) (hd : h.memberShape attr p = .ok d) :
    Grown base
      (h.withVariable (.fresh (p.name ++ "." ++ attr) ns (.typed d)) (p.name ++ "." ++ attr)) := by
  have hk := Keeps.withVariable h (.fresh (p.name ++ "." ++ attr) ns (.typed d))
    (p.name ++ "." ++ attr)
  refine ⟨hg.origin, hg.finished, hg.keeps.trans hk, hg.sound.withVariable _ _,
    hg.unambiguous.withVariable hg.sound (pointed_join p.name attr) hnew, ?_⟩
  intro space name id hbase hl
  rcases lookup_withVariable_cases hl with ho | ⟨_, rfl, rfl, rfl⟩
  · exact (hg.derived space name id hbase ho).keeps hk
  · obtain ⟨q, hq, hqp⟩ := hp.keeps hk
    have hname := (Variable.eq_of_core hqp).1
    exact ⟨parent, q, attr, d, _, hq, ha, by rw [hname],
      (hk.memberShape hqp attr).trans hd, find?_withVariable_new h _ _, rfl⟩

theorem withReference (hg : Grown base h) (id : VarId) (owner : String) :
    Grown base (h.withChange id fun v => v.refer owner) := by
  have hk : Keeps h (h.withChange id fun v => v.refer owner) :=
    Keeps.withChange h id fun v => rfl
  refine ⟨hg.origin, hg.finished, hg.keeps.trans hk, hg.sound.withChange id fun v => rfl,
    hg.unambiguous.withChange id fun v => rfl, ?_⟩
  intro ns name other hbase hl
  exact (hg.derived ns name other hbase hl).keeps hk

/-- A name leads to what it led to in `base`, or nowhere, or to the variable of an attribute. -/
theorem lookup_cases (hg : Grown base h) (ns : Namespace) (name : String) :
    (∃ id v w, base.get? ns name = some v ∧ h.lookup ns name = some id ∧
      h.Registered ns id w ∧ w.core = v.core) ∨
    (base.get? ns name = none ∧ h.lookup ns name = none) ∨
    (base.lookup ns name = none ∧ base.get? ns name = none ∧
      ∃ id, h.lookup ns name = some id ∧ h.Derived ns name id) := by
  rcases hb : base.lookup ns name with _ | id
  · have hget : base.get? ns name = none := by rw [get?, hb]; rfl
    rcases hl : h.lookup ns name with _ | id
    · exact .inr (.inl ⟨hget, rfl⟩)
    · exact .inr (.inr ⟨rfl, hget, id, rfl, hg.derived ns name id hb hl⟩)
  · obtain ⟨v, hv, _⟩ := hg.origin ns name id hb
    obtain ⟨w, hw, hwv⟩ := hg.keeps.kept id v hv
    have hl := hg.keeps.names ns name id hb
    exact .inl ⟨id, v, w, by rw [get?, hb]; exact hv, hl, ⟨⟨name, hl⟩, hw⟩, hwv⟩

end Grown

end Heap

end Formwork
