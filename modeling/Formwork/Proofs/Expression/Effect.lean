-- All that setup of an expression does to a heap, whatever comes of it. Variables of attributes
-- are added behind those that were there, and every path that resolves leaves one reference on the
-- variable that it ends at. Nothing else changes, also when setup breaks off in the middle of a
-- path.
import Formwork.Proofs.Expression.Leaves
import Formwork.Proofs.Heap.Uses
import Mathlib.Data.List.Forall2

namespace Formwork

/-- The variable with more references, all of one owner. -/
def Variable.referTimes (v : Variable) (owner : String) (n : Nat) : Variable :=
  { v with references := v.references ++ List.replicate n owner }

theorem Variable.referTimes_zero (v : Variable) (owner : String) : v.referTimes owner 0 = v := by
  simp [referTimes]

theorem Variable.refer_referTimes (v : Variable) (owner : String) (n : Nat) :
    (v.referTimes owner n).refer owner = v.referTimes owner (n + 1) := by
  simp [referTimes, refer, List.replicate_succ']

namespace Heap

/-! ## The effect on a heap -/

/-- The variable is that of an attribute of a registered variable. The attribute was asked for, and
the variable has its shape. -/
def AttributeOf (asked : Namespace → String → Prop) (h : Heap) (v : Variable) : Prop :=
  ∃ parent p attr d, asked v.ns attr ∧ h.Registered v.ns parent p ∧
    h.memberShape attr p = .ok d ∧ v = .fresh (p.name ++ "." ++ attr) v.ns (.typed d)

theorem AttributeOf.keeps {asked : Namespace → String → Prop} {h h' : Heap} {v : Variable}
    (ha : AttributeOf asked h v) (hk : Keeps h h') : AttributeOf asked h' v := by
  obtain ⟨parent, p, attr, d, hasked, hp, hshape, heq⟩ := ha
  obtain ⟨q, hq, hqp⟩ := hp.keeps hk
  exact ⟨parent, q, attr, d, hasked, hq, (hk.memberShape hqp attr).trans hshape,
    by rw [(Variable.eq_of_core hqp).1]; exact heq⟩

/-- The heap `h'` is `h` with the variables `added`, and with one reference of the owner for each of
`ends`. The new variables are those of attributes that were asked for. -/
structure Effect (owner : String) (asked : Namespace → String → Prop) (h : Heap)
    (added : List Variable) (ends : List VarId) (h' : Heap) : Prop where
  name : h'.name = h.name
  limit : h'.maxSuggestions = h.maxSuggestions
  finished : h'.finished = h.finished
  /-- Names keep their places, and each new variable is registered under its own. -/
  names : h'.names = h.names ++
    added.mapIdx fun i v => ((v.ns, v.name), ⟨h.arena.size + i⟩)
  size : h'.arena.size = h.arena.size + added.length
  kept : ∀ id v, h.find? id = some v → h'.find? id = some (v.referTimes owner (ends.count id))
  new : ∀ (i : Nat) v, added[i]? = some v →
    h'.find? ⟨h.arena.size + i⟩ = some (v.referTimes owner (ends.count ⟨h.arena.size + i⟩))
  within : ∀ id ∈ ends, id.index < h'.arena.size
  origin : ∀ v ∈ added, AttributeOf asked h' v

namespace Effect

variable {owner : String} {asked : Namespace → String → Prop} {h h' : Heap}
  {added : List Variable} {ends : List VarId}

theorem refl (h : Heap) : Effect owner asked h [] [] h := by
  refine ⟨rfl, rfl, rfl, by simp, rfl, fun id v hv => ?_, ?_, ?_, ?_⟩
  · simpa [Variable.referTimes_zero] using hv
  all_goals simp

/-- A variable of an attribute more. -/
theorem withMember (he : Effect owner asked h added ends h') {ns : Namespace} {parent : VarId}
    {p : Variable} {attr : String} {d : Descriptor} (hasked : asked ns attr)
    (hp : h'.Registered ns parent p) (hd : h'.memberShape attr p = .ok d) :
    Effect owner asked h (added ++ [.fresh (p.name ++ "." ++ attr) ns (.typed d)]) ends
      (h'.withVariable (.fresh (p.name ++ "." ++ attr) ns (.typed d)) (p.name ++ "." ++ attr)) := by
  have hk := Keeps.withVariable h' (.fresh (p.name ++ "." ++ attr) ns (.typed d))
    (p.name ++ "." ++ attr)
  refine ⟨he.name, he.limit, he.finished, ?_, ?_, ?_, ?_, ?_, ?_⟩
  · simp only [withVariable, he.names, he.size, List.mapIdx_append, List.append_assoc,
      List.mapIdx_cons, List.mapIdx_nil, Nat.zero_add]
    rfl
  · simp only [withVariable, Array.size_push, he.size, List.length_append, List.length_singleton]
    omega
  · intro id v hv
    exact find?_withVariable_of_some _ _ (he.kept id v hv)
  · intro i v hv
    rcases Nat.lt_or_ge i added.length with hlt | hge
    · rw [List.getElem?_append_left hlt] at hv
      exact find?_withVariable_of_some _ _ (he.new i v hv)
    · -- The new variable is the last one, and no path has ended at it.
      rw [List.getElem?_append_right hge] at hv
      obtain ⟨hi, heq⟩ := List.getElem?_eq_some_iff.1 hv
      rw [List.getElem_singleton] at heq
      rw [List.length_singleton] at hi
      obtain rfl : i = added.length := by omega
      have hnone : ends.count ⟨h.arena.size + added.length⟩ = 0 := by
        rw [List.count_eq_zero]
        intro hm
        have := he.within _ hm
        rw [he.size] at this
        exact Nat.lt_irrefl _ this
      rw [← heq, hnone, Variable.referTimes_zero, ← he.size]
      exact find?_withVariable_new h' _ _
  · intro id hm
    have := he.within id hm
    simp only [withVariable, Array.size_push]
    omega
  · intro v hv
    rcases List.mem_append.1 hv with hv | hv
    · exact (he.origin v hv).keeps hk
    · rw [List.mem_singleton.1 hv]
      exact AttributeOf.keeps ⟨parent, p, attr, d, hasked, hp, hd, rfl⟩ hk

/-- A reference more. -/
theorem withReference (he : Effect owner asked h added ends h') {id : VarId} {v : Variable}
    (hv : h'.find? id = some v) :
    Effect owner asked h added (ends ++ [id]) (h'.withChange id fun v => v.refer owner) := by
  have hk : Keeps h' (h'.withChange id fun v => v.refer owner) :=
    Keeps.withChange h' id fun v => rfl
  have hsize : (h'.withChange id fun v => v.refer owner).arena.size = h'.arena.size := by
    simp [withChange]
  -- Only the count of `id` goes up, and with it the references of that variable.
  have hcounts : ∀ other (w : Variable),
      h'.find? other = some (w.referTimes owner (ends.count other)) →
      (h'.withChange id fun v => v.refer owner).find? other =
        some (w.referTimes owner ((ends ++ [id]).count other)) := by
    intro other w hw
    rw [find?_withChange, hw, List.count_append]
    split
    · rename_i hsame
      rw [hsame, List.count_singleton_self, ← Variable.refer_referTimes]
      rfl
    · rename_i hother
      rw [List.count_singleton, beq_false_of_ne (Ne.symm hother)]
      rfl
  refine ⟨he.name, he.limit, he.finished, he.names, hsize.trans he.size,
    fun other w hw => hcounts other w (he.kept other w hw),
    fun i w hw => hcounts _ w (he.new i w hw), ?_, ?_⟩
  · intro other hm
    rw [hsize]
    rcases List.mem_append.1 hm with hm | hm
    · exact he.within other hm
    · rw [List.mem_singleton.1 hm]
      exact index_lt_of_find? hv
  · exact fun w hw => (he.origin w hw).keeps hk

/-- Following a path adds variables and refers to none. -/
theorem adds {asked' : Namespace → String → Prop} {h'' : Heap} {more : List Variable}
    (he : Effect owner asked h added ends h') (ha : Adds asked' h' more h'')
    (hasked : ∀ ns name, asked' ns name → asked ns name) :
    Effect owner asked h (added ++ more) ends h'' := by
  induction ha with
  | nothing =>
    rw [List.append_nil]
    exact he
  | member _ hname hv _ hd ih =>
    rw [← List.append_assoc]
    exact ih.withMember (hasked _ _ hname) hv hd

end Effect

/-! ## Following a path again -/

variable {ns : Namespace} {h h' g : Heap}

theorem attributeVariable_keeps (ns : Namespace) (name : String) (parent : Option VarId)
    (h : Heap) : Keeps h ((attributeVariable ns name parent).run h).2 := by
  rcases attributeVariable_cases ns name parent h with he | ⟨_, v, d, _, _, _, _, _, he⟩
  · rw [he]
    exact .refl h
  · rw [he]
    exact .withVariable h _ _

/-- A step that has found a variable finds it again, and adds nothing. -/
theorem step_again {parent : Option VarId} {hop : Hop} {id : VarId}
    (hr : (step ns parent hop).run h = (.ok id, h')) (hk : Keeps h' g) :
    Keeps h g ∧ (step ns parent hop).run g = (.ok id, g) := by
  obtain ⟨hattribute, v, hv, hd⟩ := step_ok hr
  have hbefore := attributeVariable_keeps ns hop.name parent h
  rw [hattribute] at hbefore
  have hkeeps := hbefore.trans hk
  refine ⟨hkeeps, ?_⟩
  have hfound : (attributeVariable ns hop.name parent).run g = (.ok id, g) := by
    have hlookup := attributeVariable_ok hattribute
    unfold attributeVariable at hattribute ⊢
    by_cases hu : hop.name.toList.head? == some '_'
    · simp only [hu, if_true, Step.run_bind, Step.run_throw] at hattribute
      cases hattribute
    simp only [hu, if_false, Bool.false_eq_true]
    rcases parent with _ | parent
    · rcases run_rootVariable ns hop.name h with ⟨other, hl, hroot⟩ | ⟨_, e, hroot, _⟩ <;>
        rw [hroot] at hlookup <;> cases hlookup
      simp only [rootVariable, Step.run_bind, Step.run_get, hkeeps.names ns hop.name id hl]
      rfl
    · rcases hp : h.find? parent with _ | p
      · obtain ⟨e, he⟩ := run_memberVariable_of_none ns hop.name hp
        rw [he] at hlookup
        cases hlookup
      · obtain ⟨q, hq, hqp⟩ := hkeeps.kept parent p hp
        have hl := hk.names ns _ id (memberVariable_ok hp hlookup)
        simp only [run_memberVariable hq, (Variable.eq_of_core hqp).1, hl]
  obtain ⟨w, hw, hwv⟩ := hk.kept id v hv
  rw [run_step, Step.run_bind, hfound]
  simp only [usable, Step.run_bind, run_variableAt_of_some hw, (Variable.eq_of_core hwv).2.2, hd]
  rfl

theorem members_again : ∀ (hops : List Hop) {h h' : Heap} {id last : VarId},
    (hops.foldlM (fun id hop => step ns (some id) hop) id).run h = (.ok last, h') → Keeps h' g →
    Keeps h g ∧ (hops.foldlM (fun id hop => step ns (some id) hop) id).run g = (.ok last, g)
  | [], _, _, _, _, hr, hk => by
    cases hr
    exact ⟨hk, rfl⟩
  | hop :: rest, _, _, _, _, hr, hk => by
    rw [List.foldlM_cons] at hr ⊢
    obtain ⟨_, _, hstep, hr⟩ := Step.run_bind_ok hr
    obtain ⟨hafter, hrest⟩ := members_again rest hr hk
    obtain ⟨hbefore, hagain⟩ := step_again hstep hafter
    exact ⟨hbefore, by rw [Step.run_bind, hagain]; exact hrest⟩

/-- A path that has led to a variable leads to it again, and adds nothing. -/
theorem follow_again {root : Hop} {hops : List Hop} {id : VarId}
    (hr : (follow ns root hops).run h = (.ok id, h')) (hk : Keeps h' g) :
    (follow ns root hops).run g = (.ok id, g) := by
  rw [follow] at hr ⊢
  obtain ⟨_, _, hroot, hr⟩ := Step.run_bind_ok hr
  obtain ⟨hafter, hmembers⟩ := members_again hops hr hk
  rw [Step.run_bind, (step_again hroot hafter).2]
  exact hmembers

end Heap

/-! ## Leaves -/

/-- The leaf is resolved, and its path leads to the variable, whose name the leaf remembers. -/
structure Leaf.EndsAt (heap : Heap) (leaf : Leaf) (id : VarId) : Prop where
  resolved : leaf.state.isResolved
  follow : (Heap.follow leaf.ns leaf.root leaf.hops).run heap = (.ok id, heap)
  target : ∃ v, heap.find? id = some v ∧ leaf.expression.target? = some v.name

theorem Leaf.EndsAt.keeps {h h' : Heap} {leaf : Leaf} {id : VarId} (he : leaf.EndsAt h id)
    (hk : Heap.Keeps h h') : leaf.EndsAt h' id := by
  obtain ⟨v, hv, htarget⟩ := he.target
  obtain ⟨w, hw, hwv⟩ := hk.kept id v hv
  exact ⟨he.resolved, Heap.follow_again he.follow hk, w, hw,
    by rw [(Variable.eq_of_core hwv).1]; exact htarget⟩

open Heap (Effect)

variable {owner : String} {asked : Namespace → String → Prop}

/-- One leaf: a reference on the variable that it ends at if it resolves, and none otherwise. -/
theorem Leaf.settle_effect {leaf : Leaf} (hp : leaf.state = .pending)
    (hasked : ∀ ns name, Heap.AskedBy leaf.ns leaf.hops ns name → asked ns name) {h h₀ : Heap}
    (hs : h₀.Sound) {added : List Variable} {ends : List VarId}
    (he : Effect owner asked h added ends h₀) :
    ∃ more last, Effect owner asked h (added ++ more) (ends ++ last) (leaf.settle owner h₀).heap ∧
      Heap.Keeps h₀ (leaf.settle owner h₀).heap ∧
      ((∃ id, last = [id] ∧ (leaf.settle owner h₀).outcome = .ok (.resolved ()) ∧
          (leaf.settle owner h₀).subject.EndsAt (leaf.settle owner h₀).heap id) ∨
        (last = [] ∧ (leaf.settle owner h₀).outcome ≠ .ok (.resolved ()) ∧
          (leaf.settle owner h₀).subject.state.isResolved = false)) := by
  obtain ⟨ns, root, hops, _⟩ := leaf
  obtain rfl := hp
  obtain ⟨more, h₁, hadds, ⟨id, v, hfollow, hv, _, hsetup⟩ | ⟨hheap, hstate⟩⟩ :=
    Expression.setup_path_heap owner ns root hops hs
  · have hkeeps : Heap.Keeps h₁ (h₁.withChange id fun v => v.refer owner) :=
      Heap.Keeps.withChange h₁ id fun v => rfl
    refine ⟨more, [id], ?_, ?_, .inl ⟨id, rfl, ?_, ?_, ?_, ?_⟩⟩ <;>
      simp only [Leaf.settle, Leaf.expression, hsetup]
    · exact (he.adds hadds hasked).withReference hv
    · exact hadds.uses.keeps.trans hkeeps
    · rfl
    · rfl
    · exact Heap.follow_again hfollow hkeeps
    · obtain ⟨w, hw, hwv⟩ := hkeeps.kept id v hv
      exact ⟨w, hw, by rw [(Variable.eq_of_core hwv).1]; rfl⟩
  · refine ⟨more, [], ?_, ?_, .inr ⟨rfl, ?_, hstate⟩⟩
    · rw [List.append_nil]
      simp only [Leaf.settle, Leaf.expression, hheap]
      exact he.adds hadds hasked
    · simp only [Leaf.settle, Leaf.expression, hheap]
      exact hadds.uses.keeps
    · intro ho
      simp only [Leaf.settle, Leaf.expression] at ho
      rcases hsetup :
        ((Expression.path ns root hops .pending).setup owner h₀).outcome with e | _ <;>
        rw [hsetup] at ho
      · cases ho
      · rw [Except.map, Except.ok.injEq, Resolution.forget_eq_resolved, hstate] at ho
        cases ho

/-- A run over leaves: a reference for each of those that resolve, which are the first ones. -/
theorem Leaf.settleAll_effect {h : Heap} : ∀ (leaves : List Leaf) {h₀ : Heap}
    {added : List Variable} {ends : List VarId}, (∀ leaf ∈ leaves, leaf.state = .pending) →
    (∀ leaf ∈ leaves, ∀ ns name, Heap.AskedBy leaf.ns leaf.hops ns name → asked ns name) →
    h₀.Sound → Effect owner asked h added ends h₀ →
    ∃ more lasts resolved others,
      Effect owner asked h (added ++ more) (ends ++ lasts) (settleAll owner leaves h₀).heap ∧
      Heap.Keeps h₀ (settleAll owner leaves h₀).heap ∧
      (settleAll owner leaves h₀).subject = resolved ++ others ∧
      List.Forall₂ (EndsAt (settleAll owner leaves h₀).heap) resolved lasts ∧
      ∀ leaf ∈ others, leaf.state.isResolved = false
  | [], h₀, _, _, _, _, _, he => by
    refine ⟨[], [], [], [], ?_, .refl h₀, rfl, .nil, by simp⟩
    simp only [List.append_nil]
    exact he
  | leaf :: rest, h₀, added, ends, hp, hasked, hs, he => by
    obtain ⟨first, last, heffect, hkeeps, hend⟩ := Leaf.settle_effect
      (hp leaf List.mem_cons_self) (hasked leaf List.mem_cons_self) hs he
    have hpending : ∀ other ∈ rest, other.state = .pending :=
      fun other ho => hp other (List.mem_cons_of_mem _ ho)
    have hsound : (leaf.settle owner h₀).heap.Sound :=
      (Expression.uses_setup owner leaf.expression h₀ hs).sound hs
    rw [settleAll]
    rcases hrun : leaf.settle owner h₀ with ⟨outcome, subject, h₁⟩
    rw [hrun] at heffect hkeeps hend hsound
    rcases hend with ⟨id, rfl, ho, hid⟩ | ⟨rfl, ho, hstate⟩
    · obtain ⟨more, lasts, resolved, others, hall, hkept, hsubject, hends, hothers⟩ :=
        settleAll_effect rest hpending
          (fun other ho => hasked other (List.mem_cons_of_mem _ ho)) hsound heffect
      dsimp only at ho
      subst ho
      refine ⟨first ++ more, id :: lasts, subject :: resolved, others, ?_, hkeeps.trans hkept, ?_,
        .cons (hid.keeps hkept) hends, hothers⟩
      · simpa using hall
      · simp only [hsubject, List.cons_append]
    · -- The run stops here, and the leaves to the right stay as they were.
      have hstop : ∀ leaf ∈ subject :: rest, leaf.state.isResolved = false := by
        intro other hm
        rcases List.mem_cons.1 hm with rfl | hm
        · exact hstate
        · rw [hpending other hm]
          rfl
      refine ⟨first, [], [], subject :: rest, ?_⟩
      rcases outcome with e | _ | _ | _ | _
      all_goals first
        | exact absurd rfl ho
        | exact ⟨heffect, hkeeps, rfl, .nil, hstop⟩

/-! ## The law -/

/-- The name is that of an attribute in one of the paths of the expression, in their namespace. -/
def Expression.Asks (e : Expression) (ns : Namespace) (name : String) : Prop :=
  ∃ leaf ∈ e.leaves, Heap.AskedBy leaf.ns leaf.hops ns name

/-- Setup of an expression that was never set up adds variables of attributes and references of its
owner to the heap, and nothing else, whatever comes of it. Some of its leaves resolve, from the
left, and all the others do not: there is one reference for each of those that do, on the variable
that it ends at, and none for the others. -/
theorem setup_adds_attributes_and_references (owner : String) {e : Expression} {h : Heap}
    (hreachable : h.Reachable) (hfresh : e.Fresh) :
    let attempt := e.setup owner h
    ∃ added ends resolved others, Heap.Effect owner e.Asks h added ends attempt.heap ∧
      attempt.subject.reset = e ∧ attempt.subject.leaves = resolved ++ others ∧
      List.Forall₂ (Leaf.EndsAt attempt.heap) resolved ends ∧
      ∀ leaf ∈ others, leaf.state.isResolved = false := by
  have hnothing : Effect owner e.Asks h [] [] h := .refl h
  obtain ⟨added, ends, resolved, others, heffect, _, hleaves, hends, hothers⟩ :=
    Leaf.settleAll_effect e.leaves hfresh.leaves (fun leaf hl ns name hasked => ⟨leaf, hl, hasked⟩)
      hreachable.sound hnothing
  have hkept := Expression.reset_setup owner e h
  rw [Expression.setup_eq_settleAll owner e h hfresh] at heffect hleaves hends
  exact ⟨added, ends, resolved, others, by simpa using heffect, hkept.trans hfresh, hleaves,
    by simpa using hends, hothers⟩

/-- In `(Models.company.boss.age == 1) and (Models.company.boss.name == Models.company.name)` the
second leaf fails, since a boss has no name. The first one has added two variables by then, and
refers to the second of them; the third one is not tried. -/
theorem setup_adds_attributes_and_references_up_to_a_missing_name :
    let path : List String → Operand := fun names => .expression (.ofModels "company" names)
    let first : Expression := .computed
      (.binary .eq (path ["boss", "age"]) (.literal (.integer 1)) .pending) [] .pending
    let second : Expression := .computed
      (.binary .eq (path ["boss", "name"]) (path ["name"]) .pending) [] .pending
    let e : Expression := .computed
      (.binary .and (.expression first) (.expression second) .pending) [] .pending
    let attempt := e.setup "rule" Heap.sample
    (Heap.sample.Reachable ∧ e.Fresh) ∧
      (∃ added ends resolved others,
        Heap.Effect "rule" e.Asks Heap.sample added ends attempt.heap ∧
        attempt.subject.reset = e ∧ attempt.subject.leaves = resolved ++ others ∧
        List.Forall₂ (Leaf.EndsAt attempt.heap) resolved ends ∧
        ∀ leaf ∈ others, leaf.state.isResolved = false) ∧
      attempt.heap.arena.toList.map (fun v => (v.name, v.references)) =
        [("company", []), ("company.boss", []), ("company.boss.age", ["rule"])] := by
  intro path first second e attempt
  have hfresh : e.Fresh := rfl
  exact ⟨⟨Heap.sample_reachable, hfresh⟩,
    setup_adds_attributes_and_references "rule" Heap.sample_reachable hfresh, rfl⟩

end Formwork
