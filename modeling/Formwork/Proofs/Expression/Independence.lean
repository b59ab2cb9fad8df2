-- What an expression resolves to does not depend on what was resolved before it. Setup leaves the
-- variables of attributes behind in the heap, where later expressions find them; but what they find
-- is what they would have made themselves, as long as no two paths spell one name.
import Formwork.Expression.Builder
import Formwork.Proofs.Expression.Leaves
import Formwork.Proofs.Heap.Following

namespace Formwork

open Heap (LeadsTo Grown)

/-! ## Verdicts -/

/-- What resolving comes to: the kind of a hard error, or the status, with the name and the data of
the variable that was found if one was found. -/
abbrev Verdict := Except String (String × Option (Option (String × VariableData)))

/-- What an attempt to resolve an expression came to. -/
def Attempt.verdict (attempt : Attempt Expression (Option VarId)) : Verdict :=
  match attempt.outcome with
  | .ok found => .ok (attempt.subject.state.status,
      found.map fun id => (attempt.heap.find? id).map fun v => (v.name, v.data))
  | .error e => .error e.kindName

/-- The status that an error of some kind ends in, or the kind itself if it is a hard one. -/
def softStatus (kind : String) : Except String String :=
  if kind = "SetupNameNotFound" then .ok "ErrNotFound"
  else if kind = "SetupUnsupported" then .ok "ErrUnsupported"
  else .error kind

/-- What a path comes to that leads somewhere. -/
def Verdict.ofPath (expected : Except String Variable) : Verdict :=
  match expected with
  | .ok v => .ok ("Ok", some (some (v.name, v.data)))
  | .error kind => (softStatus kind).map fun status => (status, none)

/-- An outcome, as far as it counts. -/
def told (outcome : Except Error (Resolution Unit)) : Except String String :=
  (outcome.map Resolution.status).mapError Error.kindName

namespace Heap

/-- The status that a leaf comes to, said of a heap alone. -/
def statusOf (h : Heap) (leaf : Leaf) : Except String String :=
  (Verdict.ofPath (h.pathOf leaf.ns leaf.root leaf.hops)).map Prod.fst

/-- The status that leaves come to: that of the first that does not resolve. -/
def statusOfAll (h : Heap) : List Leaf → Except String String
  | [] => .ok "Ok"
  | leaf :: rest => do
    let status ← h.statusOf leaf
    if status = "Ok" then h.statusOfAll rest else return status

/-- What an expression comes to, said of a heap alone. -/
def verdictOf (h : Heap) : Expression → Verdict
  | .path ns root hops _ => Verdict.ofPath (h.pathOf ns root hops)
  | .computed operation _ _ => (h.statusOfAll operation.leaves).map fun status => (status, none)

end Heap

namespace Leaf

/-- No name after the first has a point. -/
def Plain (leaf : Leaf) : Prop := ∀ hop ∈ leaf.hops, ¬ Pointed hop.name

/-- The first name is there from the start, if it has a point. -/
def Spelled (h : Heap) (leaf : Leaf) : Prop :=
  Pointed leaf.root.name → (h.lookup leaf.ns leaf.root.name).isSome

end Leaf

/-! ## Resolving a path -/

variable {base h : Heap} (owner : String)

@[simp] theorem Resolution.status_forget {α : Type} (s : Resolution α) :
    s.forget.status = s.status := by
  cases s <;> rfl

theorem Error.kindName_withOwner (name : String) (e : Error) :
    (e.withOwner name).kindName = e.kindName := by
  cases e with
  | setup kind owner _ => cases owner <;> cases kind <;> rfl
  | unknownName owner _ _ => cases owner <;> rfl
  | internal owner _ => cases owner <;> rfl
  | _ => rfl

/-- Whether an error is soft, and the status it ends in, is told by its kind. -/
theorem Error.softStatus_kindName (e : Error) :
    softStatus e.kindName =
      match e.softState? (α := Access) with
      | some state => .ok state.status
      | none => .error e.kindName := by
  cases e with
  | setup kind _ _ => cases kind <;> simp [softStatus, kindName, softState?, Resolution.status]
  | _ => simp [softStatus, kindName, softState?, Resolution.status]

theorem Heap.run_refer {id : VarId} {v : Variable} (hopen : h.finished = false)
    (hv : h.find? id = some v) :
    (Heap.refer id owner).run h = (.ok v.name, h.withChange id fun v => v.refer owner) := by
  have hfind : (h.withChange id fun v => v.refer owner).find? id = some (v.refer owner) := by
    rw [Heap.find?_withChange, if_pos rfl, hv]
    rfl
  simp only [Heap.refer, Step.run_bind, Heap.run_addReference hopen hv,
    Heap.run_variableAt_of_some hfind]
  rfl

/-- Setup of a path comes to what following it leads to. -/
theorem Expression.verdict_path {ns : Namespace} {root : Hop} {hops : List Hop}
    {expected : Except String Variable} (hopen : base.finished = false)
    (hf : LeadsTo base ns expected ((Heap.follow ns root hops).run h)) :
    Grown base ((Expression.path ns root hops .pending).setup owner h).heap ∧
      ((Expression.path ns root hops .pending).setup owner h).verdict =
        Verdict.ofPath expected := by
  obtain ⟨hg, hends⟩ := hf
  rcases hr : (Heap.follow ns root hops).run h with ⟨result, h'⟩
  rw [hr] at hg hends
  rcases hends with ⟨id, v, he, hv, rfl⟩ | ⟨e, he, rfl⟩
  · obtain rfl : result = .ok id := he
    have hrefer := Heap.run_refer owner (hg.finished.trans hopen) hv.2
    simp only [Expression.setup, hr, Expression.conclude, hrefer]
    refine ⟨hg.withReference id owner, ?_⟩
    simp [Attempt.verdict, Verdict.ofPath, Expression.withState, Expression.state,
      Resolution.status, Heap.find?_withChange, hv.2, Variable.core, Variable.refer]
  · obtain rfl : result = .error e := he
    have hsoft := Error.softStatus_kindName e
    simp only [Expression.setup, hr, Verdict.ofPath, hsoft]
    rcases e.softState? (α := Access) with _ | state
    · exact ⟨hg, by simp only [Attempt.verdict, Error.kindName_withOwner, Except.map]⟩
    · exact ⟨hg, rfl⟩

/-! ## Resolving leaves -/

theorem told_of_verdict (attempt : Attempt Expression (Option VarId)) :
    told (attempt.outcome.map fun _ => attempt.subject.state.forget) =
      attempt.verdict.map Prod.fst := by
  unfold Attempt.verdict told
  cases attempt.outcome <;> simp [Except.map, except_mapError_ok, except_mapError_error]

/-- Resolving leaves makes the heap grow, whatever comes of it. -/
theorem Leaf.settleAll_grown (hopen : base.finished = false) :
    ∀ (leaves : List Leaf) (h : Heap), Grown base h →
      (∀ leaf ∈ leaves, leaf.state = .pending ∧ leaf.Plain) →
      Grown base (Leaf.settleAll owner leaves h).heap
  | [], h, hg, _ => hg
  | leaf :: rest, h, hg, hleaves => by
    obtain ⟨hpending, hplain⟩ := hleaves leaf List.mem_cons_self
    have hrest : ∀ h', Grown base h' → Grown base (Leaf.settleAll owner rest h').heap := by
      intro h' hg'
      exact Leaf.settleAll_grown hopen rest h' hg' fun other ho =>
        hleaves other (List.mem_cons_of_mem _ ho)
    obtain ⟨expected, hf⟩ := Heap.exists_leadsTo_path leaf.ns leaf.root hg hopen hplain
    have hgrown : Grown base (leaf.settle owner h).heap := by
      simp only [Leaf.settle, Leaf.expression, hpending]
      exact (Expression.verdict_path owner hopen hf).1
    rw [Leaf.settleAll]
    split
    · rename_i u leaf' h' hs
      rw [hs] at hgrown
      exact hrest h' hgrown
    · rename_i outcome leaf' h' _ hs
      rw [hs] at hgrown
      exact hgrown

/-- Resolving a leaf in a heap that has grown comes to what the heap says that was there first. -/
theorem Leaf.told_settle (hopen : base.finished = false) (hg : Grown base h) {leaf : Leaf}
    (hpending : leaf.state = .pending) (hplain : leaf.Plain) (hspelled : leaf.Spelled base) :
    Grown base (leaf.settle owner h).heap ∧
      told (leaf.settle owner h).outcome = base.statusOf leaf := by
  have hf := Heap.leadsTo_path hg hopen hspelled hplain
  obtain ⟨hgrown, hverdict⟩ := Expression.verdict_path owner hopen hf
  simp only [Leaf.settle, Leaf.expression, hpending, told_of_verdict, hverdict]
  exact ⟨hgrown, rfl⟩

theorem Leaf.told_settleAll (hopen : base.finished = false) :
    ∀ (leaves : List Leaf) (h : Heap), Grown base h →
      (∀ leaf ∈ leaves, leaf.state = .pending ∧ leaf.Plain ∧ leaf.Spelled base) →
      told (Leaf.settleAll owner leaves h).outcome = base.statusOfAll leaves
  | [], _, _, _ => rfl
  | leaf :: rest, h, hg, hleaves => by
    obtain ⟨hpending, hplain, hspelled⟩ := hleaves leaf List.mem_cons_self
    obtain ⟨hgrown, htold⟩ := Leaf.told_settle owner hopen hg hpending hplain hspelled
    rw [Leaf.settleAll, Heap.statusOfAll, ← htold]
    rcases hs : leaf.settle owner h with ⟨e | s, leaf', h'⟩
    · rfl
    · cases s with
      | resolved u =>
        rw [hs] at hgrown
        exact Leaf.told_settleAll hopen rest h' hgrown fun other ho =>
          hleaves other (List.mem_cons_of_mem _ ho)
      | _ => simp [told, Except.map, except_mapError_ok, Resolution.status, bind, Except.bind, pure,
          Except.pure]

/-! ## Resolving expressions -/

theorem Expression.setup_grown (hopen : base.finished = false) (hg : Grown base h)
    {e : Expression} (hf : e.Fresh) (hplain : ∀ leaf ∈ e.leaves, leaf.Plain) :
    Grown base (e.setup owner h).heap := by
  have hrun := Expression.setup_eq_settleAll owner e h hf
  have hgrown := Leaf.settleAll_grown owner hopen e.leaves h hg fun leaf hl =>
    ⟨hf.leaves leaf hl, hplain leaf hl⟩
  rw [hrun] at hgrown
  exact hgrown

/-- In a heap that has grown, an expression comes to what the heap says that was there first. -/
theorem Expression.verdict_setup (hopen : base.finished = false) (hg : Grown base h)
    {e : Expression} (hf : e.Fresh) (hplain : ∀ leaf ∈ e.leaves, leaf.Plain)
    (hspelled : ∀ leaf ∈ e.leaves, leaf.Spelled base) :
    (e.setup owner h).verdict = base.verdictOf e := by
  cases e with
  | path ns root hops state =>
    obtain rfl := Expression.fresh_path hf
    have hmem : (⟨ns, root, hops, .pending⟩ : Leaf) ∈
        (Expression.path ns root hops .pending).leaves := List.mem_singleton.2 rfl
    have hfollow := Heap.leadsTo_path hg hopen (hspelled _ hmem) (hplain _ hmem)
    exact (Expression.verdict_path owner hopen hfollow).2
  | computed operation hops state =>
    have hrun := Expression.setup_eq_settleAll owner (.computed operation hops state) h hf
    have htold := Leaf.told_settleAll owner hopen _ h hg fun leaf hl =>
      ⟨hf.leaves leaf hl, hplain leaf hl, hspelled leaf hl⟩
    rw [hrun, told_of_verdict, Expression.leaves] at htold
    obtain ⟨_, rfl⟩ := Expression.fresh_computed hf
    rw [Heap.verdictOf, ← htold, Expression.setup_computed]
    simp only
    split <;> rfl

/-! ## The law -/

/-- Resolution does not depend on what was resolved before. In every open heap that can be made and
that is not ambiguous, setting up an expression first, whatever comes of it, does not change what
another one resolves to, as long as names after the first have no point, and the first names of the
other one have none or are there from the start. -/
theorem resolution_ignores_earlier_resolutions (h : Heap) (d e : Expression)
    (first second alone : String) (hr : h.Reachable) (hopen : h.finished = false)
    (hu : h.Unambiguous) (hd : d.Fresh) (he : e.Fresh) (hdplain : ∀ leaf ∈ d.leaves, leaf.Plain)
    (heplain : ∀ leaf ∈ e.leaves, leaf.Plain ∧ leaf.Spelled h) :
    (e.setup second (d.setup first h).heap).verdict = (e.setup alone h).verdict := by
  have hg : Grown h h := Grown.refl hr.sound hu
  have hgrown : Grown h (d.setup first h).heap := Expression.setup_grown first hopen hg hd hdplain
  rw [Expression.verdict_setup second hopen hgrown he (fun leaf hl => (heplain leaf hl).1)
      fun leaf hl => (heplain leaf hl).2,
    Expression.verdict_setup alone hopen hg he (fun leaf hl => (heplain leaf hl).1)
      fun leaf hl => (heplain leaf hl).2]

/-! ## Heaps to look at -/

/-- Asks for a number that has a name and is found under another one. -/
def Heap.Request.number (name : String) : Heap.Request :=
  .add name .models (.typed ⟨.scalar .int, .scalar .int, false, false, .direct⟩) none (some "other")

theorem Heap.sample_number_reachable (name : String) :
    (Heap.sample.after (Heap.Request.number name)).Reachable :=
  ⟨"rules", 10, [Heap.Request.company, Heap.Request.number name], rfl⟩

/-- After `Models.company.name`, `Models.company.boss.age` is still the age. -/
theorem resolution_ignores_earlier_resolutions_of_a_company :
    let d := Expression.ofModels "company" ["name"]
    let e := Expression.ofModels "company" ["boss", "age"]
    Heap.sample.Reachable ∧ Heap.sample.Unambiguous ∧
      (e.setup "second" (d.setup "first" Heap.sample).heap).verdict =
        (e.setup "alone" Heap.sample).verdict ∧
      (e.setup "alone" Heap.sample).subject.target? = some "company.boss.age" := by
  intro d e
  have honly : ∀ ns id v, Heap.sample.Registered ns id v → id = ⟨0⟩ ∧ v.name = "company" := by
    rintro ns id v ⟨⟨name, hl⟩, hv⟩
    rw [Heap.sample, Heap.lookup_withVariable] at hl
    simp only [Heap.lookup, Heap.empty, List.lookup_nil, Option.none_or] at hl
    split at hl
    · cases hl
      cases hv
      exact ⟨rfl, rfl⟩
    · cases hl
  have hu : Heap.sample.Unambiguous := by
    constructor
    · intro ns id other v w hv hw _
      rw [(honly ns id v hv).1, (honly ns other w hw).1]
    · intro ns id v hv hp
      rw [(honly ns id v hv).2] at hp
      exact absurd hp (by unfold Pointed; decide)
  have hplain : ∀ leaf ∈ e.leaves, leaf.Plain ∧ leaf.Spelled Heap.sample := by
    intro leaf hl
    obtain rfl := List.mem_singleton.1 hl
    refine ⟨?_, fun _ => rfl⟩
    unfold Leaf.Plain Pointed
    decide
  have hdplain : ∀ leaf ∈ d.leaves, leaf.Plain := by
    intro leaf hl
    obtain rfl := List.mem_singleton.1 hl
    unfold Leaf.Plain Pointed
    decide
  exact ⟨Heap.sample_reachable, hu, resolution_ignores_earlier_resolutions Heap.sample d e "first"
    "second" "alone" Heap.sample_reachable rfl hu rfl rfl hdplain hplain, rfl⟩

/-- A different status is a different verdict. -/
theorem verdict_ne {x y : Verdict} (status other : Except String String)
    (hx : x.map Prod.fst = status) (hy : y.map Prod.fst = other) (hne : status ≠ other) :
    x ≠ y := by
  rintro rfl
  exact hne (hx.symm.trans hy)

/-- Without these conditions it does. A path can spell the name of another one in a single
attribute, and two variables of one name lend each other their attributes, also when it is the name
of an attribute. -/
theorem resolution_depends_on_paths_that_spell_one_name :
    let changes (h : Heap) (d e : Expression) : Prop := h.Reachable ∧ h.finished = false ∧
      (e.setup "second" (d.setup "first" h).heap).verdict ≠ (e.setup "second" h).verdict
    Namespace.models.path ["company.name"] = .ok (Expression.ofModels "company.name" []) ∧
      changes Heap.sample (.ofModels "company" ["name"]) (.ofModels "company.name" []) ∧
      changes (Heap.sample.after (.number "company")) (.ofModels "company" ["name"])
        (.ofModels "other" ["name"]) ∧
      changes (Heap.sample.after (.number "company.boss")) (.ofModels "company" ["boss", "age"])
        (.ofModels "other" ["age"]) := by
  refine ⟨rfl, ⟨Heap.sample_reachable, rfl, ?_⟩, ⟨Heap.sample_number_reachable _, rfl, ?_⟩,
    ⟨Heap.sample_number_reachable _, rfl, ?_⟩⟩
  · exact verdict_ne (.ok "Ok") (.ok "ErrNotFound") rfl rfl (by simp)
  · exact verdict_ne (.ok "Ok") (.error "SetupValue") rfl rfl (by simp)
  · exact verdict_ne (.ok "Ok") (.error "SetupValue") rfl rfl (by simp)

end Formwork
