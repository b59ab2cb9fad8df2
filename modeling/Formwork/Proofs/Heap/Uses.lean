-- What setting up a container does to a heap. Variables are added under their own names, each in a
-- namespace whose turn it is, and models get second names. Components and their expressions only
-- use the heap: attributes of variables get variables of their own, and known variables learn who
-- refers to them and what they are bound to.
import Formwork.Proofs.Expression.Setup
import Formwork.Proofs.Heap.Growth

namespace Formwork

namespace Heap

/-! ## Steps -/

/-- A single step. Names that are not those of attributes come in the namespaces `mine` only. -/
inductive BuildStep (mine : Namespace → Prop) (h : Heap) : Heap → Prop where
  | member {ns : Namespace} {id : VarId} {v : Variable} {name : String} {d : Descriptor} :
    h.Registered ns id v → h.lookup ns (v.name ++ "." ++ name) = none →
    h.memberShape name v = .ok d → BuildStep mine h
      (h.withVariable (.fresh (v.name ++ "." ++ name) ns (.typed d)) (v.name ++ "." ++ name))
  /-- Nobody refers to a variable that expressions may not use. -/
  | refer {id : VarId} {v : Variable} (owner : String) :
    h.find? id = some v → v.denied = none →
    BuildStep mine h (h.withChange id fun v => v.refer owner)
  | bind (id : VarId) (b : Variable → BoundVar) :
    BuildStep mine h (h.withChange id fun v => v.bind (b v))
  | add {v : Variable} : mine v.ns → h.lookup v.ns v.name = none → v.references = [] →
    BuildStep mine h (h.withVariable v v.name)
  | named {id : VarId} {v : Variable} (name : String) : mine v.ns → h.find? id = some v →
    BuildStep mine h (h.withName v.ns name id)

/-- Any number of steps. -/
inductive Builds (mine : Namespace → Prop) : Heap → Heap → Prop where
  | refl (h : Heap) : Builds mine h h
  | step {h h' h'' : Heap} : Builds mine h h' → BuildStep mine h' h'' → Builds mine h h''

/-- Steps that only use a heap: no names are new but those of attributes. -/
abbrev Uses (h h' : Heap) : Prop := Builds (fun _ => False) h h'

variable {mine mine' : Namespace → Prop} {h h' h'' : Heap}

theorem BuildStep.builds (hb : BuildStep mine h h') : Builds mine h h' := .step (.refl h) hb

theorem Builds.trans (hb : Builds mine h h') (hb' : Builds mine h' h'') : Builds mine h h'' := by
  induction hb' with
  | refl => exact hb
  | step _ hs ih => exact .step ih hs

theorem BuildStep.mono (hb : BuildStep mine h h') (hm : ∀ ns, mine ns → mine' ns) :
    BuildStep mine' h h' := by
  cases hb with
  | member hv hl hd => exact .member hv hl hd
  | refer owner hv hd => exact .refer owner hv hd
  | bind id b => exact .bind id b
  | add hns hl hr => exact .add (hm _ hns) hl hr
  | named name hns hv => exact .named name (hm _ hns) hv

theorem Builds.mono (hb : Builds mine h h') (hm : ∀ ns, mine ns → mine' ns) :
    Builds mine' h h' := by
  induction hb with
  | refl => exact .refl h
  | step _ hs ih => exact .step ih (hs.mono hm)

/-- Using a heap is part of building it up, whatever is added. -/
theorem Uses.builds (hu : Uses h h') : Builds mine h h' := hu.mono fun _ => False.elim

/-! ## What all steps keep -/

theorem bind_core (v : Variable) (b : BoundVar) : (v.bind b).core = v.core := by
  unfold Variable.bind
  split <;> rfl

theorem bind_references (v : Variable) (b : BoundVar) : (v.bind b).references = v.references := by
  unfold Variable.bind
  split <;> rfl

theorem ns_of_core {v w : Variable} (h : w.core = v.core) : w.ns = v.ns := by
  cases v
  cases w
  simp_all [Variable.core]

theorem BuildStep.sound (hb : BuildStep mine h h') (hs : h.Sound) : h'.Sound := by
  cases hb with
  | member _ _ _ => exact hs.withVariable _ _
  | refer owner _ _ => exact hs.withChange _ fun v => rfl
  | bind id b => exact hs.withChange id fun v => bind_ns v (b v)
  | add _ _ _ => exact hs.withVariable _ _
  | named name _ hv => exact hs.withName hv name

theorem BuildStep.keeps (hb : BuildStep mine h h') : Keeps h h' := by
  cases hb with
  | member _ _ _ => exact Keeps.withVariable h _ _
  | refer owner _ _ => exact Keeps.withChange h _ fun v => rfl
  | bind id b => exact Keeps.withChange h id fun v => bind_core v (b v)
  | add _ _ _ => exact Keeps.withVariable h _ _
  | named name _ _ => exact Keeps.withName h _ name _

theorem Builds.keeps (hb : Builds mine h h') : Keeps h h' := by
  induction hb with
  | refl => exact Keeps.refl h
  | step _ hs ih => exact ih.trans hs.keeps

theorem Builds.sound (hb : Builds mine h h') (hs : h.Sound) : h'.Sound := by
  induction hb with
  | refl => exact hs
  | step _ hstep ih => exact hstep.sound ih

/-- Building a heap up does not finish it. -/
theorem Builds.finished (hb : Builds mine h h') : h'.finished = h.finished := by
  induction hb with
  | refl => rfl
  | step _ hs ih =>
    rw [← ih]
    cases hs <;> rfl

/-! ## Actions as steps -/

theorem uses_addBound (id : VarId) (b : BoundVar) (h : Heap) :
    Uses h ((addBound id b).run h).2 := by
  rcases addBound_cases id b h with ⟨e, he⟩ | ⟨v, _, _, he⟩
  · rw [he]
    exact .refl h
  · rw [he]
    exact (BuildStep.bind id fun _ => b).builds

/-- A variable under its own name, in one of the namespaces whose turn it is. -/
theorem builds_add {v : Variable} (hns : mine v.ns) (hr : v.references = []) (h : Heap) :
    Builds mine h ((add v none).run h).2 := by
  rcases add_cases v none h with ⟨e, he⟩ | ⟨_, hl, he⟩
  · rw [he]
    exact .refl h
  · rw [he]
    exact (BuildStep.add hns hl hr).builds

theorem builds_of_add {v : Variable} {id : VarId} (hns : mine v.ns) (hr : v.references = [])
    (hrun : (add v none).run h = (.ok id, h')) : Builds mine h h' := by
  have hb : Builds mine h ((add v none).run h).2 := builds_add hns hr h
  rwa [hrun] at hb

theorem variableAt_heap (id : VarId) (h : Heap) : ((variableAt id).run h).2 = h := by
  rw [run_variableAt]
  cases h.find? id <;> rfl

/-! ## What a step along a path has found -/

theorem memberVariable_ok {ns : Namespace} {name : String} {parent id : VarId} {v : Variable}
    (hv : h.find? parent = some v) (hr : (memberVariable ns name parent).run h = (.ok id, h')) :
    h'.lookup ns (v.name ++ "." ++ name) = some id := by
  rw [run_memberVariable hv] at hr
  rcases hl : h.lookup ns (v.name ++ "." ++ name) with _ | other
  · rw [hl] at hr
    rcases hd : h.memberShape name v with e | d
    · rw [hd] at hr
      cases hr
    · rw [hd] at hr
      exact (add_found hr).1
  · rw [hl] at hr
    cases hr
    exact hl

theorem attributeVariable_ok {ns : Namespace} {name : String} {parent : Option VarId} {id : VarId}
    (hr : (attributeVariable ns name parent).run h = (.ok id, h')) :
    (match parent with
      | some parent => memberVariable ns name parent
      | none => rootVariable ns name).run h = (.ok id, h') := by
  unfold attributeVariable at hr
  by_cases hu : name.toList.head? == some '_'
  · simp only [hu, if_true, Step.run_bind, Step.run_throw] at hr
    cases hr
  · simp only [hu, if_false, Bool.false_eq_true] at hr
    exact hr

/-- Expressions may use the variable that a step finds. -/
def Usable (h : Heap) (id : VarId) : Prop := ∃ v, h.find? id = some v ∧ v.denied = none

theorem step_ok {ns : Namespace} {parent : Option VarId} {hop : Hop} {id : VarId}
    (hr : (Heap.step ns parent hop).run h = (.ok id, h')) :
    (attributeVariable ns hop.name parent).run h = (.ok id, h') ∧ h'.Usable id := by
  rw [run_step] at hr
  obtain ⟨found, h₁, ha, hu⟩ := Step.run_bind_ok hr
  obtain ⟨v, h₂, hat, hlast⟩ := Step.run_bind_ok hu
  obtain ⟨hv, rfl⟩ := variableAt_ok hat
  rcases hd : v.denied with _ | reason <;> rw [hd] at hlast <;> cases hlast
  exact ⟨ha, v, hv, hd⟩

theorem members_usable {ns : Namespace} : ∀ (hops : List Hop) {h h' : Heap} {id last : VarId},
    h.Usable id → (hops.foldlM (fun id hop => step ns (some id) hop) id).run h = (.ok last, h') →
    h'.Usable last
  | [], _, _, _, _, hu, hr => by
    cases hr
    exact hu
  | hop :: rest, _, _, _, _, _, hr => by
    rw [List.foldlM_cons] at hr
    obtain ⟨_, _, hstep, hr⟩ := Step.run_bind_ok hr
    exact members_usable rest (step_ok hstep).2 hr

/-- Expressions may use the variable at the end of a path. -/
theorem follow_usable {ns : Namespace} {root : Hop} {hops : List Hop} {id : VarId}
    (hr : (follow ns root hops).run h = (.ok id, h')) : h'.Usable id := by
  obtain ⟨_, _, hstep, hr⟩ := Step.run_bind_ok hr
  exact members_usable hops (step_ok hstep).2 hr

/-! ## Following a path -/

/-- Variables of attributes that were asked for are added, one after the other. -/
inductive Adds (asked : Namespace → String → Prop) (h : Heap) : List Variable → Heap → Prop where
  | nothing : Adds asked h [] h
  | member {added : List Variable} {h' : Heap} {ns : Namespace} {id : VarId} {v : Variable}
      {name : String} {d : Descriptor} : Adds asked h added h' → asked ns name →
    h'.Registered ns id v → h'.lookup ns (v.name ++ "." ++ name) = none →
    h'.memberShape name v = .ok d →
    Adds asked h (added ++ [.fresh (v.name ++ "." ++ name) ns (.typed d)])
      (h'.withVariable (.fresh (v.name ++ "." ++ name) ns (.typed d)) (v.name ++ "." ++ name))

variable {asked : Namespace → String → Prop}

theorem Adds.trans {first second : List Variable} (ha : Adds asked h first h')
    (ha' : Adds asked h' second h'') : Adds asked h (first ++ second) h'' := by
  induction ha' with
  | nothing =>
    rw [List.append_nil]
    exact ha
  | member _ hasked hv hl hd ih =>
    rw [← List.append_assoc]
    exact .member ih hasked hv hl hd

theorem Adds.uses {added : List Variable} (ha : Adds asked h added h') : Uses h h' := by
  induction ha with
  | nothing => exact .refl h
  | member _ _ hv hl hd ih => exact .step ih (.member hv hl hd)

/-- A run adds variables of attributes that were asked for, and what it ends at is registered. -/
structure Walks (asked : Namespace → String → Prop) (ns : Namespace) (h : Heap)
    (run : Except Error VarId × Heap) : Prop where
  adds : ∃ added, Adds asked h added run.2
  registered : ∀ id, run.1 = .ok id → ∃ v, run.2.Registered ns id v

theorem Walks.uses {ns : Namespace} {run : Except Error VarId × Heap} (hw : Walks asked ns h run) :
    Uses h run.2 := by
  obtain ⟨_, ha⟩ := hw.adds
  exact ha.uses

/-- A run that fails where it stands. -/
theorem Walks.failed (asked : Namespace → String → Prop) (ns : Namespace) (h : Heap) (e : Error) :
    Walks asked ns h (.error e, h) :=
  ⟨⟨[], .nothing⟩, fun id hid => by cases hid⟩

/-- A run that ends where it stands. -/
theorem Walks.found {ns : Namespace} {id : VarId} {v : Variable} (hv : h.Registered ns id v) :
    Walks asked ns h (.ok id, h) :=
  ⟨⟨[], .nothing⟩, fun other ho => by cases ho; exact ⟨v, hv⟩⟩

theorem Walks.bind {ns : Namespace} {x : HeapAction VarId} {f : VarId → HeapAction VarId}
    (hx : Walks asked ns h (x.run h))
    (hf : ∀ id h' v, Uses h h' → h'.Registered ns id v → Walks asked ns h' ((f id).run h')) :
    Walks asked ns h ((x >>= f).run h) := by
  rw [Step.run_bind]
  have huses := hx.uses
  obtain ⟨⟨first, hadds⟩, hreg⟩ := hx
  rcases hr : x.run h with ⟨e | id, h'⟩
  · rw [hr] at hadds
    exact ⟨⟨first, hadds⟩, fun id hid => by cases hid⟩
  · rw [hr] at hadds huses hreg
    obtain ⟨v, hv⟩ := hreg id rfl
    obtain ⟨⟨second, hadds'⟩, hreg'⟩ := hf id h' v huses hv
    exact ⟨⟨first ++ second, hadds.trans hadds'⟩, hreg'⟩

theorem walks_usable {ns : Namespace} {id : VarId} {v : Variable} (hv : h.Registered ns id v) :
    Walks asked ns h ((usable id).run h) := by
  rw [usable, Step.run_bind, run_variableAt_of_some hv.2]
  rcases hd : v.denied with _ | reason
  · simp only [hd]
    exact Walks.found hv
  · simp only [hd]
    exact Walks.failed asked ns h _

theorem walks_attribute {ns : Namespace} (hs : h.Sound) (name : String) {parent : Option VarId}
    (hasked : parent.isSome → asked ns name)
    (hp : ∀ id, parent = some id → ∃ v, h.Registered ns id v) :
    Walks asked ns h ((attributeVariable ns name parent).run h) := by
  unfold attributeVariable
  by_cases hu : name.toList.head? == some '_'
  · simp only [hu, if_true, Step.run_bind, Step.run_throw]
    exact Walks.failed asked ns h _
  simp only [hu, if_false, Bool.false_eq_true]
  rcases parent with _ | id
  · rcases run_rootVariable ns name h with ⟨id, hl, hr⟩ | ⟨_, e, hr, _⟩
    · simp only [hr]
      obtain ⟨v, hv, _⟩ := hs ns name id hl
      exact Walks.found ⟨⟨name, hl⟩, hv⟩
    · simp only [hr]
      exact Walks.failed asked ns h e
  · obtain ⟨v, hv⟩ := hp id rfl
    simp only [run_memberVariable hv.2]
    rcases hl : h.lookup ns (v.name ++ "." ++ name) with _ | other
    · rcases hd : h.memberShape name v with e | d
      · exact Walks.failed asked ns h e
      · simp only
        rcases add_cases (.fresh (v.name ++ "." ++ name) ns (.typed d)) none h with
          ⟨e, he⟩ | ⟨_, _, he⟩
        · rw [he]
          exact Walks.failed asked ns h e
        · rw [he]
          refine ⟨⟨_, .member .nothing (hasked rfl) hv hl hd⟩, fun other ho => ?_⟩
          cases ho
          refine ⟨_, ⟨v.name ++ "." ++ name, ?_⟩, find?_withVariable_new h _ _⟩
          rw [lookup_withVariable]
          simp [Variable.fresh, hl]
    · obtain ⟨w, hw, _⟩ := hs ns _ other hl
      exact Walks.found ⟨⟨_, hl⟩, hw⟩

theorem walks_step {ns : Namespace} (hs : h.Sound) {parent : Option VarId} (hop : Hop)
    (hasked : parent.isSome → asked ns hop.name)
    (hp : ∀ id, parent = some id → ∃ v, h.Registered ns id v) :
    Walks asked ns h ((step ns parent hop).run h) :=
  (walks_attribute hs hop.name hasked hp).bind fun _ _ _ _ hv => walks_usable hv

theorem walks_members {ns : Namespace} :
    ∀ (hops : List Hop) (h : Heap) (id : VarId), h.Sound → (∀ hop ∈ hops, asked ns hop.name) →
      (∃ v, h.Registered ns id v) →
      Walks asked ns h ((hops.foldlM (fun id hop => step ns (some id) hop) id).run h)
  | [], h, id, _, _, ⟨v, hv⟩ => Walks.found hv
  | hop :: rest, h, id, hs, hasked, hv => by
    rw [List.foldlM_cons]
    refine (walks_step hs hop (fun _ => hasked hop List.mem_cons_self)
      fun other ho => by cases ho; exact hv).bind ?_
    intro next h' w huses hw
    exact walks_members rest h' next (huses.sound hs)
      (fun other ho => hasked other (List.mem_cons_of_mem _ ho)) ⟨w, hw⟩

/-- The attributes that a path asks for: all after the first name, in its namespace. -/
def AskedBy (ns : Namespace) (hops : List Hop) (space : Namespace) (name : String) : Prop :=
  space = ns ∧ ∃ hop ∈ hops, hop.name = name

theorem walks_path (ns : Namespace) (hs : h.Sound) (root : Hop) (hops : List Hop) :
    Walks (AskedBy ns hops) ns h ((follow ns root hops).run h) := by
  rw [follow]
  refine (walks_step hs root (fun hp => by cases hp) fun other ho => by cases ho).bind ?_
  intro id h' v huses hv
  exact walks_members hops h' id (huses.sound hs) (fun hop hm => ⟨rfl, hop, hm, rfl⟩) ⟨v, hv⟩

/-- Referring to a variable that expressions may use: it gets the reference if the heap is open. -/
theorem refer_cases {id : VarId} {v : Variable} (hv : h.find? id = some v) (owner : String) :
    (∃ e, (refer id owner).run h = (.error e, h)) ∨
      (refer id owner).run h = (.ok v.name, h.withChange id fun v => v.refer owner) := by
  have hfind : (h.withChange id fun v => v.refer owner).find? id = some (v.refer owner) := by
    rw [find?_withChange, if_pos rfl, hv]
    rfl
  rcases addReference_cases id owner h with ⟨e, he⟩ | ⟨_, _, _, he⟩
  · exact .inl ⟨e, by simp only [refer, Step.run_bind, he]⟩
  · refine .inr ?_
    simp only [refer, Step.run_bind, he, run_variableAt_of_some hfind]
    rfl

theorem uses_refer {id : VarId} (hu : h.Usable id) (owner : String) :
    Uses h ((refer id owner).run h).2 := by
  obtain ⟨v, hv, hd⟩ := hu
  rcases refer_cases hv owner with ⟨e, he⟩ | he
  · rw [he]
    exact .refl h
  · rw [he]
    exact (BuildStep.refer owner hv hd).builds

end Heap

/-! ## Setting up expressions -/

open Heap (Uses)

variable (owner : String)

/-- What setup of a path does to a heap: variables of its attributes are added, and if it resolves,
then the variable that it leads to gets a reference. -/
theorem Expression.setup_path_heap (ns : Namespace) (root : Hop) (hops : List Hop) {h : Heap}
    (hs : h.Sound) :
    ∃ added h₁, Heap.Adds (Heap.AskedBy ns hops) h added h₁ ∧
      ((∃ id v, (Heap.follow ns root hops).run h = (.ok id, h₁) ∧ h₁.find? id = some v ∧
          v.denied = none ∧ (Expression.path ns root hops .pending).setup owner h =
            ⟨.ok (some id),
              .path ns root hops (.resolved ⟨(root :: hops).map .attribute, some v.name⟩),
              h₁.withChange id fun v => v.refer owner⟩) ∨
        (((Expression.path ns root hops .pending).setup owner h).heap = h₁ ∧
          ((Expression.path ns root hops .pending).setup owner h).subject.state.isResolved =
            false)) := by
  obtain ⟨added, hadds⟩ := (Heap.walks_path ns hs root hops).adds
  rcases Expression.setup_path_cases owner ns root hops h with
    ⟨id, h₁, name, h₂, hf, hr, he⟩ | ⟨id, h₁, e, h₂, hf, hr, he⟩ | ⟨_, h₁, _, hf, hsoft, he⟩ |
      ⟨_, h₁, hf, _, he⟩
  all_goals rw [hf] at hadds
  · obtain ⟨v, hv, hd⟩ := Heap.follow_usable hf
    refine ⟨added, h₁, hadds, .inl ⟨id, v, hf, hv, hd, ?_⟩⟩
    rcases Heap.refer_cases hv owner with ⟨e, hrun⟩ | hrun <;> rw [hrun] at hr <;> cases hr
    exact he
  · obtain ⟨v, hv, _⟩ := Heap.follow_usable hf
    refine ⟨added, h₁, hadds, .inr ?_⟩
    rcases Heap.refer_cases hv owner with ⟨e, hrun⟩ | hrun <;> rw [hrun] at hr <;> cases hr
    rw [he]
    exact ⟨rfl, rfl⟩
  · refine ⟨added, h₁, hadds, .inr ?_⟩
    rw [he]
    exact ⟨rfl, (Error.softState?_failed hsoft).2⟩
  · refine ⟨added, h₁, hadds, .inr ?_⟩
    rw [he]
    exact ⟨rfl, rfl⟩

mutual

/-- Setup of an expression only uses the heap, whatever comes of it. -/
theorem Expression.uses_setup : ∀ (e : Expression) (h : Heap), h.Sound →
    Uses h (e.setup owner h).heap
  | .path ns root hops state, h, hs => by
    cases state with
    | pending =>
      obtain ⟨added, h₁, hadds, ⟨id, v, _, hv, hd, he⟩ | ⟨he, _⟩⟩ :=
        Expression.setup_path_heap owner ns root hops hs
      · rw [he]
        exact hadds.uses.trans (Heap.BuildStep.refer owner hv hd).builds
      · rw [he]
        exact hadds.uses
    | _ =>
      rw [(Expression.setup_again owner _ h rfl).2.1]
      exact .refl h
  | .computed operation hops state, h, hs => by
    cases state with
    | pending =>
      have ih := Operation.uses_setup operation h hs
      rw [Expression.setup_computed]
      simp only
      split <;> exact ih
    | _ =>
      rw [(Expression.setup_again owner _ h rfl).2.1]
      exact .refl h

theorem Operation.uses_setup : ∀ (operation : Operation) (h : Heap), h.Sound →
    Uses h (operation.setup owner h).heap
  | .negation operand state, h, hs => by
    cases state with
    | pending =>
      have ih := Operand.uses_setup operand h hs
      rw [Operation.setup_negation]
      simp only
      split <;> exact ih
    | _ =>
      rw [(Operation.setup_again owner _ h rfl).2.1]
      exact .refl h
  | .binary op left right state, h, hs => by
    cases state with
    | pending =>
      have ihl := Operand.uses_setup left h hs
      have ihr := Operand.uses_setup right (left.setup owner h).heap (ihl.sound hs)
      rw [Operation.setup_binary]
      simp only
      split
      · split <;> exact ihl.trans ihr
      · exact ihl
      · exact ihl
    | _ =>
      rw [(Operation.setup_again owner _ h rfl).2.1]
      exact .refl h

theorem Operand.uses_setup : ∀ (operand : Operand) (h : Heap), h.Sound →
    Uses h (operand.setup owner h).heap
  | .expression e, h, hs => by
    rw [Operand.setup_expression]
    exact Expression.uses_setup e h hs
  | .literal v, h, _ => by
    rw [Operand.setup_literal]
    exact .refl h

end

/-- The variable that setup finds is registered in the namespace of the expression. -/
theorem Expression.setup_registered {e : Expression} {h : Heap} {id : VarId} (hs : h.Sound)
    (ho : (e.setup owner h).outcome = .ok (some id)) :
    ∃ v, (e.setup owner h).heap.Registered e.ns id v := by
  have hp := Expression.pending_of_setup_ok owner ho
  cases e with
  | path ns root hops state =>
    obtain rfl : state = .pending := hp
    have hwalk := Heap.walks_path ns hs root hops
    obtain ⟨_, h₁, _, ⟨found, w, hf, hw, hd, he⟩ | ⟨_, hresolved⟩⟩ :=
      Expression.setup_path_heap owner ns root hops hs
    · rw [he] at ho
      cases ho
      rw [hf] at hwalk
      obtain ⟨v, hv⟩ := hwalk.registered id rfl
      have hk : Heap.Keeps h₁ (h₁.withChange id fun v => v.refer owner) :=
        Heap.Keeps.withChange h₁ id fun v => rfl
      obtain ⟨u, hu, _⟩ := hv.keeps hk
      exact ⟨u, by rw [he]; exact hu⟩
    · have hfound := ((Expression.setup_found owner _ h _ ho).1.1 rfl).2
      rw [hresolved] at hfound
      cases hfound
  | computed operation hops state =>
    obtain rfl : state = .pending := hp
    rw [Expression.setup_computed] at ho
    rcases hop : (operation.setup owner h).outcome with e | s <;> simp [hop] at ho

end Formwork
