-- The two ways to take choices from a function. A field names the function itself, or an
-- expression that leads to the data provider that is the function. Setup asks the function itself
-- for the shape of its result. A data provider that is a function counts as one without a shape, so
-- choices that are found through it are accepted as they are.
import Formwork.Proofs.Container.Readiness
import Formwork.Proofs.Expression.Independence

namespace Formwork

open Drafting

/-! ## Data providers that are functions -/

/-- The expression for a data provider. -/
def Expression.provided (name : String) : Expression :=
  .path .dataProviders ⟨name, none⟩ [] .pending

/-- The heap is still open, and a data provider in it that expressions may use is the function. -/
structure Heap.Offers (h : Heap) (name : String) (s : Signature) : Prop where
  unfinished : h.finished = false
  found : ∃ id v, h.lookup .dataProviders name = some id ∧ h.find? id = some v ∧
    v.data = .function s ∧ v.denied = none

variable {mine : Namespace → Prop} {name : String} {s : Signature}

/-- What a heap offers, it offers however it is built up. -/
theorem Heap.Offers.builds {h h' : Heap} (ho : h.Offers name s) (hb : Builds mine h h') :
    h'.Offers name s := by
  obtain ⟨hopen, id, v, hl, hv, hdata, hdenied⟩ := ho
  obtain ⟨w, hw, hcore⟩ := hb.keeps.kept id v hv
  obtain ⟨_, hsame, hfree⟩ := Variable.eq_of_core hcore
  exact ⟨hb.finished.trans hopen, id, w, hb.keeps.names _ _ _ hl, hw, hsame.trans hdata,
    hfree.trans hdenied⟩

theorem registerProvider_offers {draft draft' : Draft} {u : Unit}
    (hr : (registerProvider ⟨name, .function s⟩).run draft = (.ok u, draft')) :
    draft'.heap.Offers name s := by
  obtain ⟨data, draft₁, hdata, hr⟩ := Step.run_bind_ok hr
  cases hdata
  obtain ⟨id, draft₂, hadd, hr⟩ := Step.run_bind_ok hr
  cases hr
  obtain ⟨heap, hrun, rfl⟩ := onHeap_ok hadd
  rcases Heap.add_cases (.fresh name .dataProviders (.function s)) none draft.heap with
    ⟨e, he⟩ | ⟨hopen, hnew, he⟩ <;> rw [he] at hrun <;> cases hrun
  refine ⟨hopen, _, _, ?_, Heap.find?_withVariable_new _ _ _, rfl, rfl⟩
  show (draft.heap.withVariable _ name).lookup _ _ = _
  rw [Heap.lookup_withVariable, show draft.heap.lookup .dataProviders name = none from hnew]
  exact if_pos rfl

/-- Every data provider that is a function is on offer when all of them are registered. -/
theorem registerProviders_offer {providers : List DataVar} {draft draft' : Draft} {u : Unit}
    (hs : draft.heap.Sound)
    (hr : (providers.forM registerProvider).run draft = (.ok u, draft'))
    (hm : ⟨name, .function s⟩ ∈ providers) : draft'.heap.Offers name s := by
  induction providers generalizing draft with
  | nil => cases hm
  | cons d rest ih =>
    obtain ⟨_, draft₁, hfirst, hrest⟩ := Step.run_bind_ok hr
    have hsound := ((onlyBuilds_registerProvider d).builds hs hfirst).heap.sound hs
    rcases List.mem_cons.1 hm with rfl | hm
    · have hbuilds := (onlyBuilds_forM onlyBuilds_registerProvider rest).builds hsound hrest
      exact (registerProvider_offers hfirst).builds hbuilds.heap
    · exact ih hsound hrest hm

/-- The draft is one that a container hands to its components while it is set up: its models are
entered, the data providers are registered, and what came after that gave components their variables
and used the heap. -/
def Draft.Serves (providers : List DataVar) (draft : Draft) : Prop :=
  ∃ p model enter result entered provided, Enters p model enter ∧
    enter.run (Draft.start p) = (.ok result, entered) ∧
    (providers.forM registerProvider).run entered = (.ok (), provided) ∧
    Draft.Builds (· = .fields) provided draft

theorem Draft.Serves.offers {providers : List DataVar} {draft : Draft} (h : draft.Serves providers)
    (hm : ⟨name, .function s⟩ ∈ providers) : draft.heap.Sound ∧ draft.heap.Offers name s := by
  obtain ⟨p, model, enter, ⟨_, main⟩, entered, provided, henter, hr, hprovide, hb⟩ := h
  obtain ⟨_, hregisters⟩ := henter.registers hr
  have hentered := (hregisters.builds (start_sound p)).sound (start_sound p)
  have hprovided := ((onlyBuilds_forM onlyBuilds_registerProvider providers).builds hentered
    hprovide).heap.sound hentered
  exact ⟨hb.heap.sound hprovided, (registerProviders_offer hentered hprovide hm).builds hb.heap⟩

/-! ## Finding the data provider -/

theorem head_of_isIdentifier (h : isIdentifier name) : (name.toList.head? == some '_') = false := by
  unfold isIdentifier at h
  rcases hname : name.toList with _ | ⟨first, rest⟩
  · rfl
  · rw [hname, Bool.and_eq_true] at h
    rw [List.head?_cons, beq_eq_false_iff_ne]
    rintro ⟨⟩
    exact absurd h.1 (by decide)

/-- The path to what is offered ends at it. -/
theorem Heap.Offers.follow {h : Heap} (ho : h.Offers name s) (hname : isIdentifier name) :
    ∃ id v, (Heap.follow .dataProviders ⟨name, none⟩ []).run h = (.ok id, h) ∧
      h.find? id = some v ∧ v.data = .function s := by
  obtain ⟨_, id, v, hl, hv, hdata, hdenied⟩ := ho
  refine ⟨id, v, ?_, hv, hdata⟩
  have hroot : (Heap.rootVariable .dataProviders name).run h = (.ok id, h) := by
    rcases Heap.run_rootVariable .dataProviders name h with ⟨found, hfound, hr⟩ | ⟨hnone, _⟩
    · rw [hl] at hfound
      cases hfound
      exact hr
    · rw [hl] at hnone
      cases hnone
  have husable : (Heap.usable id).run h = (.ok id, h) := by
    rw [Heap.usable, Step.run_bind, Heap.run_variableAt_of_some hv]
    simp only [hdenied]
    rfl
  rw [Heap.follow, Step.run_bind, Heap.run_step, Step.run_bind, Heap.attributeVariable,
    head_of_isIdentifier hname]
  simp only [Bool.false_eq_true, if_false, hroot, husable]
  rfl

/-- An expression that setup resolves is settled. -/
theorem run_settle_of_resolved {owner : String} {e e' : Expression} {found : Option VarId}
    {draft : Draft} {heap : Heap} (hpending : e.state.isPending)
    (hsetup : e.setup owner draft.heap = ⟨.ok found, e', heap⟩) (hresolved : e'.state.isResolved) :
    (settle owner e).run draft = (.ok (e', found), { draft with heap }) := by
  have hresolve : (resolve owner e).run draft = (.ok (e', found), { draft with heap }) := by
    simp only [resolve, Step.run_mk, hsetup]
    rfl
  simp only [settle, hpending, Bool.not_true, Bool.false_eq_true, if_false, Step.run_bind,
    hresolve, hresolved]
  rfl

/-- An expression for what is offered leads there, and the variable stays a function. -/
theorem Heap.Offers.run_settle {draft : Draft} (ho : draft.heap.Offers name s)
    (hname : isIdentifier name) (owner : String) :
    ∃ e id v draft', (settle owner (.provided name)).run draft = (.ok (e, some id), draft') ∧
      draft'.heap.find? id = some v ∧ v.data = .function s := by
  obtain ⟨id, v, hfollow, hv, hdata⟩ := ho.follow hname
  have hsetup : (Expression.provided name).setup owner draft.heap =
      ⟨.ok (some id), .path .dataProviders ⟨name, none⟩ []
        (.resolved ⟨[.attribute ⟨name, none⟩], some v.name⟩),
        draft.heap.withChange id fun v => v.refer owner⟩ := by
    simp only [Expression.provided, Expression.setup, hfollow, Expression.conclude,
      Heap.run_refer owner ho.unfinished hv]
    rfl
  refine ⟨_, id, v.refer owner, _, run_settle_of_resolved rfl hsetup rfl, ?_, hdata⟩
  dsimp only
  rw [Heap.find?_withChange, if_pos rfl, hv]
  rfl

/-! ## What setup makes of choices -/

/-- The field with such choices. -/
def Field.withChoices (f : Field) (spec : ChoiceSpec) : Field := { f with kind := .choice spec }

/-- The field that takes anything. -/
def Field.plain (f : Field) : Field := { f with kind := .input }

/-- The states of the attributes that are stored and shown. -/
def ChoiceSpec.statuses (spec : ChoiceSpec) : Option String × Option String :=
  (spec.value.map (·.state.status), spec.label.map (·.state.status))

/-- What comes of choices: the states of their attributes, or the kind of the error. -/
def ChoiceSpec.verdict : Except Error ChoiceSpec → Except String (Option String × Option String)
  | .ok spec => .ok spec.statuses
  | .error e => .error e.kindName

/-- What comes of the setup of a field: the states of the attributes of its choices if it has some,
or the kind of the error. -/
def Field.verdict (config : Config) (f : Field) (draft : Draft) :
    Except String (Option (Option String × Option String)) :=
  match ((setupField config f).run draft).1 with
  | .ok f' => .ok (f'.kind.choices?.map ChoiceSpec.statuses)
  | .error e => .error e.kindName

variable {config : Config} {f : Field} {draft : Draft} {value label : Option Expression}

/-- The owner of an error is of no concern to what is made of a result. -/
theorem ownedBy_map {α β : Type} (owner : String) (step : Drafting α) (g : α → β) :
    Drafting.ownedBy owner (do return g (← step)) =
      (do return g (← Drafting.ownedBy owner step)) := by
  funext draft
  show (Drafting.ownedBy owner _).run draft = (Drafting.ownedBy owner step >>= _).run draft
  simp only [Drafting.ownedBy, Step.run_adapt, Step.run_bind]
  rcases step.run draft with ⟨e | a, draft'⟩ <;> rfl

/-- The choices of a field are set up last, and need nothing of what is known of the field. -/
theorem setupField_withChoices (spec : ChoiceSpec) :
    setupField config (f.withChoices spec) = (do
      let plain ← setupField config f.plain
      let spec ← Drafting.ownedBy f.name (settleChoices f.name config.maxSuggestions spec)
      return plain.withChoices spec) := by
  have hkind : ∀ d default,
      Drafting.ownedBy f.name (settleKind config (f.withChoices spec) d default) = (do
        return .choice (← Drafting.ownedBy f.name
          (settleChoices f.name config.maxSuggestions spec))) :=
    fun d default => ownedBy_map f.name (settleChoices f.name config.maxSuggestions spec)
      FieldKind.choice
  have hplain : ∀ d default,
      Drafting.ownedBy f.name (settleKind config f.plain d default) = pure .input :=
    fun _ _ => rfl
  have hbind : bindField (f.withChoices spec) = bindField f.plain := rfl
  have hname : (f.withChoices spec).name = f.name := rfl
  have hname' : f.plain.name = f.name := rfl
  unfold setupField
  simp only [hbind, hname, hname', hkind, hplain, bind_assoc, pure_bind]
  rfl

/-- Where the field could take anything, its choices alone decide what comes of it. -/
theorem verdict_withChoices (spec : ChoiceSpec) :
    (f.withChoices spec).verdict config draft =
      match (setupField config f.plain).run draft with
      | (.error e, _) => .error e.kindName
      | (.ok _, draft') => (ChoiceSpec.verdict
          ((settleChoices f.name config.maxSuggestions spec).run draft').1).map some := by
  unfold Field.verdict
  rw [setupField_withChoices, Step.run_bind]
  rcases (setupField config f.plain).run draft with ⟨e | plain, draft'⟩
  · rfl
  · dsimp only
    rw [Step.run_bind, Drafting.ownedBy, Step.run_adapt]
    rcases (settleChoices f.name config.maxSuggestions spec).run draft' with ⟨e | spec', draft''⟩
    · exact congrArg Except.error (Error.kindName_withOwner f.name e)
    · rfl

/-- Choices that a function gives are those of its result, if it has a shape. -/
theorem run_settleChoices_function (owner : String) (limit : Nat) :
    (settleChoices owner limit ⟨.function s, value, label⟩).run draft =
      (s.result >>= fun record => resolveChoiceAttrs ⟨.function s, value, label⟩ record limit,
        draft) := by
  simp only [settleChoices, Step.run_bind, Step.run_ofExcept]
  rcases s.result with e | record <;> rfl

/-- Choices behind a data provider that is a function are taken as they are. -/
theorem Heap.Offers.run_settleChoices (ho : draft.heap.Offers name s) (hname : isIdentifier name)
    (owner : String) (limit : Nat) (value label : Option Expression) :
    ∃ e draft', (settleChoices owner limit ⟨.expression (.provided name), value, label⟩).run draft =
      (.ok ⟨.expression e, value, label⟩, draft') := by
  obtain ⟨e, id, v, draft', hsettle, hv, hdata⟩ := ho.run_settle hname owner
  have hat : (onHeap (Heap.variableAt id)).run draft' = (.ok v, draft') := by
    simp only [onHeap, Step.run_mk, Heap.run_variableAt_of_some hv]
  have hshape : v.descriptor? = none := by
    rw [Variable.descriptor?, hdata]
    rfl
  refine ⟨e, draft', ?_⟩
  simp only [settleChoices, Step.run_bind, hsettle, hat, hshape]
  rfl

/-- Resolving the attributes leaves their states as they were only if there are none; then a list
is all that is asked for. -/
theorem verdict_resolveChoiceAttrs_same_iff {choices : Choices} {record : Descriptor}
    {limit : Nat} :
    ChoiceSpec.verdict (resolveChoiceAttrs ⟨choices, value, label⟩ record limit) =
        .ok (value.map (·.state.status), label.map (·.state.status)) ↔
      value = none ∧ label = none ∧ record.isList := by
  constructor
  · intro hsame
    rcases hresolve : resolveChoiceAttrs ⟨choices, value, label⟩ record limit with e | spec'
    · rw [hresolve] at hsame
      cases hsame
    · rw [hresolve] at hsame
      injection hsame with hsame
      injection hsame with hvalue' hlabel'
      obtain ⟨hlist, _, hvalue, hlabel⟩ := resolveChoiceAttrs_ok hresolve
      -- What is resolved has another status than before.
      have hnone : ∀ {o o' : Option Expression},
          Option.Rel (fun e e' => e.state = .pending ∧ e'.Ready) o o' →
          o'.map (·.state.status) = o.map (·.state.status) → o = none := by
        intro o o' hrel hstatus
        cases hrel with
        | none => rfl
        | some h =>
          simp only [Option.map_some, Option.some.injEq, h.1, h.2.status] at hstatus
          exact absurd hstatus (by decide)
      exact ⟨hnone hvalue hvalue', hnone hlabel hlabel', hlist⟩
  · rintro ⟨rfl, rfl, hlist⟩
    simp only [resolveChoiceAttrs, hlist]
    rfl

/-- The choices that a function gives are taken as they are only if there is nothing to ask of them:
they have no attributes, and the result of the function is a list. -/
theorem verdict_function_same_iff (limit : Nat) :
    ChoiceSpec.verdict
        (s.result >>= fun record => resolveChoiceAttrs ⟨.function s, value, label⟩ record limit) =
        .ok (value.map (·.state.status), label.map (·.state.status)) ↔
      value = none ∧ label = none ∧ ∃ record, s.result = .ok record ∧ record.isList := by
  rcases hresult : s.result with e | record
  · refine iff_of_false (fun h => by cases h) ?_
    rintro ⟨_, _, _, h, _⟩
    cases h
  · refine verdict_resolveChoiceAttrs_same_iff.trans ?_
    constructor
    · rintro ⟨hvalue, hlabel, hlist⟩
      exact ⟨hvalue, hlabel, record, rfl, hlist⟩
    · rintro ⟨hvalue, hlabel, _, h, hlist⟩
      cases h
      exact ⟨hvalue, hlabel, hlist⟩

/-! ## A home to look at -/

/-- A function that gives a text, and so no list of anything. -/
def Signature.home : Signature := ⟨"home", [], some (.plain (.scalar .str)), none⟩

/-- The function as a data provider. -/
def DataVar.home : DataVar := ⟨"home", .function .home⟩

/-- An office that provides the function, and takes choices for a country from somewhere. -/
def Container.housed (choices : Choices) : Container :=
  .mk .sample (.declared .sample
    [.ofField (Field.country.withChoices ⟨choices, none, none⟩) [] []] [.home] [])

/-- The office when its model and the function are registered. -/
def Draft.housed : Draft :=
  (([.home].forM registerProvider).run
    ((registerTree "office" .sample).run (Draft.start .sample)).2).2

theorem Draft.housed_serves : Draft.housed.Serves [.home] := by
  have hentered : ((registerTree "office" .sample).run (Draft.start .sample)).1.isOk := by
    decide +kernel
  have hprovided : (([.home].forM registerProvider).run
      ((registerTree "office" .sample).run (Draft.start .sample)).2).1.isOk := by
    decide +kernel
  unfold Draft.housed
  rcases hr : (registerTree "office" .sample).run (Draft.start .sample) with ⟨_ | result, entered⟩
  · rw [hr] at hentered
    cases hentered
  · rw [hr] at hprovided
    rcases hr' : ([.home].forM registerProvider).run entered with
      ⟨_ | ⟨⟩, provided⟩
    · rw [hr'] at hprovided
      cases hprovided
    · refine ⟨.sample, .sample, _, result, entered, provided, .ruleSet .sample, hr, hr', ?_⟩
      dsimp only
      rw [hr']
      exact .refl _

/-! ## The law -/

/-- The two ways to take choices from a function agree only on choices that they have nothing to ask
of. Let a field be set up in a container that has the function as a data provider too, under a
proper name. With choices behind the data provider the field is accepted whenever it would be
accepted as one that takes anything, and the attributes of its choices stay as they are. With the
function itself the same comes of it exactly if the field is refused anyway, or if there are no
attributes of choices and the result of the function is a list. -/
theorem two_ways_to_take_choices_agree_iff {providers : List DataVar}
    (hserves : draft.Serves providers) (hprovider : ⟨name, .function s⟩ ∈ providers)
    (hname : isIdentifier name) :
    (f.withChoices ⟨.expression (.provided name), value, label⟩).verdict config draft =
        (f.plain.verdict config draft).map
          (fun _ => some (value.map (·.state.status), label.map (·.state.status))) ∧
      ((f.withChoices ⟨.function s, value, label⟩).verdict config draft =
          (f.withChoices ⟨.expression (.provided name), value, label⟩).verdict config draft ↔
        (∃ kind, f.plain.verdict config draft = .error kind) ∨
          value = none ∧ label = none ∧ ∃ record, s.result = .ok record ∧ record.isList) := by
  obtain ⟨hsound, hoffers⟩ := hserves.offers hprovider
  have hbuilds := onlyUses_setupField config f.plain draft hsound
  rw [verdict_withChoices, verdict_withChoices, Field.verdict]
  rcases hr : (setupField config f.plain).run draft with ⟨e | plain, draft'⟩
  · exact ⟨rfl, iff_of_true rfl (.inl ⟨_, rfl⟩)⟩
  · rw [hr] at hbuilds
    obtain ⟨e, draft'', hprovided⟩ := (hoffers.builds hbuilds.heap).run_settleChoices hname f.name
      config.maxSuggestions value label
    dsimp only
    rw [run_settleChoices_function, hprovided]
    have hplain : ¬ ∃ kind, (Except.ok (plain.kind.choices?.map ChoiceSpec.statuses) :
        Except String (Option (Option String × Option String))) = .error kind := by
      rintro ⟨_, h⟩
      cases h
    have hsome : ∀ {x y : Except String (Option String × Option String)},
        x.map some = y.map some ↔ x = y := by
      intro x y
      rcases x with x | x <;> rcases y with y | y <;> simp [Except.map]
    rw [or_iff_right hplain]
    exact ⟨rfl, hsome.trans (verdict_function_same_iff config.maxSuggestions)⟩

/-- Setup refuses a text as choices only if it is asked of the function itself. -/
theorem two_ways_to_take_choices_agree_iff_they_are_no_home :
    Draft.housed.Serves [.home] ∧ isIdentifier "home" ∧
      (Field.country.withChoices ⟨.function .home, none, none⟩).verdict .standard .housed ≠
        (Field.country.withChoices ⟨.expression (.provided "home"), none, none⟩).verdict .standard
          .housed := by
  have hname : isIdentifier "home" := by decide
  refine ⟨Draft.housed_serves, hname, fun hagree => ?_⟩
  have hok : (Field.country.plain.verdict .standard .housed).isOk := by decide +kernel
  rcases (two_ways_to_take_choices_agree_iff Draft.housed_serves (List.mem_singleton_self _)
    hname).2.1 hagree with ⟨kind, hplain⟩ | ⟨_, _, record, hresult, hlist⟩
  · rw [hplain] at hok
    cases hok
  · cases hresult
    cases hlist

/-- The two ways disagree: setup refuses an office with the function as choices, since they are no
list, and accepts one that finds the same function among its data providers. -/
theorem two_ways_to_take_choices_disagree_on_a_home :
    (Container.housed (.function .home)).setup.1.mapError Error.kindName = .error "SetupValue" ∧
      (Container.housed (.expression (.provided "home"))).setup.1 = .ok () := by
  decide +kernel

end Formwork
