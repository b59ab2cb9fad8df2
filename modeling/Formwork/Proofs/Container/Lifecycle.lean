-- The life of a container. It is declared, it is set up once, and from then on it is finished or
-- failed and nothing changes any more. Extensions live with the rule set that they stand in: the
-- setup of the rule set comes to each of them in turn, takes it over, gives it the configuration of
-- the rule set, and fails where one of them fails.
import Formwork.Proofs.Container.Links
import Formwork.Proofs.Container.Owners
import Formwork.Proofs.Container.Readiness

namespace Formwork

open Drafting

/-! ## Requests -/

/-- What a container can be asked for that may change it. -/
inductive Request where
  | setup
  | addGroup (group : Group) (inside : List Component) (rules : List Validation)

namespace Container

/-- The answer of a container, and the container after it. -/
def serve (c : Container) : Request → Except Error Unit × Container
  | .setup => c.setup
  | .addGroup group inside rules =>
    match c.addGroup group inside rules with
    | .ok c' => (.ok (), c')
    | .error e => (.error e, c)

/-- The container after one request after the other. -/
def after (c : Container) (requests : List Request) : Container :=
  requests.foldl (fun c request => (c.serve request).2) c

/-- Whether the container was not set up yet. -/
def isDeclared (c : Container) : Bool :=
  match c.phase with
  | .declared .. => true
  | _ => false

/-- Whether setup has failed. -/
def isFailed (c : Container) : Bool :=
  match c.phase with
  | .failed => true
  | _ => false

variable {c : Container}

theorem heap?_isSome (c : Container) : c.heap?.isSome = c.isFinished := by
  obtain ⟨p, _ | ⟨_, _⟩ | _⟩ := c <;> rfl

theorem tree?_isSome (c : Container) : c.tree?.isSome = c.isFinished := by
  obtain ⟨p, _ | ⟨_, _⟩ | _⟩ := c <;> rfl

/-- An extension is set up by its rule set only. -/
theorem setup_extension (h : c.profile.role ≠ .ruleSet) : ∃ e, c.setup = (.error e, c) := by
  unfold setup
  split
  · exact ⟨_, rfl⟩
  · exact absurd ‹_› h
  · exact absurd ‹_› h

/-- A container that was set up is not set up again. -/
theorem setup_settled (h : c.isDeclared = false) : ∃ e, c.setup = (.error e, c) := by
  obtain ⟨p, _ | ⟨heap, tree⟩ | _⟩ := c
  · cases h
  all_goals
    rcases hrole : p.role with _ | owner
    · exact ⟨_, by simp only [setup, profile, hrole]; rfl⟩
    · exact setup_extension (by simp [profile, hrole])

/-- All that can come of a request: it is refused and changes nothing, or a rule set that is still
declared is set up, or a container that is still declared gets a group. -/
theorem serve_cases (c : Container) (request : Request) :
    (∃ e, c.serve request = (.error e, c)) ∨
      ∃ p model contents providers rules, c = .mk p (.declared model contents providers rules) ∧
        ((p.role = .ruleSet ∧ c.serve request = conclude p
            ((assemble (setupLevels (levelsOfAll contents + 1)) p (registerTree p.name model)
              contents providers rules).run (Draft.start p)) ∧ request = .setup) ∨
          ∃ more, c.serve request = (.ok (), .mk p (.declared model more providers rules))) := by
  cases request with
  | setup =>
    obtain ⟨p, ⟨model, contents, providers, rules⟩ | ⟨_, _⟩ | _⟩ := c
    · rcases hrole : p.role with _ | owner
      · exact .inr ⟨p, model, contents, providers, rules, rfl, .inl ⟨hrole, setup_ruleSet hrole, rfl⟩⟩
      · exact .inl (setup_extension (by simp [profile, hrole]))
    · exact .inl (setup_settled rfl)
    · exact .inl (setup_settled rfl)
  | addGroup group inside added =>
    obtain ⟨p, ⟨model, contents, providers, rules⟩ | ⟨_, _⟩ | _⟩ := c
    · rcases hadd : (mk p (.declared model contents providers rules)).addGroup group inside added
        with e | c'
      · exact .inl ⟨e, by rw [serve, hadd]⟩
      · refine .inr ⟨p, model, contents, providers, rules, rfl, .inr
          ⟨contents ++ [.ofGroup group inside added], ?_⟩⟩
        rw [serve, hadd]
        simp only [addGroup] at hadd
        split at hadd
        · cases hadd
        · cases hadd
          rfl
    · exact .inl ⟨_, rfl⟩
    · exact .inl ⟨_, rfl⟩

/-- A container that was set up refuses everything, and stays as it is. -/
theorem serve_settled (h : c.isDeclared = false) (request : Request) :
    ∃ e, c.serve request = (.error e, c) := by
  rcases c.serve_cases request with hrefused | ⟨p, model, contents, providers, rules, rfl, _⟩
  · exact hrefused
  · cases h

theorem after_settled (h : c.isDeclared = false) (requests : List Request) :
    c.after requests = c := by
  induction requests with
  | nil => rfl
  | cons request rest ih =>
    obtain ⟨e, he⟩ := serve_settled h request
    rw [after, List.foldl_cons, he]
    exact ih

/-- Concluding a setup keeps what the container is. -/
theorem conclude_profile (p : Profile) (result : Except Error Tree × Draft) :
    (conclude p result).2.profile.role = p.role ∧
      (conclude p result).2.profile.config = p.config := by
  obtain ⟨e | tree, draft⟩ := result <;> exact ⟨rfl, rfl⟩

theorem conclude_of_isFinished {p : Profile} {result : Except Error Tree × Draft}
    (h : (conclude p result).2.isFinished) :
    conclude p result = (.ok (), (conclude p result).2) := by
  obtain ⟨e | tree, draft⟩ := result
  · cases h
  · rfl

/-- A setup that ends in an error leaves a failed container behind. -/
theorem conclude_error {p : Profile} {result : Except Error Tree × Draft} {e : Error}
    (h : result.1 = .error e) :
    ∃ c, conclude p result = (.error (e.withOwner p.name), c) ∧ c.isFailed := by
  obtain ⟨outcome, draft⟩ := result
  obtain rfl : outcome = .error e := h
  exact ⟨_, rfl, rfl⟩

theorem serve_profile (c : Container) (request : Request) :
    (c.serve request).2.profile.role = c.profile.role ∧
      (c.serve request).2.profile.config = c.profile.config := by
  rcases c.serve_cases request with
    ⟨e, he⟩ | ⟨p, _, _, _, _, rfl, ⟨_, he, _⟩ | ⟨more, he⟩⟩
  · rw [he]
    exact ⟨rfl, rfl⟩
  · rw [he]
    exact conclude_profile p _
  · rw [he]
    exact ⟨rfl, rfl⟩

/-- A container keeps its role and its configuration, whatever it is asked for. -/
theorem after_profile (c : Container) (requests : List Request) :
    (c.after requests).profile.role = c.profile.role ∧
      (c.after requests).profile.config = c.profile.config := by
  induction requests generalizing c with
  | nil => exact ⟨rfl, rfl⟩
  | cons request rest ih =>
    obtain ⟨hrole, hconfig⟩ := ih (c.serve request).2
    obtain ⟨hrole', hconfig'⟩ := serve_profile c request
    exact ⟨hrole.trans hrole', hconfig.trans hconfig'⟩

/-- A container that is finished in the end was set up at some time. -/
theorem setup_of_isFinished {requests : List Request} (hnew : c.isDeclared)
    (h : (c.after requests).isFinished) : ∃ d : Container, d.setup = (.ok (), c.after requests) := by
  induction requests generalizing c with
  | nil =>
    obtain ⟨p, _ | ⟨_, _⟩ | _⟩ := c
    · cases h
    · cases hnew
    · cases h
  | cons request rest ih =>
    have hstep : c.after (request :: rest) = (c.serve request).2.after rest := rfl
    rcases hdeclared : (c.serve request).2.isDeclared with _ | _
    · -- The first request was one for setup; what comes after it changes nothing.
      rw [hstep, after_settled hdeclared] at h ⊢
      rcases c.serve_cases request with
        ⟨e, he⟩ | ⟨p, model, contents, providers, rules, rfl, ⟨hrole, he, _⟩ | ⟨more, he⟩⟩
      · rw [he, hnew] at hdeclared
        cases hdeclared
      · rw [he] at h ⊢
        exact ⟨_, (setup_ruleSet hrole).trans (conclude_of_isFinished h)⟩
      · rw [he] at hdeclared
        cases hdeclared
    · rw [hstep] at h ⊢
      exact ih hdeclared h

end Container

/-! ## Extensions inside a setup -/

theorem setupNodes_append (extend : ExtensionSetup) (config : Config) (before rest : List Node) :
    setupNodes extend config (before ++ rest) = (do
      let first ← setupNodes extend config before
      return first ++ (← setupNodes extend config rest)) := by
  induction before with
  | nil => simp [setupNodes]
  | cons node before ih => simp [setupNodes, ih]

/-- What one container is assembled from, with room for a number of levels of extensions. -/
structure Job where
  levels : Nat
  profile : Profile
  enter : Drafting (ModelTree × Descriptor)
  contents : List Component
  providers : List DataVar
  rules : List Validation

namespace Job

/-- Doing the job. -/
def run (j : Job) : Except Error Tree × Draft :=
  (assemble (Container.setupLevels j.levels) j.profile j.enter j.contents j.providers j.rules).run
    (Draft.start j.profile)

/-- The job of setting up a rule set. -/
def ofRuleSet (p : Profile) (model : ModelTree) (contents : List Component)
    (providers : List DataVar) (rules : List Validation) : Job :=
  ⟨levelsOfAll contents + 1, p, registerTree p.name model, contents, providers, rules⟩

/-- The job of setting up an extension in the heap of the container around it. -/
def ofExtension (levels : Nat) (config : Config) (outer : Heap) (p : Profile) (model : ModelTree)
    (contents : List Component) (providers : List DataVar) (rules : List Validation) : Job :=
  let link := linkOuter p.name model.model outer
  ⟨levels, { p with config }, enterExtension p.name link.subject model.nested link.outcome, contents,
    providers, rules⟩

/-- All that the job does before it comes to the component at a position. -/
def upTo (j : Job) (position : Nat) : Drafting (Option Part) := do
  let (model, _) ← j.enter
  j.providers.forM registerProvider
  let tree ← ofExcept (Tree.ofDeclaration j.profile model j.contents j.providers j.rules)
  registerNodes tree.nodes
  let _ ← setupNodes (Container.setupLevels j.levels) j.profile.config (tree.nodes.take position)
  return (tree.get? position).bind (·.part)

/-- The job comes to an extension among its components, when the heap has become `outer`. -/
def ComesTo (j : Job) (inner : Container) (outer : Heap) : Prop :=
  ∃ position draft, (j.upTo position).run (Draft.start j.profile) =
    (.ok (some (.extension inner)), draft) ∧ draft.heap = outer

/-- The attempt to set up an extension is made by the job, or by the job of an extension that this
one comes to, at any depth. -/
inductive Makes : Job → Attempt Container Unit → Prop where
  | here {j : Job} {inner : Container} {outer : Heap} : j.ComesTo inner outer →
    Makes j (Container.setupLevels j.levels j.profile.config inner outer)
  | inside {levels : Nat} {j : Job} {p : Profile} {model : ModelTree} {contents : List Component}
    {providers : List DataVar} {rules : List Validation} {outer : Heap} {owner : Option String}
    {attempt : Attempt Container Unit} : j.levels = levels + 1 → p.role = .extension owner →
    j.ComesTo (.mk p (.declared model contents providers rules)) outer →
    Makes (.ofExtension levels j.profile.config outer p model contents providers rules) attempt →
    Makes j attempt

/-- A job fails where it comes to an extension whose setup fails. -/
theorem ComesTo.error {j : Job} {inner : Container} {outer : Heap} (h : j.ComesTo inner outer)
    {e : Error}
    (he : (Container.setupLevels j.levels j.profile.config inner outer).outcome = .error e) :
    ∃ e', j.run.1 = .error e' := by
  obtain ⟨position, draft, hupTo, rfl⟩ := h
  obtain ⟨⟨model, main⟩, entered, henter, hafterEnter⟩ := Step.run_bind_ok hupTo
  obtain ⟨_, provided, hprovide, hafterProvide⟩ := Step.run_bind_ok hafterEnter
  obtain ⟨tree, laid, hlay, hafterLay⟩ := Step.run_bind_ok hafterProvide
  obtain ⟨hlaid, rfl⟩ := Step.run_ofExcept_ok hlay
  obtain ⟨_, registered, hregister, hafterRegister⟩ := Step.run_bind_ok hafterLay
  obtain ⟨before, draft', hbefore, hlast⟩ := Step.run_bind_ok hafterRegister
  obtain ⟨hpart, hdraft⟩ := Prod.ext_iff.1 hlast
  obtain rfl : draft' = draft := hdraft
  obtain ⟨node, hnode, hpart⟩ := Option.bind_eq_some_iff.1 (Except.ok.inj hpart)
  -- All that comes before the extension goes well, so its turn comes, and ends the setup.
  have hun : node.finished = false := Tree.unfinished_of_mem hlaid (List.mem_of_getElem? hnode)
  have hturn : ∃ e' draft'', (setupNode (Container.setupLevels j.levels) j.profile.config node).run
      draft' = (.error e', draft'') := by
    simp only [setupNode, hun, hpart, Bool.false_eq_true, if_false, Step.run_bind,
      Drafting.ownedBy, Step.run_adapt, setupPart, Step.run_mk, he]
    exact ⟨_, _, rfl⟩
  obtain ⟨e', draft'', hturn⟩ := hturn
  obtain ⟨hlt, hget⟩ := List.getElem?_eq_some_iff.1 hnode
  have hnodes : (setupNodes (Container.setupLevels j.levels) j.profile.config tree.nodes).run
      registered = (.error e', draft'') := by
    rw [← List.take_append_drop position tree.nodes, List.drop_eq_getElem_cons hlt, hget,
      setupNodes_append, Step.run_bind, hbefore]
    dsimp only
    rw [Step.run_bind, setupNodes, Step.run_bind, hturn]
  refine ⟨e', ?_⟩
  unfold run assemble
  rw [Step.run_bind, henter]
  dsimp only
  rw [Step.run_bind, hprovide]
  dsimp only
  rw [Step.run_bind, Step.run_ofExcept, hlaid]
  dsimp only
  rw [Step.run_bind, hregister]
  dsimp only
  rw [Step.run_bind, hnodes]

theorem Makes.error {j : Job} {attempt : Attempt Container Unit} (h : j.Makes attempt) {e : Error}
    (he : attempt.outcome = .error e) : ∃ e', j.run.1 = .error e' := by
  induction h with
  | here hcomes => exact hcomes.error he
  | @inside levels j p model contents providers rules outer owner attempt hlevels hrole hcomes _ ih =>
    obtain ⟨e', hrun⟩ := ih he
    refine hcomes.error (e := e'.withOwner p.name) ?_
    rw [hlevels, Container.setupLevels, setupInside_extension hrole]
    obtain ⟨c, hc, _⟩ := Container.conclude_error (p := { p with config := j.profile.config }) hrun
    exact congrArg Prod.fst hc

/-- The extension that the job comes to at a position, and what the heap has become by then. -/
def found? (j : Job) (position : Nat) : Option (Container × Heap) :=
  match (j.upTo position).run (Draft.start j.profile) with
  | (.ok (some (.extension inner)), draft) => some (inner, draft.heap)
  | _ => none

theorem comesTo_of_found? {j : Job} {position : Nat} {inner : Container × Heap}
    (h : j.found? position = some inner) : j.ComesTo inner.1 inner.2 := by
  unfold found? at h
  split at h
  · rename_i draft hrun
    cases h
    exact ⟨position, draft, hrun, rfl⟩
  · cases h

/-- The job of an extension that is declared, inside one with room for another level. -/
def inside? (j : Job) (inner : Container × Heap) : Option Job :=
  match inner with
  | (.mk p (.declared model contents providers rules), outer) =>
    match p.role with
    | .extension _ =>
      some (ofExtension (j.levels - 1) j.profile.config outer p model contents providers rules)
    | .ruleSet => none
  | _ => none

theorem makes_of_inside? {j k : Job} {inner : Container × Heap} {attempt : Attempt Container Unit}
    (hlevels : j.levels ≠ 0) (hcomes : j.ComesTo inner.1 inner.2) (hk : j.inside? inner = some k)
    (h : k.Makes attempt) : j.Makes attempt := by
  unfold inside? at hk
  split at hk
  · split at hk
    · rename_i hrole
      cases hk
      exact .inside (Nat.succ_pred_eq_of_ne_zero hlevels).symm hrole hcomes h
    · cases hk
  · cases hk

end Job

/-! ## Extensions in what is finished -/

/-- A node that was set up had its turn after the nodes before it. -/
theorem setupNodes_turn {extend : ExtensionSetup} {config : Config} {node' : Node} :
    ∀ {nodes nodes' : List Node} {draft draft' : Draft},
    (setupNodes extend config nodes).run draft = (.ok nodes', draft') → node' ∈ nodes' →
    ∃ before node after done d d', nodes = before ++ node :: after ∧
      (setupNodes extend config before).run draft = (.ok done, d) ∧
      (setupNode extend config node).run d = (.ok node', d')
  | [], _, _, _, hr, hm => by
    cases hr
    cases hm
  | first :: rest, _, draft, _, hr, hm => by
    unfold setupNodes at hr
    obtain ⟨first', draft₁, hfirst, hr⟩ := Step.run_bind_ok hr
    obtain ⟨rest', draft₂, hrest, hr⟩ := Step.run_bind_ok hr
    cases hr
    rcases List.mem_cons.1 hm with rfl | hm
    · exact ⟨[], first, rest, [], draft, draft₁, rfl, rfl, hfirst⟩
    · obtain ⟨before, node, after, done, d, d', rfl, hbefore, hnode⟩ := setupNodes_turn hrest hm
      refine ⟨first :: before, node, after, first' :: done, d, d', rfl, ?_, hnode⟩
      rw [setupNodes, Step.run_bind, hfirst]
      dsimp only
      rw [Step.run_bind, hbefore]
      rfl

/-- A job that succeeds comes to every extension, once the components before it are set up. -/
theorem Job.comesTo_of_assembly (j : Job) {draft d : Draft} {tree : Tree}
    (a : Assembly (Container.setupLevels j.levels) j.profile j.enter j.contents j.providers j.rules
      (Draft.start j.profile) tree draft) {before after done : List Node} {node : Node}
    {inner : Container} (hsplit : a.laid.nodes = before ++ node :: after)
    (hbefore : (setupNodes (Container.setupLevels j.levels) j.profile.config before).run
      a.registered = (.ok done, d)) (hpart : node.part = some (.extension inner)) :
    j.ComesTo inner d.heap := by
  refine ⟨before.length, d, ?_, rfl⟩
  have htake : a.laid.nodes.take before.length = before := by rw [hsplit, List.take_left]
  have hget : a.laid.get? before.length = some node := by
    rw [TreeOf.get?, hsplit, List.getElem?_append_right (Nat.le_refl _), Nat.sub_self]
    rfl
  unfold Job.upTo
  rw [Step.run_bind, a.enters]
  dsimp only
  rw [Step.run_bind, a.provides]
  dsimp only
  rw [Step.run_bind, Step.run_ofExcept, a.lays]
  dsimp only
  rw [Step.run_bind, a.registers]
  dsimp only
  rw [htake, Step.run_bind, hbefore]
  dsimp only
  rw [hget, Step.run_pure, Option.bind_some, hpart]

/-- Every extension in a finished container was attempted, and this is what the attempt has made. -/
theorem Job.makes_of_holds {c k : Container} (hk : c.Holds k) : ∀ {j : Job},
    Container.conclude j.profile j.run = (.ok (), c) →
    k = c ∨ ∃ attempt, j.Makes attempt ∧ attempt.outcome = .ok () ∧ attempt.subject = k := by
  induction hk with
  | self => exact fun _ => .inl rfl
  | @inside c inner k tree node htree hnode hpart _ ih =>
    intro j hj
    obtain ⟨tree', draft, hr, rfl⟩ := conclude_ok hj
    cases htree
    obtain ⟨a⟩ := assembly_of_run hr
    obtain ⟨before, node₀, after, done, d, d', hsplit, hbefore, hturn⟩ :=
      setupNodes_turn a.equips hnode
    have hun : node₀.finished = false :=
      Tree.unfinished_of_mem a.lays (by rw [hsplit]; simp)
    obtain ⟨source, hsource, hrun⟩ := setupNode_ok hun hturn hpart
    obtain ⟨c₀, rfl, ho, rfl⟩ := setupPart_extension hrun
    have hcomes := j.comesTo_of_assembly a hsplit hbefore hsource
    have hmakes := Job.Makes.here hcomes
    obtain ⟨n, p, m, nested, contents, providers, rules, hlevels, rfl, _, hinner⟩ :=
      Container.setupLevels_ok ho
    refine .inr ?_
    rcases ih (j := .ofExtension n j.profile.config d.heap p (.node m nested) contents providers
      rules) hinner with rfl | ⟨attempt, hattempt, hresult⟩
    · exact ⟨_, hmakes, ho, rfl⟩
    · obtain ⟨_, hrole⟩ := Container.role_of_setupLevels ho
      exact ⟨attempt, .inside hlevels hrole hcomes hattempt, hresult⟩

/-- The extension at a position is finished, and owned by the node that owns it in the tree, which it
takes for its parent: in its role, and in the first node of its own tree. -/
structure Tree.Owns (t : Tree) (id : Nat) (inner : Container) : Prop where
  finished : inner.isFinished
  owner : ∃ (node above root : Node) (owner : Nat) (own : Tree), t.get? id = some node ∧
    t.get? owner = some above ∧ node.owner = .component owner ∧
    node.ownerName = some above.name ∧
    inner.profile.role = .extension (some above.name) ∧ inner.tree? = some own ∧
    own.get? 0 = some root ∧ root.owner = .parent above.name

theorem Assembly.owns {levels : Nat} {p : Profile} {enter : Drafting (ModelTree × Descriptor)}
    {contents : List Component} {providers : List DataVar} {validations : List Validation}
    {draft draft' : Draft} {tree : Tree}
    (a : Assembly (Container.setupLevels levels) p enter contents providers validations draft tree
      draft') {id : Nat} {node : Node} {inner : Container} (hnode : tree.get? id = some node)
    (hpart : node.part = some (.extension inner)) : tree.Owns id inner := by
  rcases Nat.eq_zero_or_pos id with rfl | hpos
  · obtain ⟨_, hroot⟩ := a.root
    rw [hroot] at hnode
    cases hnode
    cases hpart
  · obtain ⟨owner, above, _, habove, howner, hownerName, part, _, _, _, _, set, d, d', hset, hrun⟩ :=
      a.owned hnode hpos
    obtain rfl := Option.some.inj (hset.symm.trans hpart)
    obtain ⟨c₀, howned, ho, rfl⟩ := setupPart_extension hrun
    have hrole : c₀.profile.role = .extension (some above.name) := by
      obtain ⟨_, _, _, rfl⟩ := Part.eq_extension_of_ownedBy howned
      rfl
    obtain ⟨n, q, m, nested, _, _, _, _, rfl, _, hinner⟩ := Container.setupLevels_ok ho
    obtain ⟨own, _, hr, hsubject⟩ := conclude_ok hinner
    obtain ⟨b⟩ := assembly_of_run hr
    obtain ⟨_, hroot⟩ := b.root
    rw [show q.role = .extension (some above.name) from hrole] at hroot
    rw [hsubject]
    exact ⟨rfl, node, above, _, owner, own, hnode, habove, howner, hownerName, hrole, rfl, hroot, rfl⟩

/-! ## The law -/

/-- The setup of a rule set attempts to set up an extension, at any depth. -/
def Container.Attempts (c : Container) (attempt : Attempt Container Unit) : Prop :=
  ∃ p model contents providers rules, c = .mk p (.declared model contents providers rules) ∧
    p.role = .ruleSet ∧ (Job.ofRuleSet p model contents providers rules).Makes attempt

/-- A container is set up once. Let `k` be what a declared container becomes by any requests. It has
a heap and a tree exactly while it is finished. Once it is finished or failed, it refuses every
request and never changes again. The setup of an extension is refused and changes nothing. If `k` is
finished, then every extension in it, at any depth, is finished, has the configuration that the rule
set was declared with, and is owned by the node that owns it in the tree around it. If `k` is a rule
set to be set up, its setup attempts every extension that it will hold, and fails for good if one of
its attempts fails. -/
theorem a_container_is_set_up_once {c k : Container} {requests : List Request}
    (hnew : c.isDeclared) (hk : c.after requests = k) :
    (k.heap?.isSome = k.isFinished ∧ k.tree?.isSome = k.isFinished) ∧
      (k.isFinished ∨ k.isFailed → (∀ request, ∃ e, k.serve request = (.error e, k)) ∧
        ∀ more, k.after more = k) ∧
      (k.profile.role ≠ .ruleSet → ∃ e, k.setup = (.error e, k)) ∧
      (k.isFinished → ∀ host tree id node inner, k.Holds host → host.tree? = some tree →
        tree.get? id = some node → node.part = some (.extension inner) →
        tree.Owns id inner ∧ inner.profile.config = c.profile.config) ∧
      (∀ k' inner, k.setup = (.ok (), k') → k'.Holds inner → inner = k' ∨
        ∃ attempt, k.Attempts attempt ∧ attempt.outcome = .ok () ∧ attempt.subject = inner) ∧
      ∀ attempt e, k.Attempts attempt → attempt.outcome = .error e →
        ∃ e' k', k.setup = (.error e', k') ∧ k'.isFailed := by
  refine ⟨⟨k.heap?_isSome, k.tree?_isSome⟩, fun hsettled => ?_, Container.setup_extension, ?_, ?_, ?_⟩
  · have hdeclared : k.isDeclared = false := by
      obtain ⟨p, _ | ⟨_, _⟩ | _⟩ := k
      · rcases hsettled with h | h <;> cases h
      · rfl
      · rfl
    exact ⟨Container.serve_settled hdeclared, Container.after_settled hdeclared⟩
  · intro hfinished host tree id node inner hhost htree hnode hpart
    have hconfig : k.profile.config = c.profile.config := hk ▸ (c.after_profile requests).2
    obtain ⟨d, hsetup⟩ := Container.setup_of_isFinished hnew (hk.symm ▸ hfinished)
    rw [hk] at hsetup
    have hassembled := Container.assembled_of_setup (D := fun _ => True) trivial hsetup
    have hmem : node ∈ tree.nodes := List.mem_of_getElem? hnode
    refine ⟨?_, ?_⟩
    · obtain ⟨_, _, h⟩ := hassembled.holds inherited_true hhost
      obtain ⟨tree', draft, hr, rfl⟩ := conclude_ok h
      cases htree
      obtain ⟨a⟩ := assembly_of_run hr
      exact a.owns hnode hpart
    · have hinner := hassembled.holds_config inherited_true hhost
      have hhere := (hassembled.holds inherited_true hhost).extension_config htree hmem hpart
      rw [hhere, hinner, hconfig]
  · intro k' inner hsetup hinner
    obtain ⟨p, model, contents, providers, rules, rfl, hrole, hconcluded⟩ := setup_ok hsetup
    have hmade := Job.makes_of_holds hinner (j := .ofRuleSet p model contents providers rules)
      hconcluded
    exact hmade.imp_right fun ⟨attempt, hmakes, hresult⟩ =>
      ⟨attempt, ⟨p, model, contents, providers, rules, rfl, hrole, hmakes⟩, hresult⟩
  · rintro attempt e ⟨p, model, contents, providers, rules, rfl, hrole, hmakes⟩ he
    obtain ⟨e', hrun⟩ := hmakes.error he
    obtain ⟨k', hk', hfailed⟩ := Container.conclude_error (p := p) hrun
    exact ⟨_, k', (setup_ruleSet hrole).trans hk', hfailed⟩

/-- A board where the desk keeps minutes, though there is no secretary. -/
def Container.minutesBoard : Container :=
  let minuted : Validation := ⟨"minuted", .ofModels "secretary" [], "Minutes are missing", none⟩
  let chair : ModelTree := .node ⟨"chair", .expression (.ofModels "company" ["boss"])⟩ []
  .mk (newProfile "board" (.extension none) chair none)
    (.declared chair [.leaf (.extension (desk.declaring [] [] [minuted]))] [] [])

/-- An office with such a board. -/
def Container.minutesOffice (config : Config) : Container :=
  (Container.mk .sample (.declared .sample [.leaf (.extension minutesBoard)] [] [])).withConfig config

/-- If the office insists on minutes, then its setup comes to the board, whose setup comes to the
desk, which fails. -/
theorem Container.minutesOffice_attempts : ∃ attempt e,
    (minutesOffice { Config.standard with failOnUnresolved := true }).Attempts attempt ∧
      attempt.outcome = .error e := by
  let office := Job.ofRuleSet
    { Profile.sample with config := { Config.standard with failOnUnresolved := true } } .sample
    [.leaf (.extension minutesBoard)] [] []
  have hrun : ((office.found? 2).bind fun board => (office.inside? board).bind fun job =>
      (job.found? 2).map fun desk =>
        (setupLevels job.levels job.profile.config desk.1 desk.2).outcome.isOk) = some false := by
    decide +kernel
  obtain ⟨board, hboard, hrun⟩ := Option.bind_eq_some_iff.1 hrun
  obtain ⟨job, hjob, hrun⟩ := Option.bind_eq_some_iff.1 hrun
  obtain ⟨desk, hdesk, hfails⟩ := Option.map_eq_some_iff.1 hrun
  have hmakes : office.Makes (setupLevels job.levels job.profile.config desk.1 desk.2) :=
    Job.makes_of_inside? (by decide) (Job.comesTo_of_found? hboard) hjob
      (.here (Job.comesTo_of_found? hdesk))
  rcases houtcome : (setupLevels job.levels job.profile.config desk.1 desk.2).outcome with e | _
  · exact ⟨_, e, ⟨_, _, _, _, _, rfl, rfl, hmakes⟩, houtcome⟩
  · rw [houtcome] at hfails
    cases hfails

/-- An office that does not insist on minutes is set up once, and the desk on its board takes over
the number of suggestions that the office gives. An office that insists on them has failed. -/
theorem a_container_is_set_up_once_in_an_office :
    (∃ c board tree id node desk,
      (Container.minutesOffice { Config.standard with maxSuggestions := 3 }).after [.setup] = c ∧
        c.isFinished ∧ c.heap?.isSome ∧ (∀ more, c.after more = c) ∧ c.extensions = [board] ∧
        board.tree? = some tree ∧ tree.get? id = some node ∧
        node.part = some (.extension desk) ∧ tree.Owns id desk ∧
        desk.profile.config.maxSuggestions = 3) ∧
      ∃ e k, (Container.minutesOffice { Config.standard with failOnUnresolved := true }).setup =
        (.error e, k) ∧ k.isFailed ∧ k.after [.setup, .addGroup ⟨"files", none⟩ [] []] = k := by
  constructor
  · have hfinished : ((Container.minutesOffice { Config.standard with maxSuggestions := 3 }).after
        [.setup]).isFinished := by decide +kernel
    have hinside : ((Container.minutesOffice { Config.standard with maxSuggestions := 3 }).after
        [.setup]).extensions.map (fun board => (board.name, board.extensions.map (·.name))) =
          [("board", ["desk"])] := by decide +kernel
    generalize hk : (Container.minutesOffice { Config.standard with maxSuggestions := 3 }).after
      [.setup] = c at hfinished hinside
    obtain ⟨⟨hheap, _⟩, hsettled, _, howned, _, _⟩ := a_container_is_set_up_once rfl hk
    obtain ⟨board, hboard, hnames⟩ := List.map_eq_singleton_iff.1 hinside
    obtain ⟨desk, hdesk, _⟩ := List.map_eq_singleton_iff.1 (Prod.ext_iff.1 hnames).2
    have hmem : desk ∈ board.extensions := by
      rw [hdesk]
      exact List.mem_singleton_self desk
    obtain ⟨tree, node, htree, hnode, hpart⟩ := Container.mem_extensions hmem
    obtain ⟨id, hid⟩ := List.mem_iff_getElem?.1 hnode
    obtain ⟨howns, hconfig⟩ := howned hfinished board tree id node desk
      (Container.holds_of_extensions hboard) htree hid hpart
    exact ⟨c, board, tree, id, node, desk, rfl, hfinished, hheap.trans hfinished,
      (hsettled (.inl hfinished)).2, hboard, htree, hid, hpart, howns, by rw [hconfig]; rfl⟩
  · obtain ⟨attempt, e, hattempt, he⟩ := Container.minutesOffice_attempts
    have hnew : (Container.minutesOffice { Config.standard with failOnUnresolved := true }).after [] =
      Container.minutesOffice { Config.standard with failOnUnresolved := true } := rfl
    obtain ⟨_, _, _, _, _, hfails⟩ := a_container_is_set_up_once rfl hnew
    obtain ⟨e', k, hsetup, hfailed⟩ := hfails attempt e hattempt he
    have hk : (Container.minutesOffice { Config.standard with failOnUnresolved := true }).after
      [.setup] = k := congrArg Prod.snd hsetup
    obtain ⟨_, hsettled, _⟩ := a_container_is_set_up_once rfl hk
    exact ⟨e', k, hsetup, hfailed, (hsettled (.inr hfailed)).2 _⟩

end Formwork
