-- What a description shows. It has one line for every component in the outline of what was declared,
-- down to the greatest depth that is shown, and one hint for every component right below that depth.
import Formwork.Container.Describe
import Formwork.Proofs.Component.Outline
import Formwork.Proofs.Container.Naming
import Formwork.Proofs.Container.Owners
import Formwork.Proofs.Container.Readiness

namespace Formwork

open Drafting

/-! ## Lines -/

/-- The text is what a description shows of the component after its name and its kind: that of a node
with this name and this kind in the container, or in an extension inside it. -/
def Container.Remarks (c : Container) (entry : Entry) (text : String) : Prop :=
  ∃ host tree node, c.Holds host ∧ host.tree? = some tree ∧ node ∈ tree.nodes ∧
    node.name = entry.name ∧ node.kind = entry.kind ∧
    text = Container.remark host.profile node.part

/-- The line shows the component, if it is not too deep, or hints at it. -/
def Entry.ShownBy (c : Container) (greatest : Nat) (entry : Entry) (line : String) : Prop :=
  let blanks := String.ofList (List.replicate (2 * entry.depth) ' ')
  if entry.depth ≤ greatest then
    ∃ remark, c.Remarks entry remark ∧
      line = blanks ++ entry.name ++ " (" ++ entry.kind.text ++ ")" ++ remark
  else line = blanks ++ "..."

/-- The lines show what is not too deep in the outline, each component once and in order, and hint at
what is one level deeper. -/
def Shown (c : Container) (greatest : Nat) (outline : List Entry) (lines : List String) : Prop :=
  List.Forall₂ (Entry.ShownBy c greatest)
    (outline.filter fun entry => entry.depth ≤ greatest + 1) lines

/-- The description of the container is made of lines that show what was declared. -/
def Container.DescribedAs (greatest : Nat) (declared c : Container) : Prop :=
  ∃ lines, Shown c greatest declared.outline lines ∧
    c.describe = String.join (lines.map fun line => line ++ "\n")

theorem Container.indent_eq (depth : Nat) :
    indent depth = String.ofList (List.replicate (2 * depth) ' ') := by
  induction depth with
  | zero => rfl
  | succ depth ih =>
    have hblanks : String.ofList (List.replicate (2 * (depth + 1)) ' ') =
        "  " ++ String.ofList (List.replicate (2 * depth) ' ') := by
      rw [Nat.mul_succ, Nat.add_comm, ← List.replicate_append_replicate, String.ofList_append]
      rfl
    rw [hblanks, ← ih, indent, List.replicate_succ, String.join_cons]
    rfl

section

variable {c : Container} {greatest : Nat} {outline outline' : List Entry}
  {lines lines' : List String}

theorem Shown.append (h : Shown c greatest outline lines) (h' : Shown c greatest outline' lines') :
    Shown c greatest (outline ++ outline') (lines ++ lines') := by
  rw [Shown, List.filter_append]
  exact List.rel_append h h'

theorem Shown.cons {entry : Entry} {line : String} (hdepth : entry.depth ≤ greatest + 1)
    (hline : entry.ShownBy c greatest line) (h : Shown c greatest outline lines) :
    Shown c greatest (entry :: outline) (line :: lines) := by
  rw [Shown, List.filter_cons_of_pos (by simpa using hdepth)]
  exact .cons hline h

/-- What is more than one level too deep does not show at all. -/
theorem shown_nil (h : ∀ entry ∈ outline, greatest + 1 < entry.depth) :
    Shown c greatest outline [] := by
  have hnone : outline.filter (fun entry => entry.depth ≤ greatest + 1) = [] :=
    List.filter_eq_nil_iff.2 fun entry he => by simpa using h entry he
  rw [Shown, hnone]
  exact .nil

/-- What is shown of a container inside another one is shown of that one. -/
theorem Shown.of_holds {inner : Container} (hc : ∀ k, inner.Holds k → c.Holds k)
    (h : Shown inner greatest outline lines) : Shown c greatest outline lines := by
  refine List.Forall₂.imp (fun entry line hshown => ?_) h
  unfold Entry.ShownBy at hshown ⊢
  dsimp only at hshown ⊢
  split at hshown
  · rename_i hdepth
    obtain ⟨remark, ⟨host, tree, node, hhost, hnode⟩, hline⟩ := hshown
    rw [if_pos hdepth]
    exact ⟨remark, ⟨host, tree, node, hc host hhost, hnode⟩, hline⟩
  · rename_i hdepth
    rw [if_neg hdepth]
    exact hshown

end

/-! ## Nodes -/

namespace Container

/-- The lines of the extension that the node stands for, if it stands for one. -/
def linesInside (node : Node) (depth : Nat) : List String :=
  match node.part with
  | some (.extension c) => innerLines c depth
  | _ => []

theorem innerOfAll_eq_map (nodes : List Node) : innerOfAll nodes = nodes.map linesInside := by
  induction nodes with
  | nil => rw [innerOfAll, List.map_nil]
  | cons node rest ih =>
    obtain ⟨_, _, _, _, _, _, _ | part, _⟩ := node
    · rw [innerOfAll, ih, List.map_cons]
      · rfl
      · rintro _ _ _ _ _ _ _ _ ⟨⟩
    · cases part with
      | extension c =>
        rw [innerOfAll, ih, List.map_cons]
        rfl
      | _ =>
        rw [innerOfAll, ih, List.map_cons]
        · rfl
        · rintro _ _ _ _ _ _ _ _ ⟨⟩

theorem nodeLines_of_get? {p : Profile} {tree : Tree} {id depth : Nat} {node : Node}
    (hnode : tree.get? id = some node) :
    nodeLines p tree (innerOfAll tree.nodes) id depth =
      if depth ≤ p.config.maxDescribeDepth then
        heading p depth node :: (linesInside node depth ++ node.children.flatMap fun child =>
          nodeLines p tree (innerOfAll tree.nodes) child (depth + 1))
      else [indent depth ++ "..."] := by
  have hinner : (innerOfAll tree.nodes)[id]? = some (linesInside node) := by
    rw [innerOfAll_eq_map, List.getElem?_map]
    exact congrArg (Option.map linesInside) hnode
  rw [nodeLines, hnode, hinner]
  rfl

/-- The heading of a node shows any component of its name and its kind. -/
theorem heading_shows {c : Container} {tree : Tree} {greatest depth : Nat} {node : Node}
    (htree : c.tree? = some tree) (hnode : node ∈ tree.nodes) (h : depth ≤ greatest) :
    Entry.ShownBy c greatest ⟨depth, node.name, node.kind⟩ (heading c.profile depth node) := by
  simp only [Entry.ShownBy, if_pos h, heading, indent_eq]
  exact ⟨_, ⟨c, tree, node, .self c, htree, hnode, rfl, rfl, rfl⟩, rfl⟩

theorem hint_shows {c : Container} {greatest depth : Nat} {name : String} {kind : ComponentKind}
    (h : greatest < depth) :
    Entry.ShownBy c greatest ⟨depth, name, kind⟩ (indent depth ++ "...") := by
  simp only [Entry.ShownBy, if_neg (Nat.not_le_of_lt h), indent_eq]

end Container

/-! ## Trees -/

/-- The node has the place of the one that was laid out, and its lines show what is declared inside
the extension that it stands for. -/
structure Node.Describes (c : Container) (greatest : Nat) (laid node : Node) : Prop where
  place : node.place = laid.place
  inside : ∀ part, laid.part = some part → ∀ depth ≤ greatest,
    Shown c greatest (part.inside depth) (Container.linesInside node depth)

/-- At every position there is a node for the one that was laid out there. -/
def Tree.Describes (c : Container) (greatest : Nat) (laid tree : Tree) : Prop :=
  ∀ id node₀, laid.get? id = some node₀ →
    ∃ node, tree.get? id = some node ∧ Node.Describes c greatest node₀ node

section Lines

variable {c : Container} {tree laid : Tree}

mutual

/-- The lines of a component show its outline. -/
theorem Component.shown_of_standsAt (htree : c.tree? = some tree)
    (h : Tree.Describes c c.profile.config.maxDescribeDepth laid tree) :
    ∀ {component : Component} {owner : String} {id depth : Nat},
    component.StandsAt laid owner id → depth ≤ c.profile.config.maxDescribeDepth + 1 →
    Shown c c.profile.config.maxDescribeDepth (component.outline owner depth)
      (Container.nodeLines c.profile tree (Container.innerOfAll tree.nodes) id depth)
  | .node part contents, owner, id, depth, hstands, hdepth => by
    obtain ⟨⟨node₀, hnode₀, hpart⟩, hcontents⟩ := hstands
    obtain ⟨node, hnode, hplace, hinside⟩ := h id node₀ hnode₀
    obtain ⟨_, hsamename, hsamekind, _, _, hsamechildren⟩ := NodeOf.place_eq hplace
    have hname : part.nameIn owner = node.name := by rw [hsamename, hpart.name]
    have hkind : part.kind = node.kind := by rw [hsamekind, hpart.kind]
    have hchildren : laid.children id = node.children := by
      rw [TreeOf.children, hnode₀, hsamechildren]
      rfl
    rw [Component.outline, Container.nodeLines_of_get? hnode]
    by_cases hgreatest : depth ≤ c.profile.config.maxDescribeDepth
    · rw [if_pos hgreatest]
      refine .cons hdepth ?_ (.append ?_ ?_)
      · rw [hname, hkind]
        exact Container.heading_shows htree (List.mem_of_getElem? hnode) hgreatest
      · rw [← Part.inside_ownedBy depth owner]
        exact hinside _ hpart.part depth hgreatest
      · rw [← hchildren]
        exact Component.shown_of_standAt htree h hcontents (Nat.succ_le_succ hgreatest)
    · -- Everything inside is too deep to be shown.
      rw [if_neg hgreatest]
      have hbelow := Nat.lt_of_not_le hgreatest
      refine .cons hdepth (Container.hint_shows hbelow) (shown_nil ?_)
      refine List.forall_mem_append.2 ⟨fun entry he => ?_, fun entry he => ?_⟩
      · exact Nat.lt_of_le_of_lt hbelow (Part.lt_depth entry he)
      · exact Nat.lt_of_lt_of_le (Nat.succ_lt_succ hbelow) (Component.le_depth_all entry he)

theorem Component.shown_of_standAt (htree : c.tree? = some tree)
    (h : Tree.Describes c c.profile.config.maxDescribeDepth laid tree) :
    ∀ {components : List Component} {owner : String} {ids : List Nat} {depth : Nat},
    Component.StandAt laid owner components ids →
    depth ≤ c.profile.config.maxDescribeDepth + 1 →
    Shown c c.profile.config.maxDescribeDepth (Component.outlineAll owner depth components)
      (ids.flatMap fun id =>
        Container.nodeLines c.profile tree (Container.innerOfAll tree.nodes) id depth)
  | [], owner, ids, depth, hstand, _ => by
    obtain rfl : ids = [] := hstand
    exact .nil
  | component :: rest, owner, ids, depth, hstand, hdepth => by
    obtain ⟨id, others, rfl, hfirst, hrest⟩ := hstand
    rw [Component.outlineAll, List.flatMap_cons]
    exact (Component.shown_of_standsAt htree h hfirst hdepth).append
      (Component.shown_of_standAt htree h hrest hdepth)

end

end Lines

/-! ## Containers -/

namespace Container

/-- The configuration of a container does not show in an outline. -/
theorem inside_withConfig (p : Profile) (phase : Phase) (config : Config) (depth : Nat) :
    (mk { p with config } phase).inside depth = (mk p phase).inside depth := by
  cases phase <;> rfl

/-- Every extension that is set up so has lines that show what is declared in it. -/
def ShowsExtensions (greatest : Nat) (extend : ExtensionSetup) (config : Config) : Prop :=
  ∀ c outer, (extend config c outer).outcome = .ok () → ∀ depth ≤ greatest,
    Shown (extend config c outer).subject greatest (c.inside depth)
      (innerLines (extend config c outer).subject depth)

variable {extend : ExtensionSetup} {config : Config} {greatest : Nat}

/-- A node describes what was laid out, in a container that holds the extension at the node. -/
theorem describes_of_setupNode (hextend : ShowsExtensions greatest extend config) {k : Container}
    {node node' : Node} {draft draft' : Draft} (hun : node.finished = false)
    (hr : (setupNode extend config node).run draft = (.ok node', draft'))
    (hk : ∀ inner, node'.part = some (.extension inner) → ∀ held, inner.Holds held → k.Holds held) :
    Node.Describes k greatest node node' := by
  refine ⟨place_setupNode hun hr, fun part hpart depth hdepth => ?_⟩
  obtain ⟨part', hset, rfl⟩ := (setupNode_some_iff hun hpart).1 hr
  by_cases hkind : part'.kind = .extension
  · cases part' <;> cases hkind
    obtain ⟨c, rfl, ho, rfl⟩ := setupPart_extension hset
    exact (hextend c draft.heap ho depth hdepth).of_holds (hk _ rfl)
  · rw [Part.inside_of_kind depth (setupPart_kind hset ▸ hkind)]
    have hnone : linesInside { node with part := some part', finished := true } depth = [] := by
      cases part' with
      | extension => exact absurd rfl hkind
      | _ => rfl
    rw [hnone]
    exact .nil

variable {p q : Profile} {enter : Drafting (ModelTree × Descriptor)} {contents : List Component}
  {providers : List DataVar} {validations : List Validation} {draft draft' : Draft} {tree : Tree}
  {heap : Heap}

theorem describes_of_assembly (hextend : ShowsExtensions greatest extend p.config)
    (a : Assembly extend p enter contents providers validations draft tree draft') :
    Tree.Describes (.mk q (.finished heap tree)) greatest a.laid tree := by
  intro id node₀ hnode₀
  obtain ⟨node, hnode, _⟩ := a.at_laid hnode₀
  obtain ⟨other, _, _, hother, hun, hrun⟩ := a.laid_at hnode
  obtain rfl := Option.some.inj (hnode₀.symm.trans hother)
  exact ⟨node, hnode, describes_of_setupNode hextend hun hrun fun inner hinner held hheld =>
    .inside rfl (List.mem_of_getElem? hnode) hinner hheld⟩

/-- The lines of a container show what is declared in it, if those of its extensions do. What setup
notes in the profile makes no difference. -/
theorem shown_of_assembly {model : ModelTree} (henter : Enters p model enter)
    (hq : q.config.maxDescribeDepth = greatest)
    (hextend : ShowsExtensions greatest extend p.config)
    (a : Assembly extend p enter contents providers validations (Draft.start p) tree draft')
    {depth : Nat} (hdepth : depth ≤ greatest) :
    Shown (.mk q (.finished heap tree)) greatest
      ((mk p (.declared model contents providers validations)).inside depth)
      ((tree.children 0).flatMap fun child =>
        nodeLines q tree (innerOfAll tree.nodes) child (depth + 1)) := by
  subst hq
  have hdescribes : Tree.Describes (.mk q (.finished heap tree)) q.config.maxDescribeDepth a.laid
      tree := describes_of_assembly hextend a
  have hshown := Component.shown_of_standAt rfl hdescribes (Tree.standAt_ofDeclaration a.lays)
    (Nat.succ_le_succ hdepth)
  have hchildren : a.laid.children 0 = tree.children 0 := by
    obtain ⟨_, hroot⟩ := a.root_laid
    obtain ⟨node, hnode, hplace⟩ := a.at_laid hroot
    rw [TreeOf.children, TreeOf.children, hroot, hnode]
    exact (NodeOf.place_eq hplace).2.2.2.2.2.symm
  have hmodel : (mk p (.declared a.model contents providers validations)).inside depth =
      (mk p (.declared model contents providers validations)).inside depth := by
    simp only [inside, Phase.inside, henter.outline a.enters]
  rwa [Tree.outlineAll_components, hchildren, hmodel] at hshown

/-- At any depth of extensions inside each other, the lines of an extension show what is declared in
it: one inside another is set up with less depth left. -/
theorem showsExtensions_setupLevels (levels : Nat) (config : Config) :
    ShowsExtensions config.maxDescribeDepth (setupLevels levels) config := by
  induction levels with
  | zero => exact fun c outer h => by cases h
  | succ levels ih =>
    intro c outer ho depth hdepth
    obtain ⟨n, p, m, nested, contents, providers, validations, hlevels, rfl, _, hrun⟩ :=
      setupLevels_ok ho
    obtain rfl := Nat.succ.inj hlevels
    obtain ⟨⟨nodes, byName⟩, draft, hr, hsubject⟩ := conclude_ok hrun
    obtain ⟨a⟩ := assembly_of_run hr
    rw [hsubject, innerLines, ← inside_withConfig p _ config]
    refine shown_of_assembly (.extension m nested outer) ?_ ih a hdepth
    rfl

/-- The description of a finished container is its own line and those of what is inside it. -/
theorem describe_finished {nodes : List Node} {byName : Ordered Nat} {root : Node}
    (hnode : TreeOf.get? (⟨nodes, byName⟩ : Tree) 0 = some root) (hroot : root.part = none) :
    (mk q (.finished heap ⟨nodes, byName⟩)).describe =
      String.join ((heading q 0 root ::
        (TreeOf.children (⟨nodes, byName⟩ : Tree) 0).flatMap fun child =>
          nodeLines q ⟨nodes, byName⟩ (innerOfAll nodes) child 1).map fun line => line ++ "\n") := by
  have hnone : linesInside root 0 = [] := by rw [linesInside, hroot]
  have hlines := @nodeLines_of_get? q _ _ 0 _ hnode
  rw [if_pos (Nat.zero_le _), hnone, List.nil_append] at hlines
  rw [TreeOf.children, hnode]
  rcases nodes with _ | ⟨first, rest⟩
  · cases hnode
  · exact congrArg (fun lines => String.join (lines.map fun line => line ++ "\n")) hlines

/-- The description of a container that was set up shows what was declared. -/
theorem Became.describedAs {d k : Container} (h : d.Became k) :
    DescribedAs k.profile.config.maxDescribeDepth d k := by
  cases h with
  | @intro levels p model contents providers validations enter c hd henter hrun =>
    obtain ⟨⟨nodes, byName⟩, draft, hr, rfl⟩ := conclude_ok hrun
    obtain ⟨a⟩ := assembly_of_run hr
    obtain ⟨_, hroot⟩ := a.root
    rw [← hd]
    refine ⟨_, .cons (Nat.zero_le _) (heading_shows rfl (List.mem_of_getElem? hroot)
      (Nat.zero_le _)) ?_, describe_finished hroot rfl⟩
    refine shown_of_assembly henter ?_ (showsExtensions_setupLevels levels p.config) a
      (Nat.zero_le _)
    rfl

end Container

/-! ## The law -/

/-- Every component shows once in a description, down to the greatest depth that is shown. When setup
of a rule set succeeds, the description of the rule set has one line for every entry in the outline of
what was declared that is at most one level too deep, in the order of the outline: the container
first, then its components in the order of their declaration, each followed by what is inside it, and
an extension by what is declared in it. The line is indented by twice the depth and shows the name,
the kind, and what a field is bound to or which type a model has, or it only hints at a component
that is one level too deep. So it is with every extension inside, under the configuration of the rule
set. -/
theorem descriptions_show_every_component_once {c c' : Container}
    (hsetup : c.setup = (.ok (), c')) :
    Container.DescribedAs c.profile.config.maxDescribeDepth c c' ∧
      ∀ k, c'.Holds k → ∃ d, c.Declares d ∧ d.Became k ∧
        Container.DescribedAs c.profile.config.maxDescribeDepth d k := by
  have hassembled := Container.assembled_of_setup (D := fun _ => True) trivial hsetup
  have hconfig : ∀ k, c'.Holds k → k.profile.config = c.profile.config := fun k hk =>
    (hassembled.holds_config inherited_true hk).trans (Container.setup_config hsetup)
  refine ⟨?_, fun k hk => ?_⟩
  · have hbecame : c.Became c' := Container.assembled_of_setup rfl hsetup
    rw [← hconfig c' (.self c')]
    exact hbecame.describedAs
  · obtain ⟨d, hd, hbecame⟩ := Container.became_of_setup hsetup hk
    refine ⟨d, hd, hbecame, ?_⟩
    rw [← hconfig k hk]
    exact hbecame.describedAs

/-- What is declared in an office with a board and a desk on it shows once. -/
theorem descriptions_show_every_component_once_of_a_head_office : ∃ c,
    Container.headOffice.setup = (.ok (), c) ∧ Container.headOffice.outline =
      [⟨0, "office", .ruleSet⟩, ⟨1, "company", .model⟩, ⟨1, "board", .extension⟩,
        ⟨2, "chair", .model⟩, ⟨2, "desk", .extension⟩, ⟨3, "person", .model⟩] ∧
      Container.DescribedAs Config.standard.maxDescribeDepth .headOffice c := by
  have hok : Container.headOffice.setup.1.isOk := by decide +kernel
  generalize hsetup : Container.headOffice.setup = result at hok
  obtain ⟨_ | ⟨⟩, c⟩ := result
  · cases hok
  · exact ⟨c, rfl, rfl, (descriptions_show_every_component_once hsetup).1⟩

example : (Container.headOffice.withConfig
    { Config.standard with maxDescribeDepth := 1 }).setup.2.describe =
      "office (RuleSet)\n  company (BoundModel): Company\n  board (Extension)\n    ...\n    ...\n" := by
  decide +kernel

end Formwork
