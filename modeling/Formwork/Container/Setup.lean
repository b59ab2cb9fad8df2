-- Setting up containers. A container registers its models and its data providers, lays out its
-- components, gives each of them a variable, sets them up in order, and freezes its heap; at the
-- end the checks of its items are held against the main model and the fields. An extension is set
-- up when its turn among the components of the container around it comes; before that it binds its
-- main model to a variable of that container, and after that nothing outside of it changes.
import Formwork.Component.Layout
import Formwork.Component.Setup

namespace Formwork

open Drafting

/-! ## Models -/

/-- Remembers a registered model. -/
def rememberModel (name : String) (descriptor : Descriptor) (id : VarId) : Drafting Unit :=
  modify fun draft => { draft with models := draft.models.put name ⟨descriptor, id⟩ }

/-- Registers a model that an expression leads to: under its variable's name, or as an alias. -/
def registerPointer (name : String) (e : Expression) :
    Drafting (Expression × Descriptor × VarId) := do
  if e.ns ≠ .models then
    throw (.setup .value (some name)
      s!"Model expression {e.text} must be in namespace {Namespace.models.text}")
  let (e, found) ← resolve name e
  match found with
  | none => throw (e.unresolvedError.withOwner name)
  | some id =>
    let v ← onHeap (Heap.variableAt id)
    match v.descriptor? with
    | none => throw (.setup .type (some name) s!"Model expression {e.text} has no type")
    | some descriptor =>
      ofExcept (BoundModel.checkShape name descriptor)
      if v.name ≠ name then onHeap (Heap.addAlias id name)
      return (e, descriptor, id)

/-- Registers a single model. -/
def registerModel (container : String) (m : BoundModel) :
    Drafting (BoundModel × Descriptor) := do
  if (← get).models.has m.name then
    throw (.ofKind .name s!"Model {m.name} is already registered in {container}")
  match m.source with
  | .expression e =>
    let (e, descriptor, id) ← registerPointer m.name e
    rememberModel m.name descriptor id
    return ({ m with source := .expression e }, descriptor)
  | _ =>
    match ← ofExcept m.declared with
    | none => throw (.internal none s!"Model {m.name} has no type")
    | some descriptor =>
      let id ← onHeap (Heap.add (.fresh m.name .models (.typed descriptor)) none)
      rememberModel m.name descriptor id
      return (m, descriptor)

mutual

/-- Registers a model and then those nested in it. -/
def registerTree (container : String) : ModelTree → Drafting (ModelTree × Descriptor)
  | .node m nested => do
    let (m, descriptor) ← registerModel container m
    let nested ← registerTrees container nested
    return (.node m nested, descriptor)

/-- Registers models one after the other. -/
def registerTrees (container : String) : List ModelTree → Drafting (List ModelTree)
  | [] => return []
  | model :: rest => do
    let (model, _) ← registerTree container model
    return model :: (← registerTrees container rest)

end

/-! ## Extensions and the container around them -/

/-- Binds a variable of the container around to the main model of an extension. -/
def bindOuter (container model : String) (e : Expression) (id : VarId) :
    HeapAction (Descriptor × BoundVar) := do
  let v ← Heap.variableAt id
  match v.descriptor? with
  | none => throw (.ofKind .type s!"Model expression {e.text} has no type")
  | some descriptor =>
    ofExcept (BoundModel.checkShape model descriptor)
    let outer ← get
    Heap.addBound id ⟨container, .models, model⟩
    return (descriptor, ⟨outer.name, .models, v.name⟩)

/-- Finds the main model of an extension in the container around it. -/
def linkOuter (container : String) (m : BoundModel) (outer : Heap) :
    Attempt BoundModel (Descriptor × BoundVar) :=
  let misplaced : Error := .ofKind .value
    s!"Extension model {m.name} must be an expression in namespace {Namespace.models.text}"
  match m.source with
  | .expression e =>
    if e.ns ≠ .models then ⟨.error misplaced, m, outer⟩
    else
      let attempt := e.setup container outer
      let m := { m with source := .expression attempt.subject }
      match attempt.outcome with
      | .error error => ⟨.error error, m, attempt.heap⟩
      | .ok none => ⟨.error (attempt.subject.unresolvedError.withOwner container), m, attempt.heap⟩
      | .ok (some id) =>
        let (outcome, outer) := (bindOuter container m.name attempt.subject id).run attempt.heap
        ⟨outcome, m, outer⟩
  | _ => ⟨.error misplaced, m, outer⟩

/-- Registers the main model of an extension, bound to the variable found around it, and then the
models nested in it. -/
def enterExtension (container : String) (m : BoundModel) (nested : List ModelTree)
    (link : Except Error (Descriptor × BoundVar)) : Drafting (ModelTree × Descriptor) := do
  let (descriptor, outer) ← ofExcept link
  let v : Variable := .fresh m.name .models (.typed descriptor)
  let id ← onHeap (Heap.add (v.bind outer) none)
  modify fun draft => { draft with boundVariable := some outer }
  rememberModel m.name descriptor id
  let nested ← registerTrees container nested
  return (.node m nested, descriptor)

/-! ## Containers -/

/-- Gives a data provider its variable. -/
def registerProvider (d : DataVar) : Drafting Unit := do
  let data ← match d.source with
    | .function signature => pure (VariableData.function signature)
    | _ => pure (.provider (← ofExcept d.descriptor))
  let _ ← onHeap (Heap.add (.fresh d.name .dataProviders data) none)

/-- The variable of a node. Expressions may use fields and data variables only. -/
def nodeVariable (node : Node) : Variable :=
  let v : Variable := .fresh node.name .fields (.component node.id node.kind)
  if node.kind.isReferenceable then v
  else v.deny s!"{node.kind.text} {node.name} can not be referenced"

/-- Gives every node its variable, in order. -/
def registerNodes : List Node → Drafting Unit
  | [] => return
  | node :: rest => do
    let _ ← onHeap (Heap.add (nodeVariable node) none)
    registerNodes rest

/-- Sets up every node, in order. -/
def setupNodes (extend : ExtensionSetup) (config : Config) : List Node → Drafting (List Node)
  | [] => return []
  | node :: rest => do
    let node ← setupNode extend config node
    return node :: (← setupNodes extend config rest)

/-- Refuses to go on with expressions that stayed unresolved. -/
def checkUnresolved : Drafting Unit := do
  let unresolved := (← get).unresolved
  if !unresolved.isEmpty then
    let listed := "; ".intercalate (unresolved.map Unresolved.text)
    throw (.ofKind .general s!"{unresolved.length} expressions not resolved: {listed}")

/-- Holds the checks of the items against the main model and the fields. -/
def checkChildren (p : Profile) (main : Descriptor) : Drafting Unit := do
  match p.cardinality with
  | some check => ofExcept (check.checkShape main)
  | none => pure ()
  let heap := (← get).heap
  p.uniques.forM fun check => ofExcept (check.checkFields heap p.config.maxSuggestions)

/-- Registers the main model of a container and those nested in it: that of a rule set like any other
model, and that of an extension bound to what was found in the container around it. -/
def enterMain (p : Profile) (main : Option ModelTree)
    (link : Option (Attempt BoundModel (Descriptor × BoundVar))) :
    Drafting (ModelTree × Descriptor) :=
  match main, p.role, link with
  | none, _, _ => throw (.internal none s!"Container {p.name} has no main model")
  | some model, .ruleSet, _ => registerTree p.name model
  | some model, .extension _, some link =>
    enterExtension p.name link.subject model.nested link.outcome
  | some _, .extension _, none =>
    throw (.internal none s!"Extension {p.name} set up without a parent heap")

/-- Sets a container up after its models are registered by `enter`. The result is its tree; its heap
is that of the draft. -/
def assemble (extend : ExtensionSetup) (p : Profile) (enter : Drafting (ModelTree × Descriptor))
    (contents : List Component) (providers : List DataVar) (validations : List Validation) :
    Drafting Tree := do
  let (model, main) ← enter
  providers.forM registerProvider
  let tree ← ofExcept (Tree.ofDeclaration p model contents providers validations)
  registerNodes tree.nodes
  let tree := { tree with nodes := ← setupNodes extend p.config tree.nodes }
  ofExcept tree.ensureFinished
  onHeap Heap.finish
  if p.config.failOnUnresolved then checkUnresolved
  checkChildren p main
  return tree

/-- The draft that a setup starts with. -/
def Draft.start (p : Profile) : Draft :=
  ⟨.empty p.name p.config.maxSuggestions, [], none, []⟩

/-- The container that a setup leaves behind, finished or failed. -/
def Container.conclude (p : Profile) (result : Except Error Tree × Draft) :
    Except Error Unit × Container :=
  let (outcome, draft) := result
  let p := { p with
    models := draft.models
    boundVariable := draft.boundVariable
    unresolved := draft.unresolved }
  match outcome with
  | .ok tree => (.ok (), .mk p (.finished draft.heap tree))
  | .error e => (.error (e.withOwner p.name), .mk p .failed)

/-- The error for a container that was set up before. -/
def Container.setUpBefore (c : Container) : Error :=
  if c.isFinished then .ofKind .general s!"Container {c.name} already set up"
  else .ofKind .general s!"Setup of container {c.name} failed before"

/-- Sets an extension up inside a container, whose configuration it takes over. -/
def Container.setupInside (extend : ExtensionSetup) (config : Config) (c : Container)
    (outer : Heap) : Attempt Container Unit :=
  match c.profile.role, c with
  | .ruleSet, _ => ⟨.error (.internal none s!"Container {c.name} is not an extension"), c, outer⟩
  | .extension _, .mk p (.declared model contents providers validations) =>
    let p := { p with config }
    let link := linkOuter p.name model.model outer
    let (outcome, c) := conclude p ((assemble extend p (enterMain p (some model) (some link))
      contents providers validations).run (Draft.start p))
    ⟨outcome, c, link.heap⟩
  | .extension _, c => ⟨.error c.setUpBefore, c, outer⟩

mutual

/-- How many containers stand inside each other at most, this one included. -/
def Container.levels : Container → Nat
  | .mk _ phase => phase.levels + 1

/-- How many containers stand inside each other at most in the contents. -/
def Phase.levels : Phase → Nat
  | .declared _ contents _ _ => levelsOfAll contents
  | .finished .. => 0
  | .failed => 0

/-- How many containers stand inside each other at most in the components. -/
def levelsOfAll : List Component → Nat
  | [] => 0
  | component :: rest => max component.levels (levelsOfAll rest)

/-- How many containers stand inside each other at most in the component. -/
def Component.levels : Component → Nat
  | .node part contents => max part.levels (levelsOfAll contents)

/-- How many containers stand inside each other at most in the part. -/
def Part.levels : Part → Nat
  | .extension c => c.levels
  | _ => 0

end

/-- Sets up an extension with extensions inside it to a given depth. -/
def Container.setupLevels : Nat → ExtensionSetup
  | 0 => fun _ c outer =>
    ⟨.error (.internal none s!"Container {c.name} is nested too deep"), c, outer⟩
  | n + 1 => Container.setupInside (setupLevels n)

/-- Sets up a rule set and every extension in it. An extension is set up by its rule set only. -/
def Container.setup (c : Container) : Except Error Unit × Container :=
  match c.profile.role, c with
  | .extension _, _ => (.error (.ofKind .value
      s!"Extension {c.name} is set up by the container that owns it"), c)
  | .ruleSet, .mk p (.declared model contents providers validations) =>
    conclude p ((assemble (setupLevels c.levels) p (enterMain p (some model) none) contents
      providers validations).run (Draft.start p))
  | .ruleSet, c => (.error c.setUpBefore, c)

end Formwork
