-- The heaps that can be made: an empty heap and a sequence of requests, whatever their outcomes.
-- All that requests do to a heap is a few kinds of edits, so what every edit keeps holds of all of
-- these heaps. Here it is that a registered name leads to a variable of its namespace.
import Formwork.Proofs.Heap.Actions
import Mathlib.Logic.Relation

namespace Formwork.Heap

/-! ## Requests -/

/-- What a heap can be asked for. -/
inductive Request where
  | add (name : String) (ns : Namespace) (data : VariableData) (denied : Option String)
      (altName : Option String)
  | addAlias (id : VarId) (name : String)
  | member (ns : Namespace) (name : String) (parent : Option VarId)
  | addReference (id : VarId) (owner : String)
  | addBound (id : VarId) (b : BoundVar)
  | finish

/-- The heap after a request. A request that fails may leave something behind. -/
def after (h : Heap) (request : Request) : Heap :=
  match request with
  | .add name ns data denied altName =>
    ((add { Variable.fresh name ns data with denied } altName).run h).2
  | .addAlias id name => ((addAlias id name).run h).2
  | .member ns name parent => ((attributeVariable ns name parent).run h).2
  | .addReference id owner => ((addReference id owner).run h).2
  | .addBound id b => ((addBound id b).run h).2
  | .finish => (finish.run h).2

/-- Whether a request succeeds. -/
def serves (h : Heap) : Request → Bool
  | .add name ns data denied altName =>
    ((add { Variable.fresh name ns data with denied } altName).run h).1.isOk
  | .addAlias id name => ((addAlias id name).run h).1.isOk
  | .member ns name parent => ((attributeVariable ns name parent).run h).1.isOk
  | .addReference id owner => ((addReference id owner).run h).1.isOk
  | .addBound id b => ((addBound id b).run h).1.isOk
  | .finish => (finish.run h).1.isOk

/-- The heap comes from an empty one by a sequence of requests. -/
def Reachable (h : Heap) : Prop :=
  ∃ (name : String) (maxSuggestions : Nat) (requests : List Request),
    h = requests.foldl after (empty name maxSuggestions)

/-! ## Registered names -/

/-- The variable `v` has the id `id`, under some name of the namespace. -/
def Registered (h : Heap) (ns : Namespace) (id : VarId) (v : Variable) : Prop :=
  (∃ name, h.lookup ns name = some id) ∧ h.find? id = some v

/-- Every registered name leads to a variable of its namespace. -/
def Sound (h : Heap) : Prop :=
  ∀ ns name id, h.lookup ns name = some id → ∃ v, h.find? id = some v ∧ v.ns = ns

/-- What is registered in a namespace is of it. -/
theorem Registered.ns {h : Heap} {ns : Namespace} {id : VarId} {v : Variable}
    (hr : h.Registered ns id v) (hs : h.Sound) : v.ns = ns := by
  obtain ⟨⟨name, hl⟩, hv⟩ := hr
  obtain ⟨w, hw, hns⟩ := hs ns name id hl
  rw [hv] at hw
  cases hw
  exact hns

/-- What is registered after a variable was added is that variable, or was registered before. -/
theorem registered_withVariable {h : Heap} (hs : h.Sound) {v w : Variable} {name : String}
    {ns : Namespace} {id : VarId} (hr : (h.withVariable v name).Registered ns id w) :
    (ns = v.ns ∧ id = ⟨h.arena.size⟩ ∧ w = v) ∨ h.Registered ns id w := by
  obtain ⟨⟨other, hl⟩, hw⟩ := hr
  rcases lookup_withVariable_cases hl with ho | ⟨_, rfl, _, rfl⟩
  · obtain ⟨u, hu, _⟩ := hs ns other id ho
    rw [find?_withVariable_of_some v name hu] at hw
    cases hw
    exact .inr ⟨⟨other, ho⟩, hu⟩
  · rw [find?_withVariable_new] at hw
    cases hw
    exact .inl ⟨rfl, rfl, rfl⟩

/-- What is registered after a change was registered before, changed or not. -/
theorem registered_withChange {h : Heap} {id other : VarId} {f : Variable → Variable}
    {ns : Namespace} {w : Variable} (hr : (h.withChange id f).Registered ns other w) :
    ∃ v, h.Registered ns other v ∧ (w = v ∨ w = f v) := by
  obtain ⟨hname, hw⟩ := hr
  rw [find?_withChange] at hw
  split at hw
  · rcases hv : h.find? other with _ | v <;> rw [hv] at hw <;> cases hw
    exact ⟨v, ⟨hname, hv⟩, .inr rfl⟩
  · exact ⟨w, ⟨hname, hw⟩, .inl rfl⟩

namespace Sound

variable {h : Heap}

theorem withVariable (hs : h.Sound) (v : Variable) (name : String) :
    (h.withVariable v name).Sound := by
  intro ns other id hl
  rcases lookup_withVariable_cases hl with ho | ⟨_, rfl, _, rfl⟩
  · obtain ⟨w, hw, hns⟩ := hs ns other id ho
    exact ⟨w, find?_withVariable_of_some v name hw, hns⟩
  · exact ⟨v, find?_withVariable_new h v name, rfl⟩

theorem withName (hs : h.Sound) {id : VarId} {v : Variable} (hv : h.find? id = some v)
    (name : String) : (h.withName v.ns name id).Sound := by
  intro ns other found hl
  rcases lookup_withName_cases hl with ho | ⟨rfl, _, rfl⟩
  · exact hs ns other found ho
  · exact ⟨v, hv, rfl⟩

theorem withChange (hs : h.Sound) (id : VarId) {f : Variable → Variable}
    (hf : ∀ v, (f v).ns = v.ns) : (h.withChange id f).Sound := by
  intro ns name found hl
  obtain ⟨v, hv, hns⟩ := hs ns name found hl
  rw [find?_withChange, hv]
  split
  · exact ⟨f v, rfl, by rw [hf, hns]⟩
  · exact ⟨v, rfl, hns⟩

end Sound

theorem bind_ns (v : Variable) (b : BoundVar) : (v.bind b).ns = v.ns := by
  unfold Variable.bind
  split <;> rfl

/-! ## Edits -/

/-- What a request can do to a heap at a time. A finished heap can not be edited. -/
inductive Edit (h : Heap) : Heap → Prop where
  | add {v : Variable} {name : String} : h.finished = false → h.lookup v.ns name = none →
    Edit h (h.withVariable v name)
  | named {id : VarId} {v : Variable} {name : String} : h.finished = false → h.find? id = some v →
    h.lookup v.ns name = none → Edit h (h.withName v.ns name id)
  | refer (id : VarId) (owner : String) : h.finished = false →
    Edit h (h.withChange id fun v => v.refer owner)
  | bind (id : VarId) (b : Variable → BoundVar) : h.finished = false →
    Edit h (h.withChange id fun v => v.bind (b v))
  | freeze : h.finished = false → Edit h { h with finished := true }

/-- Any number of edits, one after the other. -/
abbrev Edits : Heap → Heap → Prop := Relation.ReflTransGen Edit

/-- What a request can come to: whether it succeeds, and the heap that it leaves. A second name that
is taken is the only thing to be refused after a change. -/
inductive Outcome (h : Heap) : Request → Bool → Heap → Prop where
  | refused (request : Request) : Outcome h request false h
  | add {name : String} {ns : Namespace} {data : VariableData} {denied altName : Option String} :
    h.finished = false → h.lookup ns (altName.getD name) = none →
    Outcome h (.add name ns data denied altName) true
      (h.withVariable { Variable.fresh name ns data with denied } (altName.getD name))
  | stranded {id : VarId} {name : String} {v : Variable} : h.finished = false →
    h.find? id = some v → (h.lookup v.ns name).isSome →
    Outcome h (.addAlias id name) false (h.withChange id fun v => v.bind ⟨h.name, v.ns, name⟩)
  | named {id : VarId} {name : String} {v : Variable} : h.finished = false →
    h.find? id = some v → h.lookup v.ns name = none →
    Outcome h (.addAlias id name) true
      ((h.withChange id fun v => v.bind ⟨h.name, v.ns, name⟩).withName v.ns name id)
  | present (ns : Namespace) (name : String) (parent : Option VarId) :
    Outcome h (.member ns name parent) true h
  | member {ns : Namespace} {name : String} {id : VarId} {v : Variable} {d : Descriptor} :
    h.finished = false → h.find? id = some v → h.lookup ns (v.name ++ "." ++ name) = none →
    h.memberShape name v = .ok d →
    Outcome h (.member ns name (some id)) true
      (h.withVariable (.fresh (v.name ++ "." ++ name) ns (.typed d)) (v.name ++ "." ++ name))
  | refer {id : VarId} {v : Variable} (owner : String) : h.finished = false →
    h.find? id = some v →
    Outcome h (.addReference id owner) true (h.withChange id fun v => v.refer owner)
  | bind {id : VarId} {v : Variable} (b : BoundVar) : h.finished = false → h.find? id = some v →
    Outcome h (.addBound id b) true (h.withChange id fun v => v.bind b)
  | freeze : h.finished = false → Outcome h .finish true { h with finished := true }

theorem outcome_after (h : Heap) (request : Request) :
    Outcome h request (h.serves request) (h.after request) := by
  cases request with
  | add name ns data denied altName =>
    rcases add_cases { Variable.fresh name ns data with denied } altName h with
      ⟨e, he⟩ | ⟨hopen, hnew, he⟩ <;> rw [serves, after, he]
    · exact .refused _
    · exact .add hopen hnew
  | addAlias id name =>
    rcases addAlias_cases id name h with ⟨e, he⟩ | ⟨v, hopen, hv, ⟨htaken, e, he⟩ | ⟨hnew, he⟩⟩ <;>
      rw [serves, after, he]
    · exact .refused _
    · exact .stranded hopen hv htaken
    · exact .named hopen hv hnew
  | member ns name parent =>
    rcases attributeVariable_cases ns name parent h with
      hsame | ⟨id, v, d, rfl, hv, hopen, hnew, hd, he⟩
    · rw [after, hsame]
      cases h.serves (.member ns name parent) with
      | false => exact .refused _
      | true => exact .present ns name parent
    · rw [serves, after, he]
      exact .member hopen hv hnew hd
  | addReference id owner =>
    rcases addReference_cases id owner h with ⟨e, he⟩ | ⟨v, hopen, hv, he⟩ <;>
      rw [serves, after, he]
    · exact .refused _
    · exact .refer owner hopen hv
  | addBound id b =>
    rcases addBound_cases id b h with ⟨e, he⟩ | ⟨v, hopen, hv, he⟩ <;> rw [serves, after, he]
    · exact .refused _
    · exact .bind b hopen hv
  | finish =>
    rcases finish_cases h with ⟨e, he⟩ | ⟨hopen, he⟩ <;> rw [serves, after, he]
    · exact .refused _
    · exact .freeze hopen

theorem Outcome.edits {h h' : Heap} {request : Request} {served : Bool}
    (ho : Outcome h request served h') : Edits h h' := by
  cases ho with
  | refused | present => exact .refl
  | add hopen hnew => exact .single (.add hopen hnew)
  | @stranded id name _ hopen _ _ => exact .single (.bind id (fun v => ⟨h.name, v.ns, name⟩) hopen)
  | @named id name v hopen hv hnew =>
    have hbind : Edits h (h.withChange id fun v => v.bind ⟨h.name, v.ns, name⟩) :=
      .single (.bind id (fun v => ⟨h.name, v.ns, name⟩) hopen)
    have hfind : (h.withChange id fun v => v.bind ⟨h.name, v.ns, name⟩).find? id =
        some (v.bind ⟨h.name, v.ns, name⟩) := by
      rw [find?_withChange, if_pos rfl, hv]
      rfl
    rw [← bind_ns v ⟨h.name, v.ns, name⟩] at hnew ⊢
    exact hbind.tail (.named hopen hfind hnew)
  | member hopen _ hnew _ => exact .single (.add hopen hnew)
  | @refer id _ owner hopen _ => exact .single (.refer id owner hopen)
  | @bind id _ b hopen _ => exact .single (.bind id (fun _ => b) hopen)
  | freeze hopen => exact .single (.freeze hopen)

/-- All that a request does is edits. One that fails may have made some before. -/
theorem edits_after (h : Heap) (request : Request) : Edits h (h.after request) :=
  (outcome_after h request).edits

theorem edits_requests (h : Heap) (requests : List Request) :
    Edits h (requests.foldl after h) := by
  induction requests generalizing h with
  | nil => exact .refl
  | cons request rest ih => exact (edits_after h request).trans (ih (h.after request))

/-! ## Soundness -/

/-- No edit makes a name lead nowhere. -/
theorem Edit.sound {h h' : Heap} (he : Edit h h') (hs : h.Sound) : h'.Sound := by
  cases he with
  | add _ _ => exact hs.withVariable _ _
  | named _ hv _ => exact hs.withName hv _
  | refer id owner _ => exact hs.withChange id fun v => rfl
  | bind id b _ => exact hs.withChange id fun v => bind_ns v (b v)
  | freeze _ => exact hs

theorem Edits.sound {h h' : Heap} (he : Edits h h') (hs : h.Sound) : h'.Sound := by
  induction he with
  | refl => exact hs
  | tail _ hedit ih => exact hedit.sound ih

theorem sound_empty (name : String) (maxSuggestions : Nat) : (empty name maxSuggestions).Sound := by
  intro ns other id hl
  cases hl

/-- In every heap that can be made, a registered name leads to a variable of its namespace. -/
theorem Reachable.sound {h : Heap} (hr : h.Reachable) : h.Sound := by
  obtain ⟨name, maxSuggestions, requests, rfl⟩ := hr
  exact Edits.sound (edits_requests _ requests) (sound_empty name maxSuggestions)

/-! ## A heap to look at -/

/-- Asks for a company that is found as an employer. -/
def Request.employer : Request := .add "company" .models .object none (some "employer")

/-- A heap with a company that is found as an employer, and under no other name. -/
def employed : Heap := (empty "rules" 10).after Request.employer

theorem employed_reachable : employed.Reachable := ⟨"rules", 10, [Request.employer], rfl⟩

end Formwork.Heap
