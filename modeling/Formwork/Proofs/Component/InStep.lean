-- Trees whose parts are in step. A tree says four times what stands where: in the order of its
-- nodes, in the position and the owner of each node, in its children, and in the index of names.
-- Adding a node changes all four, one after the other, and leaves them in step if the new node is
-- owned by the last one or by one of its owners.
import Formwork.Component.Tree
import Mathlib.Data.List.Nodup

namespace Formwork

/-- The node without what stands there, and whether that was set up: its position and its name, its
kind, its owner and its children. -/
def NodeOf.place {α : Type} (node : NodeOf α) : NodeOf α :=
  { node with part := none, finished := false }

theorem NodeOf.place_eq {α : Type} {node node' : NodeOf α} (h : node.place = node'.place) :
    node.id = node'.id ∧ node.name = node'.name ∧ node.kind = node'.kind ∧
      node.owner = node'.owner ∧ node.ownerName = node'.ownerName ∧
      node.children = node'.children := by
  obtain ⟨_, _, _, _, _, _, _, _⟩ := node
  cases h
  exact ⟨rfl, rfl, rfl, rfl, rfl, rfl⟩

namespace TreeOf

variable {α : Type} {t t' : TreeOf α}

/-! ## Owners -/

/-- The node at `id` is the one at `p`, or is owned by one that stands inside `p`. -/
inductive Inside (t : TreeOf α) (p : Nat) : Nat → Prop where
  | self : Inside t p p
  | owned {id owner : Nat} {node : NodeOf α} (hn : t.get? id = some node)
      (ho : node.owner = .component owner) (h : Inside t p owner) : Inside t p id

theorem Inside.trans {p q id : Nat} (hp : t.Inside p q) (hq : t.Inside q id) : t.Inside p id := by
  induction hq with
  | self => exact hp
  | owned hn ho _ ih => exact .owned hn ho ih

/-- A node without an owner is inside no other node. -/
theorem inside_iff_eq {p id : Nat}
    (houtside : ∀ node, t.get? id = some node → ∀ q, node.owner ≠ .component q) :
    t.Inside p id ↔ p = id := by
  refine ⟨fun h => ?_, fun h => h ▸ .self⟩
  cases h with
  | self => rfl
  | owned hn ho _ => exact absurd ho (houtside _ hn _)

/-- What is inside a node is the node itself, or its owner is inside it too. -/
theorem Inside.cases_owner {p id owner : Nat} {node : NodeOf α} (h : t.Inside p id)
    (hn : t.get? id = some node) (ho : node.owner = .component owner) :
    id = p ∨ t.Inside p owner := by
  cases h with
  | self => exact .inl rfl
  | owned hn' ho' h =>
    obtain rfl := Option.some.inj (hn.symm.trans hn')
    obtain rfl := Owner.component.inj (ho.symm.trans ho')
    exact .inr h

theorem lt_size_of_get? {id : Nat} {node : NodeOf α} (hn : t.get? id = some node) : id < t.size :=
  (List.getElem?_eq_some_iff.1 hn).1

/-- The positions of the nodes that say that a node owns them, in order. -/
def ownedBy (t : TreeOf α) (p : Nat) : List Nat :=
  (List.range t.size).filter fun id => (t.get? id).any fun node => node.owner == .component p

theorem mem_ownedBy {p id : Nat} :
    id ∈ t.ownedBy p ↔ ∃ node, t.get? id = some node ∧ node.owner = .component p := by
  rw [ownedBy, List.mem_filter, List.mem_range]
  rcases hn : t.get? id with _ | node
  · simp
  · simp [lt_size_of_get? hn]

theorem pairwise_ownedBy (t : TreeOf α) (p : Nat) : (t.ownedBy p).Pairwise (· < ·) :=
  List.pairwise_lt_range.filter _

/-! ## The invariant -/

/-- The order of the nodes, their positions and owners, their children and the index of names agree.
The first node has no owner in the tree, and each later one is owned by the node right before it or
by one of the owners of that. -/
structure InStep (t : TreeOf α) : Prop where
  ids : ∀ id node, t.get? id = some node → node.id = id
  index : t.byName = t.nodes.map fun node => (node.name, node.id)
  names : t.names.Nodup
  root : ∃ node, t.get? 0 = some node ∧ ∀ p, node.owner ≠ .component p
  owned : ∀ id node, t.get? (id + 1) = some node → ∃ p above, p ≤ id ∧ t.Inside p id ∧
    t.get? p = some above ∧ node.owner = .component p ∧ node.ownerName = some above.name
  children : ∀ p node, t.get? p = some node → node.children = t.ownedBy p

theorem InStep.names_eq (ht : t.InStep) : t.names = t.nodes.map NodeOf.name := by
  rw [TreeOf.names, Ordered.keys, ht.index, List.map_map]
  rfl

/-- A name leads to the only node that has it. -/
theorem InStep.find?_eq_some_iff (ht : t.InStep) {name : String} {node : NodeOf α} :
    t.find? name = some node ↔ t.get? node.id = some node ∧ node.name = name := by
  rw [find?, Option.bind_eq_some_iff]
  constructor
  · rintro ⟨id, hid, hn⟩
    have hmem := Ordered.mem_of_find? hid
    rw [ht.index] at hmem
    obtain ⟨other, hother, heq⟩ := List.mem_map.1 hmem
    cases heq
    obtain ⟨place, hplace⟩ := List.getElem?_of_mem hother
    obtain rfl : place = other.id := (ht.ids place other hplace).symm
    obtain rfl := Option.some.inj (hplace.symm.trans hn)
    exact ⟨hn, rfl⟩
  · rintro ⟨hn, rfl⟩
    refine ⟨node.id, Ordered.find?_of_mem ht.names ?_, hn⟩
    rw [ht.index]
    exact List.mem_map.2 ⟨node, List.mem_of_getElem? hn, rfl⟩

theorem InStep.find?_eq_none_iff (ht : t.InStep) {name : String} :
    t.find? name = none ↔ name ∉ t.names := by
  rw [ht.names_eq]
  constructor
  · rintro hnone hmem
    obtain ⟨node, hnode, rfl⟩ := List.mem_map.1 hmem
    obtain ⟨id, hid⟩ := List.getElem?_of_mem hnode
    obtain rfl : id = node.id := (ht.ids id node hid).symm
    rw [ht.find?_eq_some_iff.2 ⟨hid, rfl⟩] at hnone
    cases hnone
  · intro hnew
    refine Option.eq_none_iff_forall_ne_some.2 fun node hfound => hnew ?_
    obtain ⟨hn, rfl⟩ := ht.find?_eq_some_iff.1 hfound
    exact List.mem_map_of_mem (List.mem_of_getElem? hn)

/-! ## Adding a node -/

theorem modify_append {β : Type} {before : List β} {i : Nat} (h : i < before.length) (f : β → β)
    (after : List β) : (before ++ after).modify i f = before.modify i f ++ after := by
  refine List.ext_getElem? fun j => ?_
  simp only [List.getElem?_modify, List.getElem?_append, List.length_modify]
  by_cases hj : j < before.length
  · simp only [if_pos hj]
  · have hij : i ≠ j := by omega
    simp [if_neg hj, hij]

theorem modify_concat {β : Type} {before : List β} {i : Nat} (h : i = before.length) (f : β → β)
    (b : β) : (before ++ [b]).modify i f = before ++ [f b] := by
  subst h
  refine List.ext_getElem? fun j => ?_
  simp only [List.getElem?_modify, List.getElem?_append]
  by_cases hj : j < before.length
  · have hij : before.length ≠ j := by omega
    simp [hj, hij]
  · by_cases hij : before.length = j
    · subst hij
      simp
    · have hpos : j - before.length ≠ 0 := by omega
      simp [hj, hij, hpos]

theorem map_modify {β γ : Type} {f : β → β} {g : β → γ} (h : ∀ b, g (f b) = g b) (i : Nat)
    (items : List β) : (items.modify i f).map g = items.map g := by
  refine List.ext_getElem? fun j => ?_
  simp only [List.getElem?_map, List.getElem?_modify]
  rcases items[j]? with _ | b
  · rfl
  · by_cases hij : i = j <;> simp [hij, h]

theorem node_ok_iff {id : Nat} {node : NodeOf α} : t.node id = .ok node ↔ t.get? id = some node := by
  rw [TreeOf.node]
  split <;> rename_i hn <;> simp [hn]

theorem insert_ok_iff {name : String} {kind : ComponentKind} {owner : Owner}
    {ownerName : Option String} {part : Option α} {added : Nat × TreeOf α} :
    t.insert name kind owner ownerName part = .ok added ↔
      owner ≠ .unset ∧ t.find? name = none ∧ added = (t.size,
        ⟨t.nodes ++ [⟨t.size, name, kind, owner, ownerName, [], part, false⟩],
          t.byName.put name t.size⟩) := by
  rw [insert]
  by_cases howner : owner = .unset
  · rw [if_pos howner]
    exact ⟨nofun, fun h => absurd howner h.1⟩
  · rw [if_neg howner]
    rcases hfound : t.find? name with _ | existing
    · exact ⟨fun h => ⟨howner, rfl, (Except.ok.inj h).symm⟩, fun h => h.2.2 ▸ rfl⟩
    · simp

theorem adopt_ok_iff {p child : Nat} :
    t.adopt p child = .ok t' ↔
      p < t.size ∧ t' = { t with nodes := t.nodes.modify p (.adopting [child]) } := by
  rw [adopt, TreeOf.node]
  rcases hn : t.get? p with _ | node
  · have hsize : ¬ p < t.size := Nat.not_lt.2 (List.getElem?_eq_none_iff.1 hn)
    simp [hsize]
  · simp [lt_size_of_get? hn, eq_comm]

/-- The tree with a node more at the end, which the node at `p` owns. -/
def withChild (t : TreeOf α) (p : Nat) (node : NodeOf α) : TreeOf α :=
  ⟨t.nodes.modify p (.adopting [t.size]) ++ [node], t.byName ++ [(node.name, t.size)]⟩

/-- Inserting a node for an owner and noting it there adds it if its name is new. -/
theorem InStep.insert_adopt_iff (ht : t.InStep) {p id : Nat} (hp : p < t.size) {name : String}
    {kind : ComponentKind} {ownerName : Option String} {part : Option α} :
    (∃ t₁, t.insert name kind (.component p) ownerName part = .ok (id, t₁) ∧
      t₁.adopt p id = .ok t') ↔
      name ∉ t.names ∧ id = t.size ∧ t' = t.withChild p
        ⟨t.size, name, kind, .component p, ownerName, [], part, false⟩ := by
  simp only [insert_ok_iff, adopt_ok_iff, ht.find?_eq_none_iff]
  constructor
  · rintro ⟨t₁, ⟨_, hnew, hadded⟩, _, rfl⟩
    cases hadded
    refine ⟨hnew, rfl, ?_⟩
    rw [withChild, modify_append hp, Ordered.put_of_not_mem _ hnew]
  · rintro ⟨hnew, rfl, rfl⟩
    refine ⟨_, ⟨nofun, hnew, rfl⟩, ?_, ?_⟩
    · simp only [size, List.length_append]
      exact Nat.lt_add_right _ hp
    · rw [withChild, modify_append hp, Ordered.put_of_not_mem _ hnew]

section

variable {p : Nat} {node : NodeOf α}

theorem get?_withChild (id : Nat) :
    (t.withChild p node).get? id =
      if id = t.size then some node
      else (t.get? id).map fun old => if p = id then old.adopting [t.size] else old := by
  simp only [get?, withChild, List.getElem?_append, List.length_modify, List.getElem?_modify]
  rcases Nat.lt_trichotomy id t.size with hlt | rfl | hgt
  · rw [if_pos (show id < t.nodes.length from hlt), if_neg (Nat.ne_of_lt hlt)]
    rfl
  · simp [size]
  · have hbeyond : t.nodes.length < id := hgt
    have hnone : t.nodes[id]? = none := List.getElem?_eq_none (Nat.le_of_lt hbeyond)
    have hafter : ([node] : List (NodeOf α))[id - t.nodes.length]? = none :=
      List.getElem?_eq_none (by simp; omega)
    rw [if_neg (Nat.lt_asymm hbeyond), if_neg (Nat.ne_of_gt hgt), hafter, hnone]
    rfl

theorem get?_withChild_last : (t.withChild p node).get? t.size = some node := by
  rw [get?_withChild, if_pos rfl]

/-- A node that is there stays as it is, but for its children. -/
theorem get?_withChild_of_some {id : Nat} {old : NodeOf α}
    (hold : t.get? id = some old) : (t.withChild p node).get? id =
      some (if p = id then old.adopting [t.size] else old) := by
  rw [get?_withChild, if_neg (Nat.ne_of_lt (lt_size_of_get? hold)), hold]
  rfl

/-- A node is the new one, or one that was there, with its children perhaps. -/
theorem get?_withChild_cases {id : Nat} {other : NodeOf α}
    (h : (t.withChild p node).get? id = some other) :
    (id = t.size ∧ other = node) ∨ (id < t.size ∧ ∃ old, t.get? id = some old ∧
      other = if p = id then old.adopting [t.size] else old) := by
  rw [get?_withChild] at h
  split at h
  · rename_i hlast
    exact .inl ⟨hlast, (Option.some.inj h).symm⟩
  · obtain ⟨old, hold, rfl⟩ := Option.map_eq_some_iff.1 h
    exact .inr ⟨lt_size_of_get? hold, old, hold, rfl⟩

@[simp] theorem size_withChild : (t.withChild p node).size = t.size + 1 := by
  simp [size, withChild]

theorem names_withChild : (t.withChild p node).names = t.names ++ [node.name] := by
  simp [TreeOf.names, withChild, Ordered.keys]

theorem modify_withChild (f : NodeOf α → NodeOf α) :
    (t.withChild p node).nodes.modify t.size f =
      t.nodes.modify p (.adopting [t.size]) ++ [f node] :=
  modify_concat (List.length_modify _ _ _).symm f node

theorem Inside.withChild {q id : Nat} (h : t.Inside q id) :
    (t.withChild p node).Inside q id := by
  induction h with
  | self => exact .self
  | owned hn ho _ ih =>
    refine .owned (get?_withChild_of_some hn) ?_ ih
    split <;> exact ho

/-- The new node is the last one. -/
theorem inside_withChild_last :
    (t.withChild p node).Inside t.size ((t.withChild p node).size - 1) := by
  rw [size_withChild, Nat.add_sub_cancel]
  exact .self

theorem ownedBy_withChild (howner : node.owner = .component p) (q : Nat) :
    (t.withChild p node).ownedBy q = t.ownedBy q ++ if q = p then [t.size] else [] := by
  have hkept : ∀ id ∈ List.range t.size,
      ((t.withChild p node).get? id).any (fun node => node.owner == .component q) =
        (t.get? id).any fun node => node.owner == .component q := by
    intro id hid
    rw [get?_withChild, if_neg (Nat.ne_of_lt (List.mem_range.1 hid))]
    rcases t.get? id with _ | old
    · rfl
    · simp only [Option.map_some, Option.any_some]
      split <;> rfl
  have hlast : ((t.withChild p node).get? t.size).any (fun node => node.owner == .component q) =
      decide (q = p) := by
    rw [get?_withChild_last, Option.any_some, howner]
    by_cases hq : q = p
    · simp [hq]
    · simp [hq, Ne.symm hq]
  rw [ownedBy, size_withChild, List.range_succ, List.filter_append, List.filter_congr hkept,
    List.filter_singleton, hlast]
  by_cases hq : q = p <;> simp [hq, ownedBy]

/-- Nothing is owned by a node that is not there yet. -/
theorem InStep.ownedBy_size (ht : t.InStep) : t.ownedBy t.size = [] := by
  refine List.eq_nil_iff_forall_not_mem.2 fun id hmem => ?_
  obtain ⟨child, hchild, ho⟩ := mem_ownedBy.1 hmem
  rcases id with _ | id
  · obtain ⟨root, hroot, houtside⟩ := ht.root
    obtain rfl := Option.some.inj (hroot.symm.trans hchild)
    exact houtside _ ho
  · obtain ⟨p, _, _, _, hp, ho', _⟩ := ht.owned id child hchild
    obtain rfl := Owner.component.inj (ho.symm.trans ho')
    exact Nat.lt_irrefl _ (lt_size_of_get? hp)

/-- A node that is owned by the last one, or by one of its owners, leaves a tree in step. -/
theorem InStep.withChild (ht : t.InStep) {above : NodeOf α} (hlast : t.Inside p (t.size - 1))
    (habove : t.get? p = some above) (hid : node.id = t.size) (howner : node.owner = .component p)
    (hownerName : node.ownerName = some above.name) (hchildren : node.children = [])
    (hnew : node.name ∉ t.names) :
    (t.withChild p node).InStep ∧ (t.withChild p node).Inside p t.size := by
  have hp := lt_size_of_get? habove
  refine ⟨⟨?_, ?_, ?_, ?_, ?_, ?_⟩, .owned (get?_withChild_last) howner .self⟩
  · intro id other hother
    rcases get?_withChild_cases hother with ⟨rfl, rfl⟩ | ⟨_, old, hold, rfl⟩
    · exact hid
    · rw [← ht.ids id old hold]
      split <;> rfl
  · simp only [TreeOf.withChild, List.map_append, List.map_singleton, hid, ht.index]
    rw [map_modify (f := NodeOf.adopting [t.size]) fun _ => rfl]
  · rw [names_withChild]
    refine List.nodup_append.2 ⟨ht.names, List.nodup_singleton _, fun a ha b hb => ?_⟩
    rw [List.mem_singleton.1 hb]
    rintro rfl
    exact hnew ha
  · obtain ⟨root, hroot, houtside⟩ := ht.root
    refine ⟨_, get?_withChild_of_some hroot, ?_⟩
    split <;> exact houtside
  · intro id other hother
    rcases get?_withChild_cases hother with ⟨hsize, rfl⟩ | ⟨_, old, hold, rfl⟩
    · obtain rfl : id = t.size - 1 := by omega
      refine ⟨p, _, by omega, hlast.withChild, get?_withChild_of_some habove, howner, ?_⟩
      split <;> exact hownerName
    · obtain ⟨q, holder, hle, hinside, hholder, hq, hname⟩ := ht.owned id old hold
      refine ⟨q, _, hle, hinside.withChild, get?_withChild_of_some hholder, ?_, ?_⟩
      · split <;> exact hq
      · split <;> split <;> exact hname
  · intro q other hother
    rw [ownedBy_withChild howner]
    rcases get?_withChild_cases hother with ⟨rfl, rfl⟩ | ⟨_, old, hold, rfl⟩
    · rw [hchildren, ht.ownedBy_size, if_neg (Nat.ne_of_gt hp)]
      rfl
    · by_cases hq : p = q
      · rw [if_pos hq, if_pos hq.symm, NodeOf.adopting, ht.children q old hold]
      · rw [if_neg hq, if_neg (Ne.symm hq), List.append_nil]
        exact ht.children q old hold

end

/-! ## What is in step -/

/-- The search for owners comes to an end: from a node it leads past these, and then there is no
other one. -/
inductive Climbs (t : TreeOf α) : Nat → List Nat → Prop where
  | top {id : Nat} : (∀ node, t.get? id = some node → ∀ p, node.owner ≠ .component p) →
    Climbs t id []
  | up {id p : Nat} {node : NodeOf α} {chain : List Nat} : t.get? id = some node →
    node.owner = .component p → Climbs t p chain → Climbs t id (p :: chain)

theorem repeat_climb (t : TreeOf α) (state : List Nat × Option (NodeOf α)) :
    Id.run (repeatM (fun state => pure (t.climb state)) state) =
      match t.climb state with
      | .inl next => Id.run (repeatM (fun state => pure (t.climb state)) next)
      | .inr owners => owners := by
  rw [repeatM_eq_of_monadTail, repeatM.body, pure_bind]
  rcases t.climb state with next | owners <;> rfl

theorem Climbs.repeat_climb {id : Nat} {chain : List Nat} (h : t.Climbs id chain)
    (owners : List Nat) :
    Id.run (repeatM (fun state => pure (t.climb state)) (owners, t.get? id)) = owners ++ chain := by
  induction h generalizing owners with
  | @top id houtside =>
    have hdone : t.climb (owners, t.get? id) = .inr owners := by
      rw [climb]
      split
      · rename_i p ho
        obtain ⟨node, hn, ho⟩ := Option.map_eq_some_iff.1 ho
        exact absurd ho (houtside node hn p)
      · rfl
    rw [TreeOf.repeat_climb, hdone, List.append_nil]
  | @up id p node chain hn ho _ ih =>
    have hnext : t.climb (owners, t.get? id) = .inl (owners ++ [p], t.get? p) := by
      rw [climb, hn, Option.map_some, ho]
    rw [TreeOf.repeat_climb, hnext]
    exact (ih (owners ++ [p])).trans (List.append_assoc owners [p] chain)

theorem Climbs.ownerChain_eq {id : Nat} {chain : List Nat} (h : t.Climbs id chain) :
    t.ownerChain id = chain :=
  h.repeat_climb []

namespace InStep

/-- A node behind the first has an owner before it, which it names. -/
theorem owner (ht : t.InStep) {id : Nat} {node : NodeOf α} (hn : t.get? id = some node)
    (hid : 0 < id) : ∃ p above, p < id ∧ t.get? p = some above ∧ node.owner = .component p ∧
      node.ownerName = some above.name := by
  obtain ⟨before, rfl⟩ := Nat.exists_eq_succ_of_ne_zero (Nat.ne_of_gt hid)
  obtain ⟨p, above, hle, _, habove, ho, hname⟩ := ht.owned before node hn
  exact ⟨p, above, Nat.lt_succ_of_le hle, habove, ho, hname⟩

/-- The owners of a node lead up to the first one, each before the last. -/
theorem climbs (ht : t.InStep) (id : Nat) : ∃ chain, t.Climbs id chain ∧
    (id :: chain).Pairwise (· > ·) ∧ (id < t.size → (id :: chain).getLast? = some 0) ∧
    ∀ p, t.Inside p id ↔ p ∈ id :: chain := by
  -- A node without an owner ends the way.
  have htop : ∀ id, (∀ node, t.get? id = some node → ∀ p, node.owner ≠ .component p) →
      t.Climbs id [] ∧ ∀ p, t.Inside p id ↔ p ∈ [id] := fun id houtside =>
    ⟨.top houtside, fun p => (inside_iff_eq houtside).trans List.mem_singleton.symm⟩
  induction id using Nat.strongRecOn with
  | ind id ih =>
    rcases hn : t.get? id with _ | node
    · have houtside : ∀ node, t.get? id = some node → ∀ p, node.owner ≠ .component p := by
        simp [hn]
      have hsize : ¬ id < t.size := Nat.not_lt.2 (List.getElem?_eq_none_iff.1 hn)
      obtain ⟨hclimbs, hinside⟩ := htop id houtside
      exact ⟨[], hclimbs, List.pairwise_singleton _ _, fun hlt => absurd hlt hsize, hinside⟩
    · rcases Nat.eq_zero_or_pos id with rfl | hpos
      · obtain ⟨root, hroot, hroot'⟩ := ht.root
        have houtside : ∀ node, t.get? 0 = some node → ∀ p, node.owner ≠ .component p := by
          intro other hother
          rwa [← Option.some.inj (hroot.symm.trans hother)]
        obtain ⟨hclimbs, hinside⟩ := htop 0 houtside
        exact ⟨[], hclimbs, List.pairwise_singleton _ _, fun _ => rfl, hinside⟩
      · obtain ⟨p, above, hlt, habove, ho, _⟩ := ht.owner hn hpos
        obtain ⟨chain, hchain, hdescending, hlast, hinside⟩ := ih p hlt
        refine ⟨p :: chain, .up hn ho hchain, ?_, ?_, ?_⟩
        · refine List.pairwise_cons.2 ⟨fun q hq => ?_, hdescending⟩
          rcases List.mem_cons.1 hq with rfl | hq
          · exact hlt
          · exact Nat.lt_trans (List.rel_of_pairwise_cons hdescending hq) hlt
        · intro _
          rw [List.getLast?_cons_cons]
          exact hlast (lt_size_of_get? habove)
        · intro q
          rw [List.mem_cons, ← hinside q]
          refine ⟨fun h => (h.cases_owner hn ho).imp_left Eq.symm, ?_⟩
          rintro (rfl | h)
          · exact .self
          · exact .owned hn ho h

theorem le_of_inside (ht : t.InStep) {p id : Nat} (h : t.Inside p id) : p ≤ id := by
  obtain ⟨chain, _, hdescending, _, hinside⟩ := ht.climbs id
  rcases List.mem_cons.1 ((hinside p).1 h) with rfl | hp
  · exact Nat.le_refl _
  · exact Nat.le_of_lt (List.rel_of_pairwise_cons hdescending hp)

/-- What stands inside a node comes right after it: between the node and something inside it there
is nothing else. -/
theorem inside_of_inside_succ (ht : t.InStep) {p id : Nat} (hid : id + 1 < t.size)
    (hp : p ≤ id) (h : t.Inside p (id + 1)) : t.Inside p id := by
  have hn : t.get? (id + 1) = some t.nodes[id + 1] := List.getElem?_eq_getElem hid
  obtain ⟨q, _, _, hq, _, ho, _⟩ := ht.owned id _ hn
  rcases h.cases_owner hn ho with rfl | h
  · omega
  · exact h.trans hq

/-- The nodes inside a node are a range that starts with it. -/
theorem inside_range (ht : t.InStep) (p : Nat) :
    ∃ n, ∀ id < t.size, t.Inside p id ↔ p ≤ id ∧ id < p + n := by
  -- The range grows as long as the next node is inside; after one that is not, none is.
  have hgrow : ∀ k, ∃ n ≤ k, ∀ id < t.size, id < p + k → (t.Inside p id ↔ p ≤ id ∧ id < p + n) := by
    intro k
    induction k with
    | zero =>
      refine ⟨0, Nat.le_refl 0, fun id _ hlt => ⟨fun h => ?_, fun h => ?_⟩⟩
      · have := ht.le_of_inside h
        omega
      · omega
    | succ k ih =>
      obtain ⟨n, hn, hbelow⟩ := ih
      by_cases hin : p + k < t.size ∧ t.Inside p (p + k)
      · -- All nodes up to this one are inside.
        have hall : n = k := by
          by_contra hne
          have hprev : t.Inside p (p + k - 1) := by
            refine ht.inside_of_inside_succ ?_ (by omega) ?_
            · omega
            · rw [Nat.sub_add_cancel (by omega)]
              exact hin.2
          have := ((hbelow (p + k - 1) (by omega) (by omega)).1 hprev).2
          omega
        subst hall
        refine ⟨n + 1, Nat.le_refl _, fun id hid hlt => ?_⟩
        rcases Nat.lt_or_ge id (p + n) with hbefore | hge
        · rw [hbelow id hid hbefore]
          omega
        · obtain rfl : id = p + n := by omega
          exact ⟨fun _ => by omega, fun _ => hin.2⟩
      · refine ⟨n, by omega, fun id hid hlt => ?_⟩
        rcases Nat.lt_or_ge id (p + k) with hbefore | hge
        · exact hbelow id hid hbefore
        · obtain rfl : id = p + k := by omega
          exact ⟨fun h => absurd ⟨hid, h⟩ hin, fun h => by omega⟩
  obtain ⟨n, _, hrange⟩ := hgrow t.size
  exact ⟨n, fun id hid => hrange id hid (by omega)⟩

end InStep

/-- What the nodes of a tree, its index and its chains of owners say of each other. -/
structure Hierarchy (t : TreeOf α) : Prop where
  /-- A node is known by its position. -/
  ids : ∀ id node, t.get? id = some node → node.id = id
  /-- The index lists the nodes in order. No two have one name, and a name leads to the node that has
  it. -/
  index : t.byName = t.nodes.map fun node => (node.name, node.id)
  names : t.names.Nodup
  found : ∀ name node, t.find? name = some node ↔ t.get? node.id = some node ∧ node.name = name
  /-- Every node but the first is owned by one before it, which it names. -/
  owner : ∀ id node, 0 < id → t.get? id = some node → ∃ p above, p < id ∧
    t.get? p = some above ∧ node.owner = .component p ∧ node.ownerName = some above.name ∧
    t.ownerChain id = p :: t.ownerChain p
  /-- The search for the owners of a node comes to an end. They come closer to the first node, and end
  there. -/
  chain : ∀ id, t.Climbs id (t.ownerChain id) ∧ (id :: t.ownerChain id).Pairwise (· > ·) ∧
    (id < t.size → (id :: t.ownerChain id).getLast? = some 0)
  /-- The children of a node are those that it owns, in order. -/
  children : ∀ p node, t.get? p = some node → node.children.Pairwise (· < ·) ∧
    ∀ child, child ∈ node.children ↔
      ∃ other, t.get? child = some other ∧ other.owner = .component p
  /-- A node and all that stands inside it come one after the other. -/
  range : ∀ p, ∃ n, ∀ id < t.size,
    p ∈ id :: t.ownerChain id ↔ p ≤ id ∧ id < p + n

theorem InStep.hierarchy (ht : t.InStep) : t.Hierarchy where
  ids := ht.ids
  index := ht.index
  names := ht.names
  found _ _ := ht.find?_eq_some_iff
  owner id node hid hn := by
    obtain ⟨p, above, hlt, habove, ho, hname⟩ := ht.owner hn hid
    obtain ⟨chain, hchain, _⟩ := ht.climbs p
    have hnext : t.ownerChain id = p :: t.ownerChain p := by
      rw [(Climbs.up hn ho hchain).ownerChain_eq, hchain.ownerChain_eq]
    exact ⟨p, above, hlt, habove, ho, hname, hnext⟩
  chain id := by
    obtain ⟨chain, hchain, hdescending, hlast, _⟩ := ht.climbs id
    rw [hchain.ownerChain_eq]
    exact ⟨hchain, hdescending, hlast⟩
  children p node hn := by
    rw [ht.children p node hn]
    exact ⟨pairwise_ownedBy t p, fun _ => mem_ownedBy⟩
  range p := by
    obtain ⟨n, hrange⟩ := ht.inside_range p
    refine ⟨n, fun id hid => ?_⟩
    obtain ⟨chain, hchain, _, _, hinside⟩ := ht.climbs id
    rw [← hrange id hid, hinside p, hchain.ownerChain_eq]

/-! ## Places -/

theorem get?_of_places (h : t'.nodes.map NodeOf.place = t.nodes.map NodeOf.place) {id : Nat}
    {node' : NodeOf α} (hn : t'.get? id = some node') :
    ∃ node, t.get? id = some node ∧ node.place = node'.place := by
  have hid := congrArg (fun places : List (NodeOf α) => places[id]?) h
  simp only [List.getElem?_map] at hid
  rw [show t'.nodes[id]? = some node' from hn, Option.map_some] at hid
  exact Option.map_eq_some_iff.1 hid.symm

theorem Inside.of_places (h : t'.nodes.map NodeOf.place = t.nodes.map NodeOf.place) {p id : Nat}
    (hin : t'.Inside p id) : t.Inside p id := by
  induction hin with
  | self => exact .self
  | owned hn ho _ ih =>
    obtain ⟨node, hnode, hplace⟩ := get?_of_places h hn
    exact .owned hnode ((NodeOf.place_eq hplace).2.2.2.1.trans ho) ih

theorem ownedBy_of_places (h : t'.nodes.map NodeOf.place = t.nodes.map NodeOf.place) (p : Nat) :
    t'.ownedBy p = t.ownedBy p := by
  have hsize : t'.size = t.size := by
    have hlength := congrArg List.length h
    rwa [List.length_map, List.length_map] at hlength
  have hany : ∀ (s : TreeOf α) id, (s.get? id).any (fun node => node.owner == .component p) =
      ((s.nodes.map NodeOf.place)[id]?).any fun node => node.owner == .component p := by
    intro s id
    rw [List.getElem?_map, Option.any_map]
    rfl
  simp only [ownedBy, hsize, hany, h]

/-- Whether the parts of a tree are in step depends on its index and on the places of its nodes. -/
theorem InStep.of_places (ht : t.InStep) (hindex : t'.byName = t.byName)
    (h : t'.nodes.map NodeOf.place = t.nodes.map NodeOf.place) : t'.InStep where
  ids id node' hn := by
    obtain ⟨node, hnode, hplace⟩ := get?_of_places h hn
    rw [← (NodeOf.place_eq hplace).1]
    exact ht.ids id node hnode
  index := by
    have hpairs : ∀ nodes : List (NodeOf α), nodes.map (fun node => (node.name, node.id)) =
        (nodes.map NodeOf.place).map fun node => (node.name, node.id) := by
      intro nodes
      rw [List.map_map]
      rfl
    rw [hindex, ht.index, hpairs t.nodes, hpairs t'.nodes, h]
  names := by
    rw [TreeOf.names, hindex]
    exact ht.names
  root := by
    obtain ⟨root, hroot, houtside⟩ := ht.root
    obtain ⟨root', hroot', hplace⟩ := get?_of_places h.symm hroot
    refine ⟨root', hroot', fun p ho => houtside p ?_⟩
    exact (NodeOf.place_eq hplace).2.2.2.1.symm.trans ho
  owned id node' hn := by
    obtain ⟨node, hnode, hplace⟩ := get?_of_places h hn
    obtain ⟨p, above, hle, hinside, habove, ho, hname⟩ := ht.owned id node hnode
    obtain ⟨above', habove', hplace'⟩ := get?_of_places h.symm habove
    obtain ⟨_, _, _, howner, hownerName, _⟩ := NodeOf.place_eq hplace
    refine ⟨p, above', hle, hinside.of_places h.symm, habove', howner.symm.trans ho, ?_⟩
    rw [← hownerName, hname, (NodeOf.place_eq hplace').2.1]
  children p node' hn := by
    obtain ⟨node, hnode, hplace⟩ := get?_of_places h hn
    rw [ownedBy_of_places h, ← (NodeOf.place_eq hplace).2.2.2.2.2]
    exact ht.children p node hnode

/-! ## The first node -/

/-- A tree with the container's own node only. -/
def ofRoot (name : String) (kind : ComponentKind) (owner : Owner) (ownerName : Option String) :
    TreeOf α :=
  ⟨[⟨0, name, kind, owner, ownerName, [], none, false⟩], [(name, 0)]⟩

theorem insertRoot_ok_iff {name : String} {kind : ComponentKind} {owner : Owner}
    {ownerName : Option String} {added : Nat × TreeOf α} :
    TreeOf.empty.insertRoot name kind owner ownerName = .ok added ↔
      owner ≠ .unset ∧ added = (0, ofRoot name kind owner ownerName) := by
  show TreeOf.empty.insert name kind owner ownerName none = .ok added ↔ _
  rw [insert_ok_iff]
  exact ⟨fun h => ⟨h.1, h.2.2⟩, fun h => ⟨h.1, rfl, h.2⟩⟩

theorem inStep_ofRoot (name : String) (kind : ComponentKind) {owner : Owner}
    (ownerName : Option String) (houtside : ∀ p, owner ≠ .component p) :
    (ofRoot name kind owner ownerName : TreeOf α).InStep := by
  have hget : ∀ id node, (ofRoot name kind owner ownerName : TreeOf α).get? id = some node →
      id = 0 ∧ node = ⟨0, name, kind, owner, ownerName, [], none, false⟩ := by
    intro id node hn
    obtain rfl : id = 0 := Nat.lt_one_iff.1 (lt_size_of_get? hn)
    exact ⟨rfl, (Option.some.inj hn).symm⟩
  refine ⟨?_, rfl, List.nodup_singleton name, ⟨_, rfl, houtside⟩, ?_, ?_⟩
  · intro id node hn
    obtain ⟨rfl, rfl⟩ := hget id node hn
    rfl
  · intro id node hn
    exact absurd (hget _ _ hn).1 (Nat.succ_ne_zero id)
  · intro p node hn
    obtain ⟨rfl, rfl⟩ := hget p node hn
    symm
    refine List.eq_nil_iff_forall_not_mem.2 fun id hmem => ?_
    obtain ⟨child, hchild, ho⟩ := mem_ownedBy.1 hmem
    obtain ⟨rfl, rfl⟩ := hget id child hchild
    exact houtside _ ho

end TreeOf

end Formwork
