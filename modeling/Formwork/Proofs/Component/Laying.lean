-- Laying out in order. A component may be refused, for its name or because it can not stand where it
-- was declared, but that is no error of the library: the node that it is filled in for is there and
-- has an owner, and every extension gets its owner once.
import Formwork.Proofs.Component.Preorder
import Formwork.Proofs.Orderly

namespace Formwork

/-! ## Parts -/

/-- No owner is noted in the container. -/
def Container.Unowned (c : Container) : Prop := ∀ owner, c.profile.role ≠ .extension (some owner)

/-- An extension has no owner yet. -/
def Part.Unowned (part : Part) : Prop := ∀ c, part = .extension c → c.Unowned

theorem Part.unowned_of_kind {part : Part} (h : part.kind ≠ .extension) : part.Unowned := by
  rintro c rfl
  exact absurd rfl h

theorem Part.resolveName_inOrder (owner : String) (part : Part) :
    InOrder (part.resolveName owner) := by
  unfold Part.resolveName
  split
  · exact inOrder_error rfl
  · exact inOrder_ok _

theorem Part.checkOwner_inOrder {part : Part} (h : part.Unowned) (owner : Owner)
    (ownerName : String) : InOrder (part.checkOwner owner ownerName) := by
  cases part with
  | extension c =>
    obtain ⟨p, phase⟩ := c
    unfold Part.checkOwner
    dsimp only
    split
    · exact inOrder_error rfl
    · exact inOrder_ok _
    · exact absurd ‹_› (h _ rfl _)
  | _ => exact inOrder_ok _

theorem Component.unowned_of_leaves {α : Type} (part : α → Part)
    (hpart : ∀ a, (part a).kind ≠ .extension) {owner : String} (items : List α) :
    ∀ entry ∈ Component.preorderAll owner (items.map fun a => leaf (part a)), entry.2.Unowned := by
  rw [Component.preorderAll_leaves]
  exact List.forall_mem_map.2 fun a _ => Part.unowned_of_kind (hpart a)

/-! ## Nodes -/

theorem TreeOf.insert_inOrder {α : Type} (t : TreeOf α) {owner : Owner} (howner : owner ≠ .unset)
    (name : String) (kind : ComponentKind) (ownerName : Option String) (part : Option α) :
    InOrder (t.insert name kind owner ownerName part) := by
  unfold TreeOf.insert
  rw [if_neg howner]
  dsimp only
  split
  · exact inOrder_error rfl
  · exact inOrder_ok _

theorem TreeOf.adopt_inOrder {α : Type} {t : TreeOf α} {owner : Nat} (h : owner < t.size)
    (child : Nat) : InOrder (t.adopt owner child) := by
  rw [TreeOf.adopt_ok_iff.2 ⟨h, rfl⟩]
  exact inOrder_ok _

/-! ## Trees -/

namespace Tree

mutual

/-- Filling a component in needs a node to be filled in for, and extensions without owners. -/
theorem fill_inOrder : ∀ {component : Component} {t : Tree} {owner : Nat} {above : Node},
    t.Receives owner above → (∀ entry ∈ component.preorder above.name, entry.2.Unowned) →
    InOrder (t.fill owner component)
  | .node part contents, t, owner, above, ht, hunowned => by
    obtain ⟨hpart, hcontents⟩ := List.forall_mem_cons.1 hunowned
    have hnode : t.node owner = .ok above := TreeOf.node_ok_iff.2 ht.above
    have hlt := TreeOf.lt_size_of_get? ht.above
    rw [fill, hnode]
    refine (part.resolveName_inOrder above.name).bind fun name hname => ?_
    obtain ⟨_, rfl⟩ := Part.resolveName_ok_iff.1 hname
    refine (Part.checkOwner_inOrder hpart _ _).bind fun _ _ => ?_
    have howner : Owner.component owner ≠ .unset := nofun
    refine (t.insert_inOrder howner _ _ _ _).bind ?_
    rintro ⟨id, t₁⟩ hinsert
    have hlt₁ : owner < t₁.size := by
      obtain ⟨_, _, hadded⟩ := TreeOf.insert_ok_iff.1 hinsert
      cases hadded
      rw [TreeOf.size, List.length_append]
      exact Nat.lt_add_right _ hlt
    refine (TreeOf.adopt_inOrder hlt₁ id).bind fun t₂ hadopt => ?_
    obtain ⟨hnew, rfl, rfl⟩ := (ht.inStep.insert_adopt_iff hlt).1 ⟨t₁, hinsert, hadopt⟩
    exact (fillAll_inOrder (ht.contents hnew) hcontents).bind fun _ _ => inOrder_ok _

theorem fillAll_inOrder : ∀ {components : List Component} {t : Tree} {owner : Nat} {above : Node},
    t.Receives owner above →
    (∀ entry ∈ Component.preorderAll above.name components, entry.2.Unowned) →
    InOrder (t.fillAll owner components)
  | [], t, _, _, _, _ => inOrder_ok t
  | component :: rest, t, owner, above, ht, hunowned => by
    obtain ⟨hfirst, hrest⟩ := List.forall_mem_append.1 hunowned
    rw [fillAll]
    refine (fill_inOrder ht hfirst).bind ?_
    rintro ⟨id, extended⟩ hfill
    exact fillAll_inOrder ((fill_extends ht hfill).2.receives ht) hrest

end

theorem fillContents_inOrder : ∀ {contents : List Component} {t : Tree} {root : Nat} {above : Node},
    t.Receives root above →
    (∀ entry ∈ Component.preorderAll above.name contents, entry.2.Unowned) →
    InOrder (t.fillContents root contents)
  | [], t, _, _, _, _ => inOrder_ok t
  | component :: rest, t, root, above, ht, hunowned => by
    obtain ⟨hfirst, hrest⟩ := List.forall_mem_append.1 hunowned
    unfold fillContents
    split
    · exact inOrder_error rfl
    · exact inOrder_error rfl
    · refine (fill_inOrder ht hfirst).bind ?_
      rintro ⟨id, extended⟩ hfill
      exact fillContents_inOrder ((fill_extends ht hfill).2.receives ht) hrest

/-- What is declared in a container is laid out in order, if the container is a rule set or has an
owner, and none of the extensions in it has one. -/
theorem ofDeclaration_inOrder {p : Profile} {contents : List Component}
    (howner : p.role.owner ≠ .unset)
    (hunowned : ∀ entry ∈ Component.preorderAll p.name contents, entry.2.Unowned)
    (model : ModelTree) (providers : List DataVar) (rules : List Validation) :
    InOrder (ofDeclaration p model contents providers rules) := by
  have hmodel : ∀ entry ∈ (Component.ofModel model).preorder p.name, entry.2.Unowned := by
    intro entry he
    obtain ⟨m, _, hm⟩ := Component.mem_preorder_ofModel he
    exact Part.unowned_of_kind (by rw [hm]; nofun)
  have hchecks : ∀ entry ∈ Component.preorderAll p.name
      ((p.cardinality.toList.map fun check => Component.leaf (.cardinality check)) ++
        p.uniques.map fun check => Component.leaf (.unique check)), entry.2.Unowned := by
    rw [Component.preorderAll_append]
    exact List.forall_mem_append.2 ⟨Component.unowned_of_leaves .cardinality (fun _ => nofun) _,
      Component.unowned_of_leaves .unique (fun _ => nofun) _⟩
  have hroot : (TreeOf.empty : Tree).insertRoot p.name p.role.kind p.role.owner p.role.ownerName =
      .ok (0, .ofRoot p.name p.role.kind p.role.owner p.role.ownerName) :=
    TreeOf.insertRoot_ok_iff.2 ⟨howner, rfl⟩
  have ht₀ := receives_ofRole p.name p.role
  unfold ofDeclaration
  rw [hroot]
  refine (fill_inOrder ht₀ hmodel).bind ?_
  rintro ⟨_, t₁⟩ h₁
  have ht₁ := (fill_extends ht₀ h₁).2.receives ht₀
  refine (fillAll_inOrder ht₁ hchecks).bind fun t₂ h₂ => ?_
  obtain ⟨_, hextends₂⟩ := fillAll_extends ht₁ h₂
  have ht₂ := hextends₂.receives ht₁
  refine (fillContents_inOrder ht₂ hunowned).bind fun t₃ h₃ => ?_
  obtain ⟨_, hextends₃⟩ := fillAll_extends ht₂ (fillContents_ok h₃)
  have ht₃ := hextends₃.receives ht₂
  refine (fillAll_inOrder ht₃ (Component.unowned_of_leaves .dataVar (fun _ => nofun) _)).bind
    fun t₄ h₄ => ?_
  obtain ⟨_, hextends₄⟩ := fillAll_extends ht₃ h₄
  exact fillAll_inOrder (hextends₄.receives ht₃)
    (Component.unowned_of_leaves .validation (fun _ => nofun) rules)

end Tree

end Formwork
