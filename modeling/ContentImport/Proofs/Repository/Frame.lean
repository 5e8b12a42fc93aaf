import ContentImport.Proofs.Repository.Tree

/-!
# What operations leave alone

An operation that concerns nothing but a path and what lies within it (`Operation.IsInside`)
leaves every other node and every other access-control list as they are, and the path remains a
node (`Step.sameOutside`). So does a run of such operations (`ChangedInside.sameOutside`).
Repositories need not be trees for that: both the paths and the changes of the tables are taken as
they are.
-/

namespace ContentImport.Repository

variable {target path : String} {r r' r'' : Repository}

/-- Two repositories agree on all that does not lie within a path, and the second one has that path
as a node if the first one does. -/
structure SameOutside (target : String) (r r' : Repository) : Prop where
  node : ∀ path, Path.isWithin path target = false → r'.node? path = r.node? path
  policy : ∀ path, Path.isWithin path target = false →
    r'.policies.get? path = r.policies.get? path
  target : r.hasNode target = true → r'.hasNode target = true

namespace SameOutside

theorem refl (target : String) (r : Repository) : SameOutside target r r :=
  ⟨fun _ _ => rfl, fun _ _ => rfl, id⟩

theorem trans (h : SameOutside target r r') (h' : SameOutside target r' r'') :
    SameOutside target r r'' where
  node := fun path hpath => (h'.node path hpath).trans (h.node path hpath)
  policy := fun path hpath => (h'.policy path hpath).trans (h.policy path hpath)
  target := fun htarget => h'.target (h.target htarget)

end SameOutside

theorem get?_insert_outside {α : Type} (t : Table α) (a : α)
    (hpath : Path.isWithin path target = true) {q : String}
    (hq : Path.isWithin q target = false) : (t.insert path a).get? q = t.get? q := by
  have hne : path ≠ q := by
    rintro rfl
    rw [hpath] at hq
    cases hq
  rw [Table.get?_insert, if_neg hne]

theorem sameOutside_insertNode {n : Node} (hpath : Path.isWithin path target = true)
    (hnodes : r'.nodes = r.nodes.insert path n) (hpolicies : r'.policies = r.policies) :
    SameOutside target r r' := by
  constructor
  · intro q hq
    rw [node?, hnodes]
    exact get?_insert_outside r.nodes n hpath hq
  · intro q _
    rw [hpolicies]
  · intro h
    rw [hasNode, hnodes]
    exact Table.contains_insert_iff.2 (.inr h)

theorem sameOutside_insertPolicy (hpath : Path.isWithin path target = true) (acl : AccessList) :
    SameOutside target r { r with policies := r.policies.insert path acl } where
  node := fun _ _ => rfl
  policy := fun _ hq => get?_insert_outside r.policies acl hpath hq
  target := id

theorem sameOutside_removed (r : Repository) (hpath : Path.IsBelow path target) {parent : String}
    (hparent : Path.parent? path = some parent) :
    SameOutside target r
      { r with
        nodes := r.nodes.filter fun p _ => !Path.isWithin p path
        policies := r.policies.filter fun p _ => !Path.isWithin p path } := by
  have houtside : ∀ q, Path.isWithin q target = false → Path.isWithin q path = false := by
    intro q hq
    rw [Bool.eq_false_iff] at hq ⊢
    intro hwithin
    exact hq (Path.isWithin_trans hwithin hpath.within)
  have hself := hpath.isWithin_eq_false hparent
  constructor
  · intro q hq
    rw [node?, Path.get?_outside, houtside q hq]
    rfl
  · intro q hq
    rw [Path.get?_outside, houtside q hq]
    rfl
  · intro h
    rw [hasNode, Table.contains, Path.get?_outside, hself]
    exact h

/-! ## Operations -/

/-- An operation concerns a path or what lies within it, and does not remove the path itself. -/
def Operation.IsInside (target : String) : Operation → Prop
  | .addNode parent _ _ => Path.isWithin parent target = true
  | .removeNode path => Path.IsBelow path target
  | .addMixin path _ | .setProperty path _ _ | .removeProperty path _ | .setAcl path _
  | .updateEntries path _ _ _ => Path.isWithin path target = true
  | .createUser _ _ | .createGroup _ | .addMember _ _ | .setAuthorizableProperty _ _ _ => True

theorem Step.sameOutside {op : Operation} (h : Step r op r') (hop : op.IsInside target) :
    SameOutside target r r' := by
  cases h with
  | unchanged => exact .refl target r
  | @addNode parent name type n =>
    have hlisted : SameOutside target r
        { r with nodes := r.nodes.insert parent { n with children := n.children ++ [name] } } :=
      sameOutside_insertNode hop rfl rfl
    exact hlisted.trans (sameOutside_insertNode (Path.isWithin_join hop name) rfl rfl)
  | removeNode hparent =>
    have hwithin := Path.IsBelow.isWithin_parent hop hparent
    exact (sameOutside_removed r hop hparent).trans (sameOutside_insertNode hwithin rfl rfl)
  | removeOrphan hparent => exact sameOutside_removed r hop hparent
  | addMixin | setProperty | removeProperty => exact sameOutside_insertNode hop rfl rfl
  | createUser | createGroup | addMember | setAuthorizableProperty =>
    exact ⟨fun _ _ => rfl, fun _ _ => rfl, id⟩
  | setAcl _ acl => exact sameOutside_insertPolicy hop acl
  | updateEntries => exact sameOutside_insertPolicy hop _

/-- A repository comes from another one by operations inside of a path. -/
def ChangedInside (target : String) (r r' : Repository) : Prop :=
  ∃ ops : List Operation, (∀ op ∈ ops, op.IsInside target) ∧ run ops r = r'

namespace ChangedInside

theorem refl (target : String) (r : Repository) : ChangedInside target r r :=
  ⟨[], List.forall_mem_nil _, rfl⟩

theorem after (h : ChangedInside target r r') (op : Operation) (hop : op.IsInside target) :
    ChangedInside target r (op.after r') := by
  obtain ⟨ops, hops, rfl⟩ := h
  refine ⟨ops ++ [op], ?_, ?_⟩
  · intro o ho
    rcases List.mem_append.1 ho with ho | ho
    · exact hops o ho
    · exact List.mem_singleton.1 ho ▸ hop
  · rw [run, List.foldl_append]
    rfl

/-- **Operations inside of a path leave all outside of it as it is.** -/
theorem sameOutside (h : ChangedInside target r r') : SameOutside target r r' := by
  obtain ⟨ops, hops, rfl⟩ := h
  induction ops generalizing r with
  | nil => exact .refl target r
  | cons op ops ih =>
    obtain ⟨hop, hops⟩ := List.forall_mem_cons.1 hops
    exact ((op.step r).sameOutside hop).trans (ih hops)

theorem reachable (h : ChangedInside target r r') (hr : Reachable r) : Reachable r' := by
  obtain ⟨ops, -, rfl⟩ := h
  exact hr.run ops

end ChangedInside

end ContentImport.Repository
