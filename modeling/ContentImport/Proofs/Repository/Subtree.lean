import ContentImport.Proofs.Repository.Removal

/-!
# Removing a subtree

A node other than the root can always be removed (`Reachable.exists_isCut`). `IsCut` says what is
left: by the text of their paths all nodes that are neither the removed one nor below it, unchanged
except that the parent lists one child less, with their access-control lists.
-/

namespace ContentImport.Repository

variable {r r' : Repository} {path parent name : String}

/-- A repository without the node at a path and the nodes below it. -/
structure IsCut (path parent name : String) (r r' : Repository) : Prop where
  isName : Path.isName name = true
  path_eq : path = Path.join parent name
  /-- The text alone tells which nodes remain. -/
  hasNode : ∀ q, r'.hasNode q = true ↔
    r.hasNode q = true ∧ q ≠ path ∧ ∀ rest, q ≠ path ++ "/" ++ rest
  node : ∀ q, r'.hasNode q = true → q ≠ parent → r'.node? q = r.node? q
  /-- Of the parent only the name of the child is gone, from its one place among the others. -/
  parent : ∃ n before after, r.node? parent = some n ∧ n.children = before ++ name :: after ∧
    name ∉ before ++ after ∧ r'.node? parent = some { n with children := before ++ after }
  policy : ∀ q, r'.policies.get? q = if r'.hasNode q = true then r.policies.get? q else none
  authorizables : r'.authorizables = r.authorizables
  settings : r'.registry = r.registry ∧ r'.restrictions = r.restrictions ∧ r'.serial = r.serial

/-- In a list without repetitions an element stands between those that are left without it. -/
theorem exists_filter_ne_eq {names : List String} (hnodup : names.Nodup) (hname : name ∈ names) :
    ∃ before after, names = before ++ name :: after ∧ name ∉ before ++ after ∧
      names.filter (· != name) = before ++ after := by
  obtain ⟨before, after, rfl⟩ := List.append_of_mem hname
  have hfresh := (List.nodup_cons.1 (List.nodup_middle.1 hnodup)).1
  refine ⟨before, after, rfl, hfresh, ?_⟩
  have hothers : (before ++ after).filter (· != name) = before ++ after := by
    rw [List.filter_eq_self]
    intro m hm
    simpa using fun heq : m = name => hfresh (heq ▸ hm)
  rw [List.filter_append] at hothers
  rw [List.filter_append, List.filter_cons_of_neg (by simp), hothers]

namespace IsTree

variable (h : IsTree r) (hlist : r.Lists parent name)

include h hlist

/-- The nodes that remain are those outside of the removed path. -/
theorem hasNode_after_removeNode {q : String} :
    ((Operation.removeNode (Path.join parent name)).after r).hasNode q = true ↔
      r.hasNode q = true ∧ Path.isWithin q (Path.join parent name) = false := by
  obtain ⟨names, hnames⟩ := hasNode_iff.1 hlist.hasNode
  exact hasNode_removed h hlist hnames (h.childNames_after_removeNode hlist hnames)

/-- No path outside of the tree has an access-control list, so those that are kept are the ones on
the nodes that remain. -/
theorem policies_after_removeNode (q : String) :
    ((Operation.removeNode (Path.join parent name)).after r).policies.get? q =
      if ((Operation.removeNode (Path.join parent name)).after r).hasNode q = true
        then r.policies.get? q else none := by
  obtain ⟨names, hnames⟩ := hasNode_iff.1 hlist.hasNode
  obtain ⟨n, hn, -⟩ := Option.map_eq_some_iff.1 hnames
  have hpolicies : ((Operation.removeNode (Path.join parent name)).after r).policies =
      r.policies.filter fun p _ => !Path.isWithin p (Path.join parent name) := by
    rw [Operation.after, Operation.change, h.outcome_removeNode_join hlist hn]
  rw [hpolicies, Path.get?_outside]
  by_cases hq : r.hasNode q = true
  · cases hwithin : Path.isWithin q (Path.join parent name) <;>
      simp [h.hasNode_after_removeNode hlist, hq, hwithin]
  · have hnone : r.policies.get? q = none := by
      rw [← Option.not_isSome_iff_eq_none]
      exact fun hsome => hq (h.policy q hsome)
    simp [hnone]

/-- **In a tree the removal of a child cuts off its subtree.** -/
theorem isCut_after : IsCut (Path.join parent name) parent name r
    ((Operation.removeNode (Path.join parent name)).after r) := by
  obtain ⟨names, hnames, hmem⟩ := hlist
  have hlist : r.Lists parent name := ⟨names, hnames, hmem⟩
  obtain ⟨n, hn, rfl⟩ := Option.map_eq_some_iff.1 hnames
  have hnode := h.node?_after_removeNode hlist hn
  have hroot := h.join_ne_root hlist
  constructor
  · exact (h.child parent name hlist).1
  · rfl
  · intro q
    rw [h.hasNode_after_removeNode hlist, Bool.eq_false_iff, ne_eq, Path.isWithin_iff_append hroot,
      not_or, not_exists]
  · intro q hq hne
    have hout := ((h.hasNode_after_removeNode hlist).1 hq).2
    rw [hnode, if_neg (Ne.symm hne), hout]
    rfl
  · obtain ⟨before, after, hchildren, hfresh, hfilter⟩ :=
      exists_filter_ne_eq (h.nodup parent _ hnames) hmem
    refine ⟨n, before, after, hn, hchildren, hfresh, ?_⟩
    rw [hnode, if_pos rfl, hfilter]
  · exact h.policies_after_removeNode hlist
  · rw [Operation.after, Operation.change, h.outcome_removeNode_join hlist hn]
  · rw [Operation.after, Operation.change, h.outcome_removeNode_join hlist hn]
    exact ⟨rfl, rfl, rfl⟩

end IsTree

/-- **Removing a node other than the root removes it with all that lies below it, and nothing
else.** -/
theorem Reachable.exists_isCut (h : Reachable r) (hpath : r.hasNode path = true)
    (hroot : path ≠ Path.root) :
    ∃ parent name r', outcome (removeNode path) r = (.ok (), r') ∧ IsCut path parent name r r' := by
  obtain ⟨parent, name, hlist, rfl⟩ := h.isTree.listed path hpath hroot
  obtain ⟨names, hnames⟩ := hasNode_iff.1 hlist.hasNode
  obtain ⟨n, hn, -⟩ := Option.map_eq_some_iff.1 hnames
  refine ⟨parent, name, (Operation.removeNode _).after r, ?_, h.isTree.isCut_after hlist⟩
  rw [Operation.after, Operation.change, h.isTree.outcome_removeNode_join hlist hn]

/-- Children of the root whose names begin with the name of one that has a child itself, some of
them with access-control lists. -/
def siblingOperations : List Operation :=
  [ .addNode "/" "ab" "nt:folder", .addNode "/" "a" "nt:folder", .addNode "/a" "b" "nt:folder",
    .addNode "/" "a.b" "nt:folder", .setAcl "/a" [], .setAcl "/a/b" [], .setAcl "/ab" [] ]

/-- The repository that these operations leave. -/
def siblingRepository : Repository := run siblingOperations (new .standard)

theorem exists_isCut_of_siblings :
    siblingRepository.Reachable ∧ siblingRepository.hasNode "/a" = true ∧ "/a" ≠ Path.root ∧
      (∃ parent name r', outcome (removeNode "/a") siblingRepository = (.ok (), r') ∧
        IsCut "/a" parent name siblingRepository r') ∧
      ((Operation.removeNode "/a").after siblingRepository).nodes.keys = ["/", "/ab", "/a.b"] ∧
      ((Operation.removeNode "/a").after siblingRepository).policies.keys = ["/ab"] :=
  have h : siblingRepository.Reachable := (Reachable.new .standard).run siblingOperations
  ⟨h, by decide +kernel, by decide, h.exists_isCut (by decide +kernel) (by decide),
    by decide +kernel, by decide +kernel⟩

end ContentImport.Repository
