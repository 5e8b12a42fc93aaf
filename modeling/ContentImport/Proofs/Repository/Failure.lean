import ContentImport.Proofs.Repository.Removal

/-!
# Operations that fail

An operation checks its arguments before it changes anything, with one exception: a removed node is
gone by the time that its parent is looked up (`Operation.after_eq_or_orphan`). In a tree the parent
of a node is a node that remains (`IsTree.not_isOrphan`). So the exception does not occur there, and
an operation that fails leaves a reachable repository as it was (`Reachable.after_eq_of_error`).
-/

namespace ContentImport.Repository

variable {r : Repository}

/-- The node at a path was to be removed, and its parent is none of the nodes that would remain. -/
def IsOrphan (r : Repository) (path : String) : Prop :=
  r.hasNode path = true ∧ ∃ parent, Path.parent? path = some parent ∧
    (r.nodes.filter fun p _ => !Path.isWithin p path).get? parent = none

/-- **A failing operation changes nothing,** unless it removes a node that has no parent. -/
theorem Operation.after_eq_or_orphan {op : Operation} {e : RepositoryError}
    (herror : (outcome op.change r).1 = .error e) :
    op.after r = r ∨ ∃ path, op = .removeNode path ∧ IsOrphan r path := by
  rw [after]
  cases op with
  | removeNode path =>
    rw [change, outcome_removeNode] at herror ⊢
    split at herror
    · exact .inl rfl
    next parent hparent =>
    split at herror
    · next hpath => exact .inl (by rw [if_pos hpath])
    next hpath =>
    rw [outcome_changeNode] at herror
    split at herror
    · next hn => exact .inr ⟨path, rfl, by simpa using hpath, parent, hparent, hn⟩
    · cases herror
  | _ =>
    -- each of the others fails in a branch that comes before the one that changes something
    left
    simp only [change, outcome_map, outcome_addNode, outcome_addMixin, outcome_setProperty,
      outcome_removeProperty, outcome_createUser, outcome_createGroup, outcome_addMember,
      outcome_setAuthorizableProperty, outcome_setAcl, outcome_updateEntries] at herror ⊢
    grind

/-- In a tree the parent of a node is a node, and does not lie within the node. -/
theorem IsTree.not_isOrphan (h : IsTree r) (path : String) : ¬ IsOrphan r path := by
  rintro ⟨hpath, parent, hparent, hnone⟩
  obtain ⟨name, hlist, rfl⟩ := h.exists_lists hpath hparent
  have hout := Path.isWithin_join_eq_false (Path.isWithin_refl parent) (h.join_ne_root hlist)
  obtain ⟨names, hnames⟩ := hasNode_iff.1 hlist.hasNode
  rw [Path.get?_outside, hout] at hnone
  rw [childNames, node?, show r.nodes.get? parent = none from hnone] at hnames
  cases hnames

/-- **An operation that fails leaves a reachable repository as it was.** -/
theorem Reachable.after_eq_of_error (h : Reachable r) {op : Operation} {e : RepositoryError}
    (herror : (outcome op.change r).1 = .error e) : op.after r = r := by
  rcases Operation.after_eq_or_orphan herror with hafter | ⟨path, -, horphan⟩
  · exact hafter
  · exact absurd horphan (h.isTree.not_isOrphan path)

/-- Operations that leave a node below another one, a list on it and a user. -/
def sampleOperations : List Operation :=
  [ .addNode "/" "a" "nt:folder", .addNode "/a" "b" "nt:file",
    .setProperty "/a/b" "title" (.single (.string "old")), .createUser "ann" none,
    .setAcl "/a/b" [] ]

/-- The root is not removed, although the nodes within it would go before anything is looked up. -/
theorem after_eq_of_removal_of_root :
    (outcome (Operation.removeNode "/").change (run sampleOperations (new .standard))).1 =
        .error (.invalidName "/") ∧
      (Operation.removeNode "/").after (run sampleOperations (new .standard)) =
        run sampleOperations (new .standard) :=
  ⟨by rfl, ((Reachable.new .standard).run _).after_eq_of_error (e := .invalidName "/") (by rfl)⟩

end ContentImport.Repository
