import ContentImport.Proofs.Repository.Tree

/-!
# Removing several nodes

Of a tree from which nodes are removed one after the other, the nodes remain that lie within none of
those (`isPruned_run`). `IsPruned` says so for a set of removed paths, whatever it was that removed
them; then a node still lists the children that remain, and no others (`IsPruned.lists_iff`).
-/

namespace ContentImport.Repository

variable {r r' r'' : Repository} {path parent name : String} {gone gone' : String → Prop}

/-! ## One node -/

theorem after_removeNode_of_hasNode_eq_false (h : r.hasNode path = false) :
    (Operation.removeNode path).after r = r := by
  rw [Operation.after, Operation.change, outcome_removeNode]
  split
  · rfl
  · rw [if_pos h]

/-- In a tree the parent of a removed child remains, and loses its name. -/
theorem IsTree.outcome_removeNode_join (h : IsTree r) (hlist : r.Lists parent name) {n : Node}
    (hn : r.node? parent = some n) :
    outcome (removeNode (Path.join parent name)) r =
      (.ok (), { r with
        nodes := (r.nodes.filter fun p _ => !Path.isWithin p (Path.join parent name)).insert parent
          { n with children := n.children.filter (· != name) }
        policies := r.policies.filter fun p _ => !Path.isWithin p (Path.join parent name) }) := by
  have hroot := h.join_ne_root hlist
  have hchild : ¬ r.hasNode (Path.join parent name) = false := by
    rw [(h.child parent name hlist).2]
    exact Bool.noConfusion
  have hparent : (r.nodes.filter fun k _ => !Path.isWithin k (Path.join parent name)).get? parent =
      some n := by
    rw [Path.get?_outside, Path.isWithin_join_eq_false (Path.isWithin_refl parent) hroot]
    exact hn
  rw [outcome_removeNode, Path.parent?_join (h.ne_empty hlist.hasNode) (h.noSlash hlist) hroot]
  dsimp only
  rw [if_neg hchild, outcome_changeNode, node?, hparent, Path.name_join (h.noSlash hlist)]

theorem IsTree.node?_after_removeNode (h : IsTree r) (hlist : r.Lists parent name) {n : Node}
    (hn : r.node? parent = some n) (q : String) :
    ((Operation.removeNode (Path.join parent name)).after r).node? q =
      if parent = q then some { n with children := n.children.filter (· != name) }
      else if Path.isWithin q (Path.join parent name) = true then none
      else r.node? q := by
  rw [Operation.after, Operation.change, h.outcome_removeNode_join hlist hn, node?,
    Table.get?_insert, Path.get?_outside, node?]

theorem IsTree.childNames_after_removeNode (h : IsTree r) (hlist : r.Lists parent name)
    {names : List String} (hnames : r.childNames parent = some names) (q : String) :
    ((Operation.removeNode (Path.join parent name)).after r).childNames q =
      if parent = q then some (names.filter (· != name))
      else if Path.isWithin q (Path.join parent name) = true then none
      else r.childNames q := by
  obtain ⟨n, hn, rfl⟩ := Option.map_eq_some_iff.1 hnames
  rw [childNames, h.node?_after_removeNode hlist hn, childNames]
  split
  · rfl
  split <;> rfl

/-! ## What remains -/

/-- A tree from which some paths were removed with all that lies within them. -/
structure IsPruned (gone : String → Prop) (r r' : Repository) : Prop where
  isTree : IsTree r'
  hasNode : ∀ q, r'.hasNode q = true ↔
    r.hasNode q = true ∧ ∀ p, gone p → Path.isWithin q p = false
  lists : ∀ q m, r'.Lists q m → r.Lists q m

namespace IsPruned

theorem refl (h : IsTree r) : IsPruned (fun _ => False) r r where
  isTree := h
  hasNode := fun _ => ⟨fun hq => ⟨hq, fun _ hp => hp.elim⟩, And.left⟩
  lists := fun _ _ => id

theorem congr (h : IsPruned gone r r') (hgone : ∀ p, gone p ↔ gone' p) : IsPruned gone' r r' :=
  (funext fun p => propext (hgone p) : gone = gone') ▸ h

/-- What does not remain need not be removed again: all within it is gone already. -/
theorem trans (h : IsPruned gone r r')
    (h' : IsPruned (fun p => gone' p ∧ r'.hasNode p = true) r' r'')
    (hgone' : ∀ p, gone' p → r.hasNode p = true) :
    IsPruned (fun p => gone p ∨ gone' p) r r'' where
  isTree := h'.isTree
  hasNode := by
    intro q
    rw [h'.hasNode, h.hasNode]
    constructor
    · rintro ⟨⟨hq, hfirst⟩, hsecond⟩
      refine ⟨hq, ?_⟩
      rintro p (hp | hp)
      · exact hfirst p hp
      by_cases hleft : r'.hasNode p = true
      · exact hsecond p ⟨hp, hleft⟩
      · rw [Bool.eq_false_iff]
        intro hwithin
        refine hleft ((h.hasNode p).2 ⟨hgone' p hp, ?_⟩)
        intro p' hp'
        rw [Bool.eq_false_iff]
        intro hwithin'
        have hout := hfirst p' hp'
        rw [Path.isWithin_trans hwithin hwithin'] at hout
        cases hout
    · rintro ⟨hq, hgone⟩
      exact ⟨⟨hq, fun p hp => hgone p (.inl hp)⟩, fun p hp => hgone p (.inr hp.1)⟩
  lists := fun q m hlist => h.lists q m (h'.lists q m hlist)

/-- A child is still listed if it remains, since in a tree only its parent can list it. -/
theorem lists_iff (h : IsTree r) (hpruned : IsPruned gone r r') :
    r'.Lists parent name ↔
      r.Lists parent name ∧ r'.hasNode (Path.join parent name) = true := by
  constructor
  · intro hlist
    exact ⟨hpruned.lists parent name hlist, (hpruned.isTree.child parent name hlist).2⟩
  · rintro ⟨hlist, hchild⟩
    obtain ⟨q, m, hlist', heq⟩ := hpruned.isTree.listed _ hchild (h.join_ne_root hlist)
    have hlistr := hpruned.lists q m hlist'
    obtain ⟨rfl, rfl⟩ := h.lists_inj hlist hlistr.hasNode (h.child q m hlistr).1 heq
    exact hlist'

/-- The children that remain are those of the nodes that remain. -/
theorem isChild_iff (h : IsTree r) (hpruned : IsPruned gone r r') :
    r'.IsChild parent path ↔ r.IsChild parent path ∧ r'.hasNode path = true := by
  constructor
  · rintro ⟨name, hlist, rfl⟩
    obtain ⟨hlist, hpath⟩ := (hpruned.lists_iff h).1 hlist
    exact ⟨⟨name, hlist, rfl⟩, hpath⟩
  · rintro ⟨⟨name, hlist, rfl⟩, hpath⟩
    exact ⟨name, (hpruned.lists_iff h).2 ⟨hlist, hpath⟩, rfl⟩

end IsPruned

/-! ## Several nodes -/

theorem IsTree.isPruned_after (h : IsTree r) (hroot : path ≠ Path.root) :
    IsPruned (fun p => p = path ∧ r.hasNode path = true) r
      ((Operation.removeNode path).after r) := by
  by_cases hpath : r.hasNode path = true
  · obtain ⟨parent, name, hlist, rfl⟩ := h.listed path hpath hroot
    obtain ⟨names, hnames⟩ := hasNode_iff.1 hlist.hasNode
    have hchildNames := h.childNames_after_removeNode hlist hnames
    constructor
    · exact h.step (Operation.step r _)
    · intro q
      rw [hasNode_removed h hlist hnames hchildNames, hpath]
      simp
    · intro q m hq
      exact ((lists_removed h hlist hnames hchildNames).1 hq).1
  · rw [after_removeNode_of_hasNode_eq_false (Bool.eq_false_iff.2 hpath)]
    refine (IsPruned.refl h).congr ?_
    exact fun p => ⟨False.elim, fun hp => hpath hp.2⟩

/-- **Of a tree the nodes remain that lie within none of the removed ones.** -/
theorem IsTree.isPruned_run (h : IsTree r) {paths : List String}
    (hroot : ∀ p ∈ paths, p ≠ Path.root) :
    IsPruned (fun p => p ∈ paths ∧ r.hasNode p = true) r
      (run (paths.map Operation.removeNode) r) := by
  induction paths generalizing r with
  | nil => exact (IsPruned.refl h).congr fun p => by simp
  | cons path paths ih =>
    obtain ⟨hpath, hpaths⟩ := List.forall_mem_cons.1 hroot
    have hfirst := h.isPruned_after hpath
    have hgone : ∀ p, p ∈ paths ∧ ((Operation.removeNode path).after r).hasNode p = true ↔
        (p ∈ paths ∧ r.hasNode p = true) ∧
          ((Operation.removeNode path).after r).hasNode p = true :=
      fun p => ⟨fun hp => ⟨⟨hp.1, ((hfirst.hasNode p).1 hp.2).1⟩, hp.2⟩,
        fun hp => ⟨hp.1.1, hp.2⟩⟩
    have hrest := (ih hfirst.isTree hpaths).congr hgone
    refine (hfirst.trans hrest fun p hp => hp.2).congr ?_
    intro p
    rw [List.mem_cons, or_and_right]
    exact or_congr_left (and_congr_right fun hp => hp ▸ Iff.rfl)

end ContentImport.Repository
