import ContentImport.Proofs.Repository.Path
import ContentImport.Proofs.Repository.Update
import ContentImport.Repository.Render
import Mathlib.Logic.Relation

/-!
# The tree of nodes

The children of a node are stored twice, as the paths of nodes and as the names that their parent
lists, and access-control lists are stored under paths of their own.

* `IsTree` says that the three fit together. Every step keeps them so (`IsTree.step`): for most
  operations because they change no list of names (`IsTree.of_childNames_eq`), for the others since
  they add a leaf (`IsTree.of_added`) or remove all that lies within a path
  (`IsTree.of_removed`).
* In a tree no other node lists a child (`IsTree.lists_inj`), and every node is reached from the
  root through the lists of names (`IsTree.reaches`).
* All reachable repositories are trees (`Reachable.isTree`).
-/

namespace ContentImport.Repository

variable {r r' : Repository} {path parent name : String}

/-! ## Names of children -/

/-- The names of the children that a node lists. -/
def childNames (r : Repository) (path : String) : Option (List String) :=
  (r.node? path).map Node.children

/-- A node lists the name of a child. -/
def Lists (r : Repository) (parent name : String) : Prop :=
  ∃ names, r.childNames parent = some names ∧ name ∈ names

theorem hasNode_iff : r.hasNode path = true ↔ ∃ names, r.childNames path = some names := by
  rw [hasNode, Table.contains, Option.isSome_iff_exists, childNames, node?]
  simp only [Option.map_eq_some_iff]
  constructor
  · rintro ⟨n, hn⟩
    exact ⟨n.children, n, hn, rfl⟩
  · rintro ⟨names, n, hn, -⟩
    exact ⟨n, hn⟩

theorem Lists.hasNode (h : r.Lists parent name) : r.hasNode parent = true := by
  obtain ⟨names, hnames, -⟩ := h
  exact hasNode_iff.2 ⟨names, hnames⟩

theorem childNames_insert (nodes : Table Node) (path q : String) (n : Node) :
    ((nodes.insert path n).get? q).map Node.children =
      if path = q then some n.children else (nodes.get? q).map Node.children := by
  rw [Table.get?_insert]
  split <;> rfl

/-! ## Trees -/

/-- Nodes, lists of names and access-control lists fit together. -/
structure IsTree (r : Repository) : Prop where
  root : r.hasNode Path.root = true
  listed : ∀ path, r.hasNode path = true → path ≠ Path.root →
    ∃ parent name, r.Lists parent name ∧ path = Path.join parent name
  child : ∀ parent name, r.Lists parent name →
    Path.isName name = true ∧ r.hasNode (Path.join parent name) = true
  nodup : ∀ path names, r.childNames path = some names → names.Nodup
  policy : ∀ path, r.policies.contains path = true → r.hasNode path = true

theorem isTree_new (registry : Registry) : IsTree (new registry) := by
  have hnode : ∀ path names, (new registry).childNames path = some names →
      path = Path.root ∧ names = [] := by
    intro path names h
    have hinsert := childNames_insert Table.empty Path.root path
      { identifier := identifier 0, type := rootType }
    rw [childNames, node?, new, hinsert] at h
    split at h
    · next hpath => exact ⟨hpath.symm, (Option.some.inj h).symm⟩
    · cases h
  constructor
  · rfl
  · intro path hpath hne
    obtain ⟨names, hnames⟩ := hasNode_iff.1 hpath
    exact absurd (hnode path names hnames).1 hne
  · rintro parent name ⟨names, hnames, hmem⟩
    rw [(hnode parent names hnames).2] at hmem
    cases hmem
  · intro path names hnames
    rw [(hnode path names hnames).2]
    exact List.nodup_nil
  · intro path hpath
    cases hpath

namespace IsTree

variable (h : IsTree r)

include h

theorem ne_empty (hpath : r.hasNode path = true) : path ≠ "" := by
  by_cases hroot : path = Path.root
  · rw [hroot]
    decide
  · obtain ⟨parent, name, -, rfl⟩ := h.listed path hpath hroot
    exact Path.join_ne_empty parent name

theorem noSlash (hlist : r.Lists parent name) : '/' ∉ name.toList :=
  (Path.isName_iff.1 (h.child parent name hlist).1).2.2.2

theorem join_ne_root (hlist : r.Lists parent name) : Path.join parent name ≠ Path.root :=
  Path.join_ne_root (Path.isName_iff.1 (h.child parent name hlist).1).1

/-- The parent of a node lists it. -/
theorem exists_lists (hpath : r.hasNode path = true) (hparent : Path.parent? path = some parent) :
    ∃ name, r.Lists parent name ∧ path = Path.join parent name := by
  have hroot : path ≠ Path.root := by
    rintro rfl
    cases hparent
  obtain ⟨p, name, hlist, rfl⟩ := h.listed path hpath hroot
  rw [Path.parent?_join (h.ne_empty hlist.hasNode) (h.noSlash hlist) hroot] at hparent
  exact ⟨name, Option.some.inj hparent ▸ hlist, by rw [Option.some.inj hparent]⟩

/-- A path that is joined from a node and a name is listed by no other node. -/
theorem lists_inj {parent' name' : String} (hlist : r.Lists parent name)
    (hparent' : r.hasNode parent' = true) (hname' : Path.isName name' = true)
    (heq : Path.join parent name = Path.join parent' name') :
    parent = parent' ∧ name = name' :=
  Path.join_inj (h.ne_empty hlist.hasNode) (h.ne_empty hparent') (h.noSlash hlist)
    (Path.isName_iff.1 hname').2.2.2 heq

theorem count_eq_one {names : List String} (hnames : r.childNames parent = some names)
    (hname : name ∈ names) : names.count name = 1 :=
  List.count_eq_one_of_mem (h.nodup parent names hnames) hname

/-! ## Steps -/

/-- What changes no list of names and adds lists to nodes only keeps a tree. -/
theorem of_childNames_eq (hnames : ∀ path, r'.childNames path = r.childNames path)
    (hpolicies : ∀ path, r'.policies.contains path = true → r.hasNode path = true) :
    IsTree r' := by
  have hnode : ∀ path, r'.hasNode path = true ↔ r.hasNode path = true := by
    intro path
    rw [hasNode_iff, hasNode_iff, hnames]
  have hlists : ∀ parent name, r'.Lists parent name ↔ r.Lists parent name := by
    intro parent name
    rw [Lists, Lists, hnames]
  constructor
  · exact (hnode _).2 h.root
  · intro path hpath hne
    obtain ⟨parent, name, hlist, heq⟩ := h.listed path ((hnode path).1 hpath) hne
    exact ⟨parent, name, (hlists parent name).2 hlist, heq⟩
  · intro parent name hlist
    obtain ⟨hname, hchild⟩ := h.child parent name ((hlists parent name).1 hlist)
    exact ⟨hname, (hnode _).2 hchild⟩
  · intro path names hpath
    exact h.nodup path names (hnames path ▸ hpath)
  · intro path hpath
    exact (hnode path).2 (hpolicies path hpath)

end IsTree

/-! ## Adding a leaf -/

section Added

variable {names : List String} (hname : Path.isName name = true)
  (hnew : r.hasNode (Path.join parent name) = false) (hparent : r.childNames parent = some names)
  (hnames : ∀ q, r'.childNames q = if Path.join parent name = q then some []
    else if parent = q then some (names ++ [name]) else r.childNames q)

include hparent hnames

theorem hasNode_added : r'.hasNode path = true ↔
    r.hasNode path = true ∨ path = Path.join parent name := by
  rw [hasNode_iff, hasNode_iff, hnames]
  by_cases hpath : Path.join parent name = path
  · simp [hpath]
  · rw [if_neg hpath]
    have hne : path ≠ Path.join parent name := fun heq => hpath heq.symm
    by_cases hp : parent = path
    · simp [← hp, hparent]
    · simp [hp, hne]

include hname hnew

/-- Only the parent lists one name more. The leaf, which was no node before, lists none. -/
theorem lists_added {q m : String} :
    r'.Lists q m ↔ r.Lists q m ∨ q = parent ∧ m = name := by
  have hlt := Path.length_lt_join (Path.join_ne_root (p := parent) (Path.isName_iff.1 hname).1)
  rw [Lists, hnames]
  by_cases hq : Path.join parent name = q
  · have hnone : ¬ r.Lists q m := by
      intro hlist
      have hnode := hlist.hasNode
      rw [← hq, hnew] at hnode
      cases hnode
    have hself : q ≠ parent := by
      rintro rfl
      rw [hq] at hlt
      exact Nat.lt_irrefl _ hlt
    simp [hq, hnone, hself]
  · rw [if_neg hq]
    by_cases hp : parent = q
    · subst hp
      rw [if_pos rfl, Lists, hparent]
      simp
    · have hne : q ≠ parent := fun heq => hp heq.symm
      rw [if_neg hp, Lists]
      simp [hne]

/-- **A tree with a new leaf is a tree.** -/
theorem IsTree.of_added (h : IsTree r) (hpolicies : r'.policies = r.policies) : IsTree r' := by
  have hnode : ∀ path, r'.hasNode path = true ↔
      r.hasNode path = true ∨ path = Path.join parent name :=
    fun path => hasNode_added hparent hnames
  have hlists : ∀ q m, r'.Lists q m ↔ r.Lists q m ∨ q = parent ∧ m = name :=
    fun q m => lists_added hname hnew hparent hnames
  constructor
  · exact (hnode _).2 (.inl h.root)
  · intro path hpath hroot
    rcases (hnode path).1 hpath with hpath | rfl
    · obtain ⟨q, m, hlist, heq⟩ := h.listed path hpath hroot
      exact ⟨q, m, (hlists q m).2 (.inl hlist), heq⟩
    · exact ⟨parent, name, (hlists _ _).2 (.inr ⟨rfl, rfl⟩), rfl⟩
  · intro q m hlist
    rcases (hlists q m).1 hlist with hlist | ⟨rfl, rfl⟩
    · obtain ⟨hm, hchild⟩ := h.child q m hlist
      exact ⟨hm, (hnode _).2 (.inl hchild)⟩
    · exact ⟨hname, (hnode _).2 (.inr rfl)⟩
  · intro q names' hq
    rw [hnames] at hq
    split at hq
    · rw [← Option.some.inj hq]
      exact List.nodup_nil
    split at hq
    · rw [← Option.some.inj hq]
      -- a name that is listed already would make the new path a node
      have hfresh : name ∉ names := by
        intro hmem
        have hchild := (h.child parent name ⟨names, hparent, hmem⟩).2
        rw [hnew] at hchild
        cases hchild
      have hdisjoint : List.Disjoint names [name] := by
        intro m hm hm'
        rw [List.mem_singleton] at hm'
        exact hfresh (hm' ▸ hm)
      exact (h.nodup parent names hparent).append (List.nodup_singleton name) hdisjoint
    · exact h.nodup q names' hq
  · intro q hq
    rw [hpolicies] at hq
    exact (hnode q).2 (.inl (h.policy q hq))

end Added

/-! ## Removing a subtree -/

section Removed

variable {names : List String} (h : IsTree r) (hlist : r.Lists parent name)
  (hparent : r.childNames parent = some names)
  (hnames : ∀ q, r'.childNames q = if parent = q then some (names.filter (· != name))
    else if Path.isWithin q (Path.join parent name) = true then none else r.childNames q)

include h hlist hparent hnames

/-- The nodes outside of the removed path remain, the parent among them. -/
theorem hasNode_removed : r'.hasNode path = true ↔
    r.hasNode path = true ∧ Path.isWithin path (Path.join parent name) = false := by
  rw [hasNode_iff, hasNode_iff, hnames]
  by_cases hp : parent = path
  · subst hp
    have hout := Path.isWithin_join_eq_false (Path.isWithin_refl parent) (h.join_ne_root hlist)
    simp [hparent, hout]
  · rw [if_neg hp]
    cases Path.isWithin path (Path.join parent name) <;> simp

/-- The nodes that remain list what they listed, except that the parent lost one name. -/
theorem lists_removed {q m : String} : r'.Lists q m ↔
    r.Lists q m ∧ Path.isWithin q (Path.join parent name) = false ∧
      ¬ (q = parent ∧ m = name) := by
  rw [Lists, hnames]
  by_cases hp : parent = q
  · subst hp
    have hout := Path.isWithin_join_eq_false (Path.isWithin_refl parent) (h.join_ne_root hlist)
    rw [if_pos rfl, Lists, hparent, hout]
    simp
  · have hne : q ≠ parent := fun heq => hp heq.symm
    rw [if_neg hp, Lists]
    cases Path.isWithin q (Path.join parent name) <;> simp [hne]

/-- **A tree without a subtree is a tree.** The children of the nodes that remain do so too, since
a child lies within the removed path only if it is that path, or if its parent does. -/
theorem IsTree.of_removed (hpolicies : ∀ q, r'.policies.contains q = true →
      r.policies.contains q = true ∧ Path.isWithin q (Path.join parent name) = false) :
    IsTree r' := by
  have hnode : ∀ path, r'.hasNode path = true ↔
      r.hasNode path = true ∧ Path.isWithin path (Path.join parent name) = false :=
    fun path => hasNode_removed h hlist hparent hnames
  have hlists : ∀ q m, r'.Lists q m ↔ r.Lists q m ∧
      Path.isWithin q (Path.join parent name) = false ∧ ¬ (q = parent ∧ m = name) :=
    fun q m => lists_removed h hlist hparent hnames
  have hname := (h.child parent name hlist).1
  constructor
  · refine (hnode _).2 ⟨h.root, ?_⟩
    rw [Bool.eq_false_iff]
    intro hroot
    have hle := Path.length_le_of_isWithin hroot
    have hlt := Path.length_lt_join (h.join_ne_root hlist)
    have hpos : 0 < parent.toList.length := by
      rw [List.length_pos_iff]
      exact fun hnil => h.ne_empty hlist.hasNode (String.toList_eq_nil_iff.1 hnil)
    have hone : Path.root.toList.length = 1 := rfl
    omega
  · intro path hpath hroot
    obtain ⟨hpath, hout⟩ := (hnode path).1 hpath
    obtain ⟨q, m, hlist', rfl⟩ := h.listed path hpath hroot
    refine ⟨q, m, (hlists q m).2 ⟨hlist', ?_, ?_⟩, rfl⟩
    · rw [Bool.eq_false_iff] at hout ⊢
      exact fun hq => hout (Path.isWithin_join hq m)
    · rintro ⟨rfl, rfl⟩
      rw [Path.isWithin_refl] at hout
      cases hout
  · intro q m hlist'
    obtain ⟨hlist', hout, hother⟩ := (hlists q m).1 hlist'
    obtain ⟨hm, hchild⟩ := h.child q m hlist'
    refine ⟨hm, (hnode _).2 ⟨hchild, ?_⟩⟩
    rw [Bool.eq_false_iff]
    intro hwithin
    rcases Path.isWithin_of_join (h.ne_empty hlist'.hasNode) (Path.join_ne_empty parent name)
      (h.noSlash hlist') hwithin with heq | hq
    · exact hother (h.lists_inj hlist' hlist.hasNode hname heq)
    · rw [hout] at hq
      cases hq
  · intro q names' hq
    rw [hnames] at hq
    split at hq
    · rw [← Option.some.inj hq]
      exact (h.nodup parent names hparent).filter _
    split at hq
    · cases hq
    · exact h.nodup q names' hq
  · intro q hq
    obtain ⟨hq, hout⟩ := hpolicies q hq
    exact (hnode q).2 ⟨h.policy q hq, hout⟩

end Removed

/-! ## Steps -/

section Step

variable {op : Operation}

/-- A node that is replaced by one with the same children changes no list of names. -/
theorem IsTree.of_insert (h : IsTree r) {n n' : Node} (hn : r.node? path = some n)
    (hchildren : n'.children = n.children) :
    IsTree { r with nodes := r.nodes.insert path n' } := by
  refine h.of_childNames_eq (fun q => ?_) h.policy
  rw [childNames, node?, childNames_insert, hchildren]
  split
  · next hq => rw [← hq, childNames, hn]; rfl
  · rfl

/-- **Every step of a tree leads to a tree.** -/
theorem IsTree.step (h : IsTree r) (hstep : Step r op r') : IsTree r' := by
  cases hstep with
  | unchanged => exact h
  | addNode hname hnew hparent =>
    refine .of_added hname hnew (by rw [childNames, hparent]; rfl) (fun q => ?_) h rfl
    rw [childNames, node?, childNames_insert, childNames_insert]
    rfl
  | removeNode hparent hpath hn =>
    obtain ⟨name, hlist, rfl⟩ := h.exists_lists hpath hparent
    rw [Path.name_join (h.noSlash hlist)]
    have hout := Path.isWithin_join_eq_false (Path.isWithin_refl _) (h.join_ne_root hlist)
    rw [Path.get?_outside, hout] at hn
    have hnames : r.childNames _ = some _ := congrArg (Option.map Node.children) hn
    refine .of_removed h hlist hnames (fun q => ?_) fun q hq => ?_
    · rw [childNames, node?, childNames_insert, Path.get?_outside, childNames, node?]
      cases Path.isWithin q _ <;> rfl
    · obtain ⟨acl, hacl, hout⟩ := Table.contains_filter_iff.1 hq
      rw [Table.contains, hacl]
      exact ⟨rfl, by simpa using hout⟩
  | removeOrphan hparent hpath hn =>
    -- the parent is a node, and does not lie within the removed path
    obtain ⟨name, hlist, rfl⟩ := h.exists_lists hpath hparent
    have hout := Path.isWithin_join_eq_false (Path.isWithin_refl _) (h.join_ne_root hlist)
    rw [Path.get?_outside, hout] at hn
    obtain ⟨names, hnames⟩ := hasNode_iff.1 hlist.hasNode
    rw [childNames, node?, show r.nodes.get? _ = none from hn] at hnames
    cases hnames
  | addMixin hn => exact h.of_insert hn rfl
  | setProperty hn => exact h.of_insert hn rfl
  | removeProperty hn => exact h.of_insert hn rfl
  | setAcl hpath =>
    refine h.of_childNames_eq (fun _ => rfl) fun q hq => ?_
    rcases Table.contains_insert_iff.1 hq with rfl | hq
    · exact hpath
    · exact h.policy q hq
  | updateEntries hpath =>
    refine h.of_childNames_eq (fun _ => rfl) fun q hq => ?_
    rcases Table.contains_insert_iff.1 hq with rfl | hq
    · exact hpath
    · exact h.policy q hq
  | createUser => exact h.of_childNames_eq (fun _ => rfl) h.policy
  | createGroup => exact h.of_childNames_eq (fun _ => rfl) h.policy
  | addMember => exact h.of_childNames_eq (fun _ => rfl) h.policy
  | setAuthorizableProperty => exact h.of_childNames_eq (fun _ => rfl) h.policy

end Step

theorem Reachable.isTree (h : Reachable r) : IsTree r := by
  induction h with
  | new => exact isTree_new _
  | step _ op ih => exact ih.step (op.step _)

theorem Reachable.run (h : Reachable r) (ops : List Operation) : Reachable (run ops r) := by
  induction ops generalizing r with
  | nil => exact h
  | cons op ops ih => exact ih (h.step op)

/-! ## Descendants -/

/-- A path is that of a child which a node lists. -/
def IsChild (r : Repository) (parent path : String) : Prop :=
  ∃ name, r.Lists parent name ∧ path = Path.join parent name

theorem mem_children_iff : path ∈ r.children parent ↔ IsChild r parent path := by
  rw [children, IsChild]
  cases hparent : r.node? parent with
  | none => simp [Lists, childNames, hparent]
  | some n => simp [Lists, childNames, hparent, eq_comm]

theorem IsTree.hasNode_of_isChild (h : IsTree r) (hchild : IsChild r parent path) :
    r.hasNode path = true := by
  obtain ⟨name, hlist, rfl⟩ := hchild
  exact (h.child parent name hlist).2

theorem IsTree.ne_root_of_isChild (h : IsTree r) (hchild : IsChild r parent path) :
    path ≠ Path.root := by
  obtain ⟨name, hlist, rfl⟩ := hchild
  exact h.join_ne_root hlist

/-- **Every node is reached from the root** through the names that nodes list. The induction is on
the length of the path, which is that of the parent and more. -/
theorem IsTree.reaches (h : IsTree r) (hpath : r.hasNode path = true) :
    Relation.ReflTransGen (IsChild r) Path.root path := by
  induction hn : path.toList.length using Nat.strongRecOn generalizing path with
  | ind n ih =>
    by_cases hroot : path = Path.root
    · rw [hroot]
    · obtain ⟨parent, name, hlist, rfl⟩ := h.listed path hpath hroot
      have hlt := Path.length_lt_join (h.join_ne_root hlist)
      exact (ih _ (hn ▸ hlt) hlist.hasNode rfl).tail ⟨name, hlist, rfl⟩

/-- Every node lies within the root. -/
theorem IsTree.isWithin_root (h : IsTree r) (hpath : r.hasNode path = true) :
    Path.isWithin path Path.root = true := by
  have hreaches := h.reaches hpath
  clear hpath
  induction hreaches with
  | refl => exact Path.isWithin_refl _
  | tail _ hchild ih =>
    obtain ⟨name, -, rfl⟩ := hchild
    exact Path.isWithin_join ih name

/-- What a node lies within is a node. -/
theorem IsTree.hasNode_of_isWithin (h : IsTree r) {ancestor : String} (hancestor : ancestor ≠ "")
    (hpath : r.hasNode path = true) (hwithin : Path.isWithin path ancestor = true) :
    r.hasNode ancestor = true := by
  have hreaches := h.reaches hpath
  clear hpath
  induction hreaches with
  | refl =>
    rcases Path.isWithin_iff.1 hwithin with rfl | ⟨n, hn⟩
    · exact h.root
    · by_cases hroot : ancestor = Path.root
      · exact hroot ▸ h.root
      · exact absurd hn.symm (Path.join_ne_root_of_ne hancestor hroot)
  | tail _ hchild ih =>
    obtain ⟨name, hlist, rfl⟩ := hchild
    rcases Path.isWithin_of_join (h.ne_empty hlist.hasNode) hancestor (h.noSlash hlist) hwithin with
      rfl | hparent
    · exact (h.child _ name hlist).2
    · exact ih hparent

end ContentImport.Repository
