import ContentImport.Proofs.Repository.Tree
import ContentImport.Repository.Render

/-!
# Showing a tree

A repository is shown as JSON from a node downwards, at most to a given depth.

* Within a child lie fewer nodes than within its parent (`IsTree.extent_lt`), so that a depth of as
  many levels as there are nodes is enough, and a greater one shows the same
  (`IsTree.exists_render`).
* In a reachable repository the nodes are a tree, and each of them can be shown
  (`Reachable.wellFormed`).
-/

namespace ContentImport.Repository

variable {r : Repository} {path parent name : String}

/-! ## Children -/

variable {render render' : String → Except RepositoryError Json} {names : List String}
  {members : Json.Members}

theorem withChildren_congr
    (h : ∀ name ∈ names, render (Path.join path name) = render' (Path.join path name)) :
    withChildren render path members names = withChildren render' path members names := by
  induction names generalizing members with
  | nil => rfl
  | cons name names ih =>
    obtain ⟨hname, hnames⟩ := List.forall_mem_cons.1 h
    rw [withChildren, withChildren, hname]
    exact bind_congr fun child => ih hnames

theorem exists_withChildren (members : Json.Members)
    (h : ∀ name ∈ names, ∃ child, render (Path.join path name) = .ok child) :
    ∃ members', withChildren render path members names = .ok members' := by
  induction names generalizing members with
  | nil => exact ⟨members, rfl⟩
  | cons name names ih =>
    obtain ⟨⟨child, hchild⟩, hnames⟩ := List.forall_mem_cons.1 h
    rw [withChildren, hchild]
    exact ih _ hnames

/-! ## Depth -/

/-- The number of nodes within a path. -/
def extent (r : Repository) (path : String) : Nat :=
  (r.nodes.keys.filter fun k => Path.isWithin k path).length

theorem extent_le (path : String) : r.extent path ≤ r.nodes.rows.length := by
  have hle := List.length_filter_le (fun k => Path.isWithin k path) r.nodes.keys
  rwa [Table.keys, List.length_map] at hle

theorem extent_pos (hpath : r.hasNode path = true) : 0 < r.extent path := by
  refine List.length_pos_of_mem (a := path) (List.mem_filter.2 ⟨?_, Path.isWithin_refl path⟩)
  exact Table.contains_iff.1 hpath

namespace IsTree

variable (h : IsTree r)

include h

/-- Within a child lie fewer nodes than within its parent, which is not one of them. -/
theorem extent_lt (hlist : r.Lists parent name) :
    r.extent (Path.join parent name) < r.extent parent := by
  have hfilter : (r.nodes.keys.filter fun k => Path.isWithin k (Path.join parent name)) =
      (r.nodes.keys.filter fun k => Path.isWithin k parent).filter
        fun k => Path.isWithin k (Path.join parent name) := by
    rw [List.filter_filter]
    refine List.filter_congr fun k _ => ?_
    cases hk : Path.isWithin k (Path.join parent name) with
    | false => simp
    | true => simp [Path.isWithin_trans hk (Path.isWithin_join_self parent name)]
  rw [extent, hfilter, extent, List.length_filter_lt_length_iff_exists]
  refine ⟨parent, List.mem_filter.2 ⟨?_, Path.isWithin_refl parent⟩, ?_⟩
  · exact Table.contains_iff.1 hlist.hasNode
  · rw [Path.isWithin_join_eq_false (Path.isWithin_refl parent) (h.join_ne_root hlist)]
    decide

/-- A node is shown to any depth that is not less than the number of nodes within it, and one more
level makes no difference. -/
theorem render_of_extent_le (fuel : Nat) : ∀ path, r.hasNode path = true →
    r.extent path ≤ fuel → (∃ json, r.render fuel path = .ok json) ∧
      r.render (fuel + 1) path = r.render fuel path := by
  induction fuel with
  | zero =>
    intro path hpath hle
    have hpos := extent_pos hpath
    omega
  | succ fuel ih =>
    intro path hpath hle
    obtain ⟨names, hnames⟩ := hasNode_iff.1 hpath
    obtain ⟨n, hn, rfl⟩ := Option.map_eq_some_iff.1 hnames
    have hchild : ∀ name ∈ n.children, (∃ json, r.render fuel (Path.join path name) = .ok json) ∧
        r.render (fuel + 1) (Path.join path name) = r.render fuel (Path.join path name) := by
      intro name hname
      have hlist : r.Lists path name := ⟨n.children, hnames, hname⟩
      have hlt := h.extent_lt hlist
      exact ih _ (h.child path name hlist).2 (by omega)
    obtain ⟨members, hmembers⟩ :=
      exists_withChildren n.members fun name hname => (hchild name hname).1
    refine ⟨⟨.object members, ?_⟩, ?_⟩
    · rw [render, hn]
      simp only [hmembers]
      rfl
    · rw [render, render, hn]
      simp only [withChildren_congr fun name hname => (hchild name hname).2]

/-- **Every node can be shown**, and any depth from the number of all nodes on shows the same. -/
theorem exists_render (hpath : r.hasNode path = true) :
    ∃ json, ∀ fuel, r.nodes.rows.length ≤ fuel → r.render fuel path = .ok json := by
  obtain ⟨⟨json, hjson⟩, -⟩ := h.render_of_extent_le _ path hpath (extent_le path)
  refine ⟨json, fun fuel hfuel => ?_⟩
  induction hfuel with
  | refl => exact hjson
  | @step fuel hfuel ih =>
    have hle := Nat.le_trans (extent_le path) hfuel
    rw [(h.render_of_extent_le fuel path hpath hle).2, ih]

end IsTree

/-! ## Reachable repositories -/

/-- **The nodes of a reachable repository are a tree.** The root is a node, and each other node is
joined from exactly one node and one name, which that node lists once. What a node lists are nodes,
and only nodes have access-control lists. So the lists lead from the root to every node, and every
node can be shown. -/
theorem Reachable.wellFormed (h : Reachable r) :
    r.hasNode Path.root = true ∧
    (∀ path, r.hasNode path = true → path ≠ Path.root → ∃ parent name names,
      path = Path.join parent name ∧ r.childNames parent = some names ∧
      (name ≠ "" ∧ name ≠ "." ∧ name ≠ ".." ∧ '/' ∉ name.toList) ∧ names.count name = 1 ∧
      ∀ parent' name', r.hasNode parent' = true → Path.isName name' = true →
        path = Path.join parent' name' → parent' = parent ∧ name' = name) ∧
    (∀ parent names, r.childNames parent = some names → ∀ name ∈ names,
      r.hasNode (Path.join parent name) = true) ∧
    (∀ path acl, r.policies.get? path = some acl → r.hasNode path = true) ∧
    ∀ path, r.hasNode path = true →
      Relation.ReflTransGen (IsChild r) Path.root path ∧
      ∃ json, r.toJson path = .ok json ∧
        ∀ fuel, r.nodes.rows.length ≤ fuel → r.render fuel path = .ok json := by
  have htree := h.isTree
  refine ⟨htree.root, fun path hpath hroot => ?_, fun parent names hnames name hname => ?_,
    fun path acl hacl => ?_, fun path hpath => ⟨htree.reaches hpath, ?_⟩⟩
  · obtain ⟨parent, name, hlist, rfl⟩ := htree.listed path hpath hroot
    have ⟨names, hnames, hname⟩ := hlist
    refine ⟨parent, name, names, rfl, hnames, Path.isName_iff.1 (htree.child parent name hlist).1,
      htree.count_eq_one hnames hname, fun parent' name' hparent' hname' heq => ?_⟩
    obtain ⟨hp, hn⟩ := htree.lists_inj hlist hparent' hname' heq
    exact ⟨hp.symm, hn.symm⟩
  · exact (htree.child parent name ⟨names, hnames, hname⟩).2
  · refine htree.policy path ?_
    rw [Table.contains, hacl]
    rfl
  · obtain ⟨json, hjson⟩ := htree.exists_render hpath
    exact ⟨json, hjson _ (Nat.le_succ _), hjson⟩

/-- Operations with names that extend one another, lead upwards, are empty or have slashes. -/
def mixedOperations : List Operation :=
  [ .addNode "/" "a" "nt:folder", .addNode "/" "ab" "nt:folder", .addNode "/a" "b" "nt:folder",
    .addNode "/a" ".." "nt:folder", .addNode "/a" "" "nt:folder", .addNode "/a/" "b" "nt:folder",
    .addNode "/ab" "b/c" "nt:folder", .addNode "/ab" "c" "nt:folder", .setAcl "/a/b" [],
    .setAcl "/ab/c" [], .removeNode "/a/", .removeNode "/", .removeNode "/a", .removeNode "b" ]

theorem wellFormed_mixedOperations :
    let r := run mixedOperations (new Registry.standard)
    Reachable r ∧ r.nodes.keys = ["/", "/ab", "/ab/c"] ∧ r.policies.keys = ["/ab/c"] ∧
      Relation.ReflTransGen (IsChild r) Path.root "/ab/c" ∧ ∃ json, r.toJson "/ab" = .ok json := by
  intro r
  have hr : Reachable r := (Reachable.new .standard).run mixedOperations
  have hnodes : r.nodes.keys = ["/", "/ab", "/ab/c"] := by decide +kernel
  have hnode : ∀ path ∈ ["/", "/ab", "/ab/c"], r.hasNode path = true := by
    intro path hpath
    exact Table.contains_iff.2 (hnodes ▸ hpath)
  obtain ⟨-, -, -, -, hshown⟩ := hr.wellFormed
  obtain ⟨json, hjson, -⟩ := (hshown "/ab" (hnode _ (by decide))).2
  exact ⟨hr, hnodes, by decide +kernel, (hshown "/ab/c" (hnode _ (by decide))).1, json, hjson⟩

end ContentImport.Repository
