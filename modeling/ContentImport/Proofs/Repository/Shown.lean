import ContentImport.Proofs.Json.Members
import ContentImport.Proofs.Repository.Render

/-!
# What a node is shown as

`Shows` says that a node is shown as a value from some depth on, which in a tree is what it is shown
as (`IsTree.toJson_of_shows`). It depends only on what lies within the node (`Shows.congr`), and
follows from what the children are shown as (`shows_of_children`).
-/

namespace ContentImport.Repository

variable {r r' : Repository} {path : String} {j : Json}

/-- A node is shown as a value, however many more levels there may be. -/
def Shows (r : Repository) (path : String) (j : Json) : Prop :=
  ∃ depth, ∀ fuel, depth ≤ fuel → r.render fuel path = .ok j

theorem Shows.hasNode (h : r.Shows path j) : r.hasNode path = true := by
  obtain ⟨depth, hdepth⟩ := h
  have hrender := hdepth (depth + 1) (Nat.le_succ depth)
  rw [render] at hrender
  split at hrender
  · cases hrender
  · next n hn => exact hasNode_iff.2 ⟨n.children, by rw [childNames, hn]; rfl⟩

theorem IsTree.toJson_of_shows (htree : IsTree r) (h : r.Shows path j) : r.toJson path = .ok j := by
  obtain ⟨json, hjson⟩ := htree.exists_render h.hasNode
  obtain ⟨depth, hdepth⟩ := h
  have hboth := hjson (max depth r.nodes.rows.length) (Nat.le_max_right _ _)
  rw [hdepth _ (Nat.le_max_left _ _)] at hboth
  rw [toJson, hjson _ (Nat.le_succ _), Except.ok.inj hboth]

/-! ## What lies within a node -/

theorem render_congr (fuel : Nat) (path : String)
    (h : ∀ q, Path.isWithin q path = true → r'.node? q = r.node? q) :
    r'.render fuel path = r.render fuel path := by
  induction fuel generalizing path with
  | zero => rfl
  | succ fuel ih =>
    rw [render, render, h path (Path.isWithin_refl path)]
    cases hn : r.node? path with
    | none => rfl
    | some n =>
      have hchildren : withChildren (r'.render fuel) path n.members n.children =
          withChildren (r.render fuel) path n.members n.children := by
        refine withChildren_congr fun name _ => ih _ fun q hq => ?_
        exact h q (Path.isWithin_trans hq (Path.isWithin_join_self path name))
      simp only [hchildren]

theorem Shows.congr (hshows : r.Shows path j)
    (h : ∀ q, Path.isWithin q path = true → r'.node? q = r.node? q) : r'.Shows path j := by
  obtain ⟨depth, hdepth⟩ := hshows
  exact ⟨depth, fun fuel hfuel => (render_congr fuel path h).trans (hdepth fuel hfuel)⟩

/-! ## Children -/

theorem withChildren_eq {render : String → Except RepositoryError Json}
    {members rows : Json.Members}
    (h : ∀ row ∈ rows, render (Path.join path row.1) = .ok row.2)
    (hnodup : ((members ++ rows).map (·.1)).Nodup) :
    withChildren render path members (rows.map (·.1)) = .ok (members ++ rows) := by
  have hput : withChildren render path members (rows.map (·.1)) =
      .ok (rows.foldl (fun ms row => Table.put row.1 row.2 ms) members) := by
    clear hnodup
    induction rows generalizing members with
    | nil => rfl
    | cons row rows ih =>
      obtain ⟨hrow, hrows⟩ := List.forall_mem_cons.1 h
      rw [List.map_cons, withChildren, hrow, List.foldl_cons]
      exact ih hrows
  rw [hput, Table.foldl_put_of_nodup hnodup]

/-- One depth is enough for several children. -/
theorem exists_depth {rows : Json.Members}
    (h : ∀ row ∈ rows, r.Shows (Path.join path row.1) row.2) :
    ∃ depth, ∀ fuel, depth ≤ fuel → ∀ row ∈ rows,
      r.render fuel (Path.join path row.1) = .ok row.2 := by
  induction rows with
  | nil => exact ⟨0, fun _ _ => List.forall_mem_nil _⟩
  | cons row rows ih =>
    obtain ⟨⟨depth, hdepth⟩, hrows⟩ := List.forall_mem_cons.1 h
    obtain ⟨depth', hdepth'⟩ := ih hrows
    refine ⟨max depth depth', fun fuel hfuel => List.forall_mem_cons.2 ⟨?_, ?_⟩⟩
    · exact hdepth fuel (Nat.le_trans (Nat.le_max_left _ _) hfuel)
    · exact hdepth' fuel (Nat.le_trans (Nat.le_max_right _ _) hfuel)

/-- **A node is shown with its own members and what its children are shown as.** -/
theorem shows_of_children {n : Node} (hn : r.node? path = some n) {rows : Json.Members}
    (hchildren : n.children = rows.map (·.1))
    (h : ∀ row ∈ rows, r.Shows (Path.join path row.1) row.2)
    (hnodup : ((n.members ++ rows).map (·.1)).Nodup) :
    r.Shows path (.object (n.members ++ rows)) := by
  obtain ⟨depth, hdepth⟩ := exists_depth h
  refine ⟨depth + 1, fun fuel hfuel => ?_⟩
  obtain ⟨k, rfl⟩ : ∃ k, fuel = k + 1 := ⟨fuel - 1, by omega⟩
  have hrows := withChildren_eq (hdepth k (by omega)) hnodup
  rw [render, hn]
  simp only [hchildren, hrows]
  rfl

end ContentImport.Repository
