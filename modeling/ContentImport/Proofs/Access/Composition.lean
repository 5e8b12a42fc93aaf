import ContentImport.Proofs.Access.Sorted
import ContentImport.Proofs.Except

/-!
# What grants amount to

The entries that the grants of a principal are composed to.

* `granted` lists the privileges that a side of the grants mentions; the groups of the side share
  them out (`flatMap_groups_perm`), and so do its entries if none is mentioned twice
  (`flatMap_side_perm`).
* The composed entries are the denying ones, followed by the allowing ones (`denies_first`); on
  either side those of less depth come first (`pairwise_depth`).
* Every composed entry holds a privilege, and each of its privileges was granted.
-/

namespace ContentImport

open ContentImport.Composition

/-- The depth of the least deep privilege of an entry. -/
def Entry.depth (depths : DepthMap) (e : Entry) : Option Nat :=
  leastDepth (e.privileges.map depths.get?)

/-! ## Bound grants -/

section Bound

variable {grants : List Grant} {bound : List (Grant × Privilege)}

/-- The active grants, each with the privilege that it is bound to. -/
theorem bound_eq_ok_iff :
    Grant.bound grants = .ok bound ↔
      (grants.filter Grant.isActive).map (fun g => (g, g.privilege)) =
        bound.map fun gp => (gp.1, some gp.2) := by
  refine mapM_eq_ok_iff_map fun g gp => ?_
  obtain ⟨g', p'⟩ := gp
  cases hg : g.privilege with
  | none => simp
  | some p => simp

theorem mem_of_mem_bound (h : Grant.bound grants = .ok bound) {gp : Grant × Privilege}
    (hgp : gp ∈ bound) : gp.1 ∈ grants ∧ gp.1.privilege = some gp.2 := by
  have hmem : (gp.1, some gp.2) ∈ bound.map fun gp => (gp.1, some gp.2) :=
    List.mem_map.2 ⟨gp, hgp, rfl⟩
  rw [← bound_eq_ok_iff.1 h, List.mem_map] at hmem
  obtain ⟨g, hg, hpair⟩ := hmem
  obtain ⟨rfl, hp⟩ := Prod.mk.inj hpair
  exact ⟨List.mem_of_mem_filter hg, hp⟩

theorem map_fst_bound (h : Grant.bound grants = .ok bound) :
    bound.map Prod.fst = grants.filter Grant.isActive := by
  have := congrArg (List.map Prod.fst) (bound_eq_ok_iff.1 h)
  rw [List.map_map, List.map_map] at this
  exact (this.symm.trans (List.map_id _) : _)

end Bound

namespace Composition

/-! ## Groups -/

/-- The privileges that one side of bound grants mentions, in order. -/
def granted (isAllow : Bool) (bound : List (Grant × Privilege)) : List String :=
  bound.filterMap fun gp => (gp.1.side isAllow).map fun _ => gp.2.name

theorem granted_cons (isAllow : Bool) (gp : Grant × Privilege) (bound : List (Grant × Privilege)) :
    granted isAllow (gp :: bound) =
      (match gp.1.side isAllow with
        | some _ => [gp.2.name]
        | none => []) ++ granted isAllow bound := by
  rw [granted, List.filterMap_cons]
  cases gp.1.side isAllow <;> rfl

theorem granted_sublist (isAllow : Bool) (bound : List (Grant × Privilege)) :
    (granted isAllow bound).Sublist (bound.map fun gp => gp.2.name) := by
  induction bound with
  | nil => exact List.Sublist.refl _
  | cons gp bound ih =>
    rw [granted_cons, List.map_cons]
    cases gp.1.side isAllow with
    | none => exact ih.cons _
    | some restrictions => exact ih.cons_cons _

theorem flatMap_addTo_perm (restrictions : RestrictionSet) (privilege : String) (gs : List Group) :
    ((addTo restrictions privilege gs).flatMap Group.privileges).Perm
      (gs.flatMap Group.privileges ++ [privilege]) := by
  induction gs with
  | nil => exact List.Perm.refl _
  | cons g gs ih =>
    rw [addTo]
    split
    · rw [List.flatMap_cons, List.flatMap_cons, List.append_assoc, List.append_assoc]
      exact List.perm_append_comm.append_left _
    · rw [List.flatMap_cons, List.flatMap_cons, List.append_assoc]
      exact ih.append_left _

theorem addTo_nonempty {restrictions : RestrictionSet} {privilege : String} {gs : List Group}
    (h : ∀ g ∈ gs, g.privileges ≠ []) :
    ∀ g ∈ addTo restrictions privilege gs, g.privileges ≠ [] := by
  induction gs with
  | nil => simp [addTo]
  | cons g gs ih =>
    obtain ⟨hg, hgs⟩ := List.forall_mem_cons.1 h
    rw [addTo]
    split
    · exact List.forall_mem_cons.2 ⟨by simp, hgs⟩
    · exact List.forall_mem_cons.2 ⟨hg, ih hgs⟩

variable (isAllow : Bool)

/-- The groups with the privileges of a further grant, if it has the side. -/
def addGrant (gs : List Group) (gp : Grant × Privilege) : List Group :=
  match gp.1.side isAllow with
  | some restrictions => addTo restrictions gp.2.name gs
  | none => gs

/-- **The groups share out the privileges that the side mentions.** -/
theorem flatMap_groups_perm (bound : List (Grant × Privilege)) :
    ((groups isAllow bound).flatMap Group.privileges).Perm (granted isAllow bound) := by
  have fold : ∀ (bound : List (Grant × Privilege)) (gs : List Group),
      ((bound.foldl (addGrant isAllow) gs).flatMap Group.privileges).Perm
        (gs.flatMap Group.privileges ++ granted isAllow bound) := by
    intro bound
    induction bound with
    | nil => intro gs; simp [granted]
    | cons gp bound ih =>
      intro gs
      refine (ih _).trans ?_
      rw [addGrant, granted_cons]
      cases gp.1.side isAllow with
      | none => exact List.Perm.refl _
      | some restrictions =>
        have := (flatMap_addTo_perm restrictions gp.2.name gs).append_right (granted isAllow bound)
        rwa [List.append_assoc] at this
  exact fold bound []

theorem groups_nonempty (bound : List (Grant × Privilege)) :
    ∀ g ∈ groups isAllow bound, g.privileges ≠ [] := by
  have fold : ∀ (bound : List (Grant × Privilege)) (gs : List Group),
      (∀ g ∈ gs, g.privileges ≠ []) →
      ∀ g ∈ bound.foldl (addGrant isAllow) gs, g.privileges ≠ [] := by
    intro bound
    induction bound with
    | nil => exact fun gs h => h
    | cons gp bound ih =>
      intro gs h
      refine ih _ ?_
      rw [addGrant]
      split
      · exact addTo_nonempty h
      · exact h
  exact fold bound [] (by simp)

/-! ## Entries of a side -/

section Side

variable (principal : Principal) (depths : DepthMap) (bound : List (Grant × Privilege))

/-- The entry of a group. -/
def Group.entry (g : Group) : Entry :=
  ⟨principal, distinct g.privileges, isAllow, g.restrictions.single, g.restrictions.multiple⟩

theorem side_eq_map : side principal depths isAllow bound =
    (sortByKey (fun g => leastDepth (g.privileges.map depths.get?)) depthLe
      (groups isAllow bound)).map (Group.entry isAllow principal) := rfl

theorem mem_side {e : Entry} : e ∈ side principal depths isAllow bound ↔
    ∃ g ∈ groups isAllow bound, Group.entry isAllow principal g = e := by
  rw [side_eq_map, List.mem_map]
  simp only [(sortByKey_perm _ depthLe (groups isAllow bound)).mem_iff]

variable {isAllow principal depths bound}

theorem isAllow_of_mem_side {e : Entry} (h : e ∈ side principal depths isAllow bound) :
    e.isAllow = isAllow := by
  obtain ⟨g, -, rfl⟩ := (mem_side ..).1 h
  rfl

theorem principal_of_mem_side {e : Entry} (h : e ∈ side principal depths isAllow bound) :
    e.principal = principal := by
  obtain ⟨g, -, rfl⟩ := (mem_side ..).1 h
  rfl

theorem privileges_of_mem_side {e : Entry} (h : e ∈ side principal depths isAllow bound) :
    e.privileges ≠ [] ∧ ∀ n ∈ e.privileges, n ∈ granted isAllow bound := by
  obtain ⟨g, hg, rfl⟩ := (mem_side ..).1 h
  constructor
  · obtain ⟨n, l, hn⟩ := List.exists_cons_of_ne_nil (groups_nonempty isAllow bound g hg)
    exact List.ne_nil_of_mem (mem_distinct.2 (hn ▸ List.mem_cons_self : n ∈ g.privileges))
  · intro n hn
    exact (flatMap_groups_perm isAllow bound).mem_iff.1
      (List.mem_flatMap.2 ⟨g, hg, mem_distinct.1 hn⟩)

theorem depth_entry (g : Group) :
    (Group.entry isAllow principal g).depth depths =
      leastDepth (g.privileges.map depths.get?) := by
  refine leastDepth_congr fun a => ?_
  simp only [Group.entry, List.mem_map, mem_distinct]

/-- **On a side, entries of less depth come first.** -/
theorem pairwise_depth_side :
    (side principal depths isAllow bound).Pairwise fun e f =>
      depthLe (e.depth depths) (f.depth depths) = true := by
  rw [side_eq_map, List.pairwise_map]
  simp only [depth_entry]
  exact pairwise_sortByKey _ depthLe_total depthLe_trans _

/-- The entries of a side share out what it mentions, if it mentions nothing twice. -/
theorem flatMap_side_perm (h : (granted isAllow bound).Nodup) :
    ((side principal depths isAllow bound).flatMap Entry.privileges).Perm
      (granted isAllow bound) := by
  have hperm := flatMap_groups_perm isAllow bound
  have hdistinct : ∀ g ∈ groups isAllow bound,
      (Group.entry isAllow principal g).privileges = g.privileges := fun g hg =>
    distinct_eq_self ((List.nodup_flatMap.1 (hperm.nodup_iff.2 h)).1 g hg)
  refine List.Perm.trans ?_ hperm
  rw [side_eq_map, List.flatMap_map]
  refine ((sortByKey_perm _ depthLe _).flatMap_right _).trans ?_
  rw [List.flatMap_congr hdistinct]

variable (isAllow principal depths bound)

/-- The sides are found again in what they are put together to. -/
theorem filter_sides :
    (side principal depths false bound ++ side principal depths true bound).filter
      (·.isAllow == isAllow) = side principal depths isAllow bound := by
  rw [List.filter_append]
  cases isAllow with
  | false =>
    rw [List.filter_eq_self.2 fun e he => by rw [isAllow_of_mem_side he]; rfl,
      List.filter_eq_nil_iff.2 fun e he => by rw [isAllow_of_mem_side he]; simp,
      List.append_nil]
  | true =>
    rw [List.filter_eq_nil_iff.2 fun e he => by rw [isAllow_of_mem_side he]; simp,
      List.filter_eq_self.2 fun e he => by rw [isAllow_of_mem_side he]; rfl,
      List.nil_append]

end Side

end Composition

/-! ## Composed entries -/

theorem compose_eq_ok_iff {p : Principal} {grants : List Grant} {depths : DepthMap}
    {es : List Entry} :
    compose p grants depths = .ok es ↔ ∃ bound, Grant.bound grants = .ok bound ∧
      es = side p depths false bound ++ side p depths true bound := by
  rw [compose, andThen_eq_ok_iff]
  simp [pure, Except.pure, eq_comm]

section Composed

variable {p : Principal} {grants : List Grant} {depths : DepthMap} {es : List Entry}
  (h : compose p grants depths = .ok es)

include h

theorem principal_of_mem_compose {e : Entry} (he : e ∈ es) : e.principal = p := by
  obtain ⟨bound, -, rfl⟩ := compose_eq_ok_iff.1 h
  exact (List.mem_append.1 he).elim principal_of_mem_side principal_of_mem_side

theorem denies_first : es.Pairwise fun e f => e.isAllow = true → f.isAllow = true := by
  obtain ⟨bound, -, rfl⟩ := compose_eq_ok_iff.1 h
  rw [List.pairwise_append]
  refine ⟨List.pairwise_of_forall_mem_list fun e he f _ ha => ?_,
    List.pairwise_of_forall_mem_list fun e _ f hf _ => isAllow_of_mem_side hf,
    fun e _ f hf _ => isAllow_of_mem_side hf⟩
  rw [isAllow_of_mem_side he] at ha
  cases ha

/-- **Of two entries of one side the less deep one comes first.** -/
theorem pairwise_depth : es.Pairwise fun e f =>
    e.isAllow = f.isAllow → depthLe (e.depth depths) (f.depth depths) = true := by
  obtain ⟨bound, -, rfl⟩ := compose_eq_ok_iff.1 h
  rw [List.pairwise_append]
  refine ⟨pairwise_depth_side.imp ?_, pairwise_depth_side.imp ?_, fun e he f hf hef => ?_⟩
  · exact fun hle _ => hle
  · exact fun hle _ => hle
  rw [isAllow_of_mem_side he, isAllow_of_mem_side hf] at hef
  cases hef

theorem privileges_nonempty {e : Entry} (he : e ∈ es) : e.privileges ≠ [] := by
  obtain ⟨bound, -, rfl⟩ := compose_eq_ok_iff.1 h
  exact (List.mem_append.1 he).elim (fun he => (privileges_of_mem_side he).1)
    fun he => (privileges_of_mem_side he).1

/-- Each privilege of a composed entry is that of a grant. -/
theorem exists_grant_of_mem_privileges {e : Entry} (he : e ∈ es) {n : String}
    (hn : n ∈ e.privileges) : ∃ g ∈ grants, ∃ q, g.privilege = some q ∧ q.name = n := by
  obtain ⟨bound, hb, rfl⟩ := compose_eq_ok_iff.1 h
  obtain ⟨isAllow, hn⟩ : ∃ isAllow, n ∈ granted isAllow bound :=
    (List.mem_append.1 he).elim (fun he => ⟨_, (privileges_of_mem_side he).2 n hn⟩)
      fun he => ⟨_, (privileges_of_mem_side he).2 n hn⟩
  obtain ⟨gp, hgp, hname⟩ := List.mem_filterMap.1 hn
  obtain ⟨_, -, rfl⟩ := Option.map_eq_some_iff.1 hname
  obtain ⟨hg, hq⟩ := mem_of_mem_bound hb hgp
  exact ⟨gp.1, hg, gp.2, hq, rfl⟩

/-- **Grants of distinct privileges put no privilege twice on a side**, neither into one entry nor
into two. -/
theorem nodup_privileges (hgrants : (grants.map Grant.name).Nodup)
    (hnames : ∀ g ∈ grants, ∀ q, g.privilege = some q → q.name = g.name) (isAllow : Bool) :
    ((es.filter (·.isAllow == isAllow)).flatMap Entry.privileges).Nodup := by
  obtain ⟨bound, hb, rfl⟩ := compose_eq_ok_iff.1 h
  have hbound : bound.map (fun gp => gp.2.name) = (bound.map Prod.fst).map Grant.name := by
    rw [List.map_map]
    refine List.map_congr_left fun gp hgp => ?_
    obtain ⟨hg, hq⟩ := mem_of_mem_bound hb hgp
    exact hnames _ hg _ hq
  have hside : (granted isAllow bound).Nodup := by
    refine (hgrants.sublist ?_).sublist (granted_sublist isAllow bound)
    rw [hbound, map_fst_bound hb]
    exact List.filter_sublist.map _
  rw [filter_sides]
  exact (flatMap_side_perm hside).nodup_iff.2 hside

end Composed

end ContentImport
