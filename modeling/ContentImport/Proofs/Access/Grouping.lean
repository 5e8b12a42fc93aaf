import ContentImport.Proofs.Access.Composition
import Mathlib.Data.ENat.Lattice

/-!
# Entries by restrictions

What `compose` returns, in terms of the grants alone.

A side of the grants is told by the sets of restrictions on it (`restrictionsOf`) and by the
privileges granted under each of them (`grantedUnder`), both read off what the grants allow and
deny. `IsSide` says what its entries are: one for each set of restrictions, those with a less deep
privilege first. It determines them (`IsSide.eq`), and the entries that the grants compose to have
it on either side (`compose_eq_specification`).
-/

namespace ContentImport

open ContentImport.Composition

/-! ## Specification -/

/-- Whether a grant allows or denies something, but has no privilege. -/
def Grant.isUnbound (g : Grant) : Bool := (g.allow.isSome || g.deny.isSome) && g.privilege.isNone

namespace Composition

/-- A depth as an extended number; a missing one is deepest. -/
def toLevel (depth : Option Nat) : ℕ∞ := depth.elim ⊤ Nat.cast

/-- The restrictions on a side of the grants, in grant order: those under which they allow
something, or those under which they deny something. -/
def restrictionsOf (isAllow : Bool) (grants : List Grant) : List RestrictionSet :=
  match isAllow with
  | true => grants.filterMap Grant.allow
  | false => grants.filterMap Grant.deny

/-- The grants that allow, or deny, something under a set of restrictions. -/
def grantsUnder (isAllow : Bool) (grants : List Grant) (R : RestrictionSet) : List Grant :=
  match isAllow with
  | true => grants.filter (·.allow = some R)
  | false => grants.filter (·.deny = some R)

/-- The names of the privileges that a side of the grants has under a set of restrictions, in grant
order. -/
def grantedUnder (isAllow : Bool) (grants : List Grant) (R : RestrictionSet) : List String :=
  (grantsUnder isAllow grants R).filterMap fun g => g.privilege.map Privilege.name

/-- The depth of the least deep of the privileges granted under a set of restrictions. -/
noncomputable def levelUnder (depths : DepthMap) (isAllow : Bool) (grants : List Grant)
    (R : RestrictionSet) : ℕ∞ :=
  ⨅ name ∈ grantedUnder isAllow grants R, toLevel (depths.get? name)

/-- That the privileges under one set of restrictions are less deep than those under another, or
that they are as deep and the one set comes first in the grants. -/
def Precedes (depths : DepthMap) (isAllow : Bool) (grants : List Grant) (R S : RestrictionSet) :
    Prop :=
  levelUnder depths isAllow grants R < levelUnder depths isAllow grants S ∨
    levelUnder depths isAllow grants R = levelUnder depths isAllow grants S ∧
      (restrictionsOf isAllow grants).idxOf R < (restrictionsOf isAllow grants).idxOf S

/-- Rows sorted by name, of which there is one just if the name has a value. -/
structure IsSorted {α : Type} (rows : List (String × α)) (has : String → α → Prop) : Prop where
  mem_iff : ∀ name a, (name, a) ∈ rows ↔ has name a
  sorted : (rows.map Prod.fst).Pairwise (· < ·)

/-- The entry for what a side of the grants has under a set of restrictions: each of the privileges
once, in the order in which they are granted, and the members of the set that carry a value. -/
structure IsEntryFor (principal : Principal) (isAllow : Bool) (grants : List Grant)
    (R : RestrictionSet) (e : Entry) : Prop where
  principal_eq : e.principal = principal
  isAllow_eq : e.isAllow = isAllow
  privileges : Firsts (grantedUnder isAllow grants R) e.privileges
  single : IsSorted e.single fun name v => (name, .single (some v)) ∈ R.rows
  multiple : IsSorted e.multiple fun name vs => (name, .multiple (some vs)) ∈ R.rows

/-- The entries of a side of the grants: one for each set of restrictions on the side, in order. -/
def IsSide (principal : Principal) (depths : DepthMap) (isAllow : Bool) (grants : List Grant)
    (es : List Entry) : Prop :=
  ∃ sets : List RestrictionSet,
    (∀ R, R ∈ sets ↔ R ∈ restrictionsOf isAllow grants) ∧
    sets.Pairwise (Precedes depths isAllow grants) ∧
    List.Forall₂ (IsEntryFor principal isAllow grants) sets es

/-! ## The specification determines the entries -/

section Determined

variable {principal : Principal} {depths : DepthMap} {isAllow : Bool} {grants : List Grant}

theorem Precedes.asymm {R S : RestrictionSet} (h : Precedes depths isAllow grants R S) :
    ¬ Precedes depths isAllow grants S R := by
  rcases h with h | ⟨h, hidx⟩
  · rintro (h' | ⟨h', -⟩)
    · exact h.asymm h'
    · exact h.ne' h'
  · rintro (h' | ⟨-, hidx'⟩)
    · exact h'.ne' h
    · exact Nat.lt_asymm hidx hidx'

theorem IsSorted.eq {α : Type} {rows rows' : List (String × α)} {has : String → α → Prop}
    (h : IsSorted rows has) (h' : IsSorted rows' has) : rows = rows' := by
  have hsorted : rows.Pairwise (·.1 < ·.1) := List.pairwise_map.1 h.sorted
  have hsorted' : rows'.Pairwise (·.1 < ·.1) := List.pairwise_map.1 h'.sorted
  exact eq_of_pairwise_of_mem_iff (fun _ _ => String.lt_asymm) hsorted hsorted' fun (name, a) =>
    (h.mem_iff name a).trans (h'.mem_iff name a).symm

theorem IsEntryFor.eq {R : RestrictionSet} {e e' : Entry}
    (h : IsEntryFor principal isAllow grants R e) (h' : IsEntryFor principal isAllow grants R e') :
    e = e' := by
  obtain ⟨p, ns, b, ss, ms⟩ := e
  obtain ⟨p', ns', b', ss', ms'⟩ := e'
  obtain rfl : p = p' := h.principal_eq.trans h'.principal_eq.symm
  obtain rfl : b = b' := h.isAllow_eq.trans h'.isAllow_eq.symm
  obtain rfl : ns = ns' := h.privileges.eq h'.privileges
  obtain rfl : ss = ss' := h.single.eq h'.single
  obtain rfl : ms = ms' := h.multiple.eq h'.multiple
  rfl

/-- **The grants determine the entries of a side.** -/
theorem IsSide.eq {es es' : List Entry} (h : IsSide principal depths isAllow grants es)
    (h' : IsSide principal depths isAllow grants es') : es = es' := by
  obtain ⟨sets, hmem, hsorted, hes⟩ := h
  obtain ⟨sets', hmem', hsorted', hes'⟩ := h'
  obtain rfl : sets = sets' :=
    eq_of_pairwise_of_mem_iff (fun _ _ => Precedes.asymm) hsorted hsorted' fun R =>
      (hmem R).trans (hmem' R).symm
  have unique : Relator.RightUnique (IsEntryFor principal isAllow grants) :=
    fun _ _ _ he he' => he.eq he'
  exact unique.forall₂ hes hes'

end Determined

/-! ## Least depths -/

theorem depthLe_iff {a b : Option Nat} : depthLe a b = true ↔ toLevel a ≤ toLevel b := by
  cases a <;> cases b <;> simp [depthLe, toLevel]

theorem toLevel_leastDepth (l : List (Option Nat)) :
    toLevel (leastDepth l) = ⨅ a ∈ l, toLevel a := by
  refine le_antisymm (le_iInf₂ fun a ha => depthLe_iff.1 (leastDepth_le ha)) ?_
  by_cases hl : l = []
  · simp [hl, leastDepth, toLevel]
  · exact iInf₂_le _ (leastDepth_mem hl)

theorem toLevel_leastDepth_map (depths : DepthMap) (names : List String) :
    toLevel (leastDepth (names.map depths.get?)) = ⨅ name ∈ names, toLevel (depths.get? name) := by
  rw [toLevel_leastDepth]
  refine le_antisymm (le_iInf₂ fun name hname => ?_) (le_iInf₂ fun a ha => ?_)
  · exact iInf₂_le (depths.get? name) (List.mem_map_of_mem hname)
  · obtain ⟨name, hname, rfl⟩ := List.mem_map.1 ha
    exact iInf₂_le name hname

/-! ## Groups -/

section Groups

/-- The privileges of the first group under a set of restrictions. -/
def privilegesUnder (gs : List Group) (R : RestrictionSet) : List String :=
  ((gs.find? (·.restrictions = R)).map Group.privileges).getD []

theorem map_restrictions_addTo (R : RestrictionSet) (name : String) (gs : List Group) :
    (addTo R name gs).map Group.restrictions =
      if R ∈ gs.map Group.restrictions then gs.map Group.restrictions
      else gs.map Group.restrictions ++ [R] := by
  induction gs with
  | nil => rfl
  | cons g gs ih =>
    rw [addTo]
    by_cases hg : g.restrictions = R
    · simp [hg]
    · have hg' : R ≠ g.restrictions := Ne.symm hg
      rw [if_neg hg, List.map_cons, ih]
      by_cases hR : R ∈ gs.map Group.restrictions <;> simp [hR, hg']

theorem privilegesUnder_addTo (R S : RestrictionSet) (name : String) (gs : List Group) :
    privilegesUnder (addTo R name gs) S =
      privilegesUnder gs S ++ if R = S then [name] else [] := by
  induction gs with
  | nil => by_cases hRS : R = S <;> simp [addTo, privilegesUnder, hRS]
  | cons g gs ih =>
    rw [addTo]
    simp only [privilegesUnder, List.find?_cons] at ih ⊢
    by_cases hg : g.restrictions = R
    · rw [if_pos hg]
      by_cases hRS : R = S
      · simp [hg, hRS]
      · simp [hg, hRS]
    · rw [if_neg hg]
      by_cases hS : g.restrictions = S
      · have hRS : R ≠ S := fun h => hg (hS.trans h.symm)
        simp [hS, hRS]
      · simpa [hS] using ih

theorem privilegesUnder_of_mem {gs : List Group} (hgs : (gs.map Group.restrictions).Nodup)
    {g : Group} (hg : g ∈ gs) : privilegesUnder gs g.restrictions = g.privileges := by
  induction gs with
  | nil => cases hg
  | cons h gs ih =>
    obtain ⟨hnew, hgs⟩ := List.nodup_cons.1 hgs
    rcases List.mem_cons.1 hg with rfl | hg
    · simp [privilegesUnder]
    · have hne : h.restrictions ≠ g.restrictions := fun he =>
        hnew (he ▸ List.mem_map_of_mem hg)
      simpa [privilegesUnder, hne] using ih hgs hg

variable (isAllow : Bool)

theorem groups_concat (bound : List (Grant × Privilege)) (gp : Grant × Privilege) :
    groups isAllow (bound ++ [gp]) = addGrant isAllow (groups isAllow bound) gp :=
  List.foldl_concat ..

/-- **The groups of a side are under the restrictions on it, in the order of their first
occurrence.** -/
theorem firsts_groups (bound : List (Grant × Privilege)) :
    Firsts (bound.filterMap (·.1.side isAllow))
      ((groups isAllow bound).map Group.restrictions) := by
  induction bound using List.reverseRecOn with
  | nil => exact Firsts.nil
  | append_singleton bound gp ih =>
    rw [groups_concat, addGrant, List.filterMap_append]
    cases hside : gp.1.side isAllow with
    | none => simpa [hside] using ih
    | some R =>
      have hmem : R ∈ (groups isAllow bound).map Group.restrictions ↔
          R ∈ bound.filterMap (·.1.side isAllow) := ih.mem_iff R
      simpa only [hside, map_restrictions_addTo, hmem, List.filterMap_cons, List.filterMap_nil]
        using ih.concat R

/-- **A group has the privileges of the grants under its restrictions, in grant order.** -/
theorem privilegesUnder_groups (bound : List (Grant × Privilege)) (R : RestrictionSet) :
    privilegesUnder (groups isAllow bound) R =
      bound.filterMap fun gp => if gp.1.side isAllow = some R then some gp.2.name else none := by
  induction bound using List.reverseRecOn with
  | nil => rfl
  | append_singleton bound gp ih =>
    rw [groups_concat, addGrant, List.filterMap_append]
    cases hside : gp.1.side isAllow with
    | none => simp [hside, ih]
    | some S =>
      rw [privilegesUnder_addTo, ih]
      by_cases hSR : S = R <;> simp [hside, hSR]

end Groups

/-! ## Bound grants -/

section Bound

variable {grants : List Grant} {bound : List (Grant × Privilege)}

/-- **Grants are not bound just if one of them is unbound; the first such one is reported.** -/
theorem bound_eq_error_iff {e : AccessError} :
    Grant.bound grants = .error e ↔
      ∃ g, grants.find? Grant.isUnbound = some g ∧ e = .unresolvedPrivilege g.name := by
  have hfind : grants.find? Grant.isUnbound =
      (grants.filter Grant.isActive).find? (·.privilege.isNone) := by
    rw [List.find?_filter]
    simp only [Bool.decide_and, Bool.decide_eq_true]
    rfl
  rw [hfind, Grant.bound]
  refine mapM_eq_error_iff_find? (fun g hg => ?_) fun g hg => ?_
  · rw [Option.isNone_iff_eq_none.1 hg]
  · obtain ⟨p, hp⟩ := Option.isSome_iff_exists.1 (Option.isNone_eq_false_iff.1 hg)
    exact ⟨(g, p), by rw [hp]⟩

/-- The restrictions on a side are those that the grants have on it. -/
theorem restrictionsOf_eq_side (isAllow : Bool) (grants : List Grant) :
    restrictionsOf isAllow grants = grants.filterMap (·.side isAllow) := by
  cases isAllow <;> rfl

/-- The privileges under restrictions are those of the grants that have them on the side. -/
theorem grantedUnder_eq_side (isAllow : Bool) (grants : List Grant) (R : RestrictionSet) :
    grantedUnder isAllow grants R = grants.filterMap fun g =>
      if g.side isAllow = some R then g.privilege.map Privilege.name else none := by
  cases isAllow <;> simp [grantedUnder, grantsUnder, List.filterMap_filter, Grant.side]

theorem side_eq_none {g : Grant} (hg : g.isActive = false) (isAllow : Bool) :
    g.side isAllow = none := by
  cases isAllow <;> simp_all [Grant.isActive, Grant.side]

variable (h : Grant.bound grants = .ok bound)

include h

/-- What only active grants contribute is contributed by the bound ones. -/
theorem filterMap_of_bound {β : Type} {f : Grant → Option β}
    (hf : ∀ g, g.isActive = false → f g = none) :
    grants.filterMap f = bound.filterMap fun gp => f gp.1 := by
  have hactive : (grants.filter Grant.isActive).filterMap f = grants.filterMap f := by
    rw [List.filterMap_filter]
    refine List.filterMap_congr fun g _ => ?_
    cases hg : g.isActive <;> simp [hf, hg]
  rw [← hactive, ← map_fst_bound h, List.filterMap_map]
  rfl

variable (isAllow : Bool)

theorem restrictionsOf_eq :
    restrictionsOf isAllow grants = bound.filterMap (·.1.side isAllow) := by
  rw [restrictionsOf_eq_side]
  exact filterMap_of_bound h fun _ hg => side_eq_none hg isAllow

theorem grantedUnder_eq (R : RestrictionSet) :
    grantedUnder isAllow grants R = privilegesUnder (groups isAllow bound) R := by
  rw [privilegesUnder_groups, grantedUnder_eq_side, filterMap_of_bound h fun g hg => ?inactive]
  · refine List.filterMap_congr fun gp hgp => ?_
    rw [(mem_of_mem_bound h hgp).2]
    rfl
  case inactive => rw [side_eq_none hg, if_neg nofun]

end Bound

/-! ## Entries of a side -/

section Entries

variable (principal : Principal) (depths : DepthMap) (isAllow : Bool)
  {grants : List Grant} {bound : List (Grant × Privilege)}

/-- Rows selected from those of a set of restrictions, by what they give. -/
theorem isSorted_filterMap {α : Type} (R : RestrictionSet)
    {select : String × RestrictionValue → Option (String × α)} {value : α → RestrictionValue}
    (hselect : ∀ row name a, select row = some (name, a) ↔ row = (name, value a)) :
    IsSorted (R.rows.filterMap select) fun name a => (name, value a) ∈ R.rows where
  mem_iff name a := by simp [List.mem_filterMap, hselect]
  sorted := by
    have hrows : R.rows.Pairwise (·.1 < ·.1) := List.pairwise_map.1 R.sorted
    rw [List.pairwise_map, List.pairwise_filterMap]
    refine hrows.imp fun hlt row hrow row' hrow' => ?_
    rw [(hselect _ _ _).1 hrow, (hselect _ _ _).1 hrow'] at hlt
    exact hlt

theorem isSorted_single (R : RestrictionSet) :
    IsSorted R.single fun name v => (name, .single (some v)) ∈ R.rows :=
  isSorted_filterMap R fun row name v => by
    obtain ⟨n, value⟩ := row
    split <;> simp_all

theorem isSorted_multiple (R : RestrictionSet) :
    IsSorted R.multiple fun name vs => (name, .multiple (some vs)) ∈ R.rows :=
  isSorted_filterMap R fun row name v => by
    obtain ⟨n, value⟩ := row
    split <;> simp_all

variable (h : Grant.bound grants = .ok bound)

include h

theorem isEntryFor_entry {g : Group} (hg : g ∈ groups isAllow bound) :
    IsEntryFor principal isAllow grants g.restrictions (Group.entry isAllow principal g) where
  principal_eq := rfl
  isAllow_eq := rfl
  privileges := by
    rw [grantedUnder_eq h, privilegesUnder_of_mem (firsts_groups isAllow bound).nodup hg]
    exact firsts_distinct g.privileges
  single := isSorted_single g.restrictions
  multiple := isSorted_multiple g.restrictions

theorem levelUnder_eq {g : Group} (hg : g ∈ groups isAllow bound) :
    levelUnder depths isAllow grants g.restrictions =
      toLevel (leastDepth (g.privileges.map depths.get?)) := by
  rw [levelUnder, grantedUnder_eq h, privilegesUnder_of_mem (firsts_groups isAllow bound).nodup hg,
    toLevel_leastDepth_map]

/-- **What a side is composed to has its specification.** -/
theorem isSide_side :
    IsSide principal depths isAllow grants (side principal depths isAllow bound) := by
  let sorted := sortByKey (fun g => leastDepth (g.privileges.map depths.get?)) depthLe
    (groups isAllow bound)
  have hmem : ∀ g, g ∈ sorted ↔ g ∈ groups isAllow bound := fun g =>
    (sortByKey_perm _ _ _).mem_iff
  have hfirsts := firsts_groups isAllow bound
  refine ⟨sorted.map Group.restrictions, fun R => ?_, ?_, ?_⟩
  · calc R ∈ sorted.map Group.restrictions
        ↔ R ∈ (groups isAllow bound).map Group.restrictions := by simp only [List.mem_map, hmem]
      _ ↔ R ∈ restrictionsOf isAllow grants := by rw [hfirsts.mem_iff, restrictionsOf_eq h]
  · rw [List.pairwise_map]
    have hstable := pairwise_keyBefore_sortByKey
      (fun g : Group => leastDepth (g.privileges.map depths.get?)) depthLe_total depthLe_trans
      (List.pairwise_map.1 hfirsts.ordered)
    refine hstable.imp_of_mem fun {g g'} hg hg' hbefore => ?_
    obtain ⟨hle, htie⟩ := hbefore
    rw [Precedes, levelUnder_eq depths isAllow h ((hmem g).1 hg),
      levelUnder_eq depths isAllow h ((hmem g').1 hg'), restrictionsOf_eq h]
    rcases (depthLe_iff.1 hle).lt_or_eq with hlt | heq
    · exact .inl hlt
    · exact .inr ⟨heq, htie (depthLe_iff.2 heq.ge)⟩
  · rw [side_eq_map, List.forall₂_map_left_iff, List.forall₂_map_right_iff, List.forall₂_same]
    exact fun g hg => isEntryFor_entry principal isAllow h ((hmem g).1 hg)

end Entries

end Composition

/-! ## Composed entries -/

theorem compose_eq_error_iff {principal : Principal} {grants : List Grant} {depths : DepthMap}
    {e : AccessError} : compose principal grants depths = .error e ↔
      ∃ g, grants.find? Grant.isUnbound = some g ∧ e = .unresolvedPrivilege g.name := by
  rw [compose, andThen_eq_error_iff, bound_eq_error_iff]
  simp [pure, Except.pure]

/-- **Composing entries is specified by the grants alone.** It fails just if a grant with a side is
unbound, for the first such grant. Otherwise the denying entries come before the allowing ones, and
either side has an entry for each set of restrictions on it, with the privileges granted under the
set, less deep ones first. -/
theorem compose_eq_specification (principal : Principal) (grants : List Grant) (depths : DepthMap) :
    (∀ e, compose principal grants depths = .error e ↔
      ∃ g, grants.find? Grant.isUnbound = some g ∧ e = .unresolvedPrivilege g.name) ∧
    ∀ es, compose principal grants depths = .ok es ↔
      grants.find? Grant.isUnbound = none ∧
        ∃ denying allowing, es = denying ++ allowing ∧
          IsSide principal depths false grants denying ∧
          IsSide principal depths true grants allowing := by
  refine ⟨fun e => compose_eq_error_iff, fun es => ?_⟩
  constructor
  · intro h
    obtain ⟨bound, hbound, rfl⟩ := compose_eq_ok_iff.1 h
    refine ⟨Option.eq_none_iff_forall_ne_some.2 fun g hg => ?_, _, _, rfl,
      isSide_side principal depths false hbound, isSide_side principal depths true hbound⟩
    rw [compose_eq_error_iff.2 ⟨g, hg, rfl⟩] at h
    cases h
  · rintro ⟨hnone, denying, allowing, rfl, hdenying, hallowing⟩
    cases hbound : Grant.bound grants with
    | error e =>
      obtain ⟨g, hg, -⟩ := bound_eq_error_iff.1 hbound
      rw [hnone] at hg
      cases hg
    | ok bound =>
      rw [compose_eq_ok_iff]
      refine ⟨bound, hbound, ?_⟩
      rw [hdenying.eq (isSide_side principal depths false hbound),
        hallowing.eq (isSide_side principal depths true hbound)]

end ContentImport
