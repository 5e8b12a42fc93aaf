import ContentImport.Proofs.Access.Arrangement
import ContentImport.Proofs.Access.Hierarchy
import ContentImport.Proofs.Repository.Registry
import ContentImport.Repository.Basic

/-!
# Grants bound to registered privileges

* A grant is bound to the privilege that is registered under its name. The grants of a list are
  bound in order, and the first one whose name is not registered is reported
  (`mapM_bind_eq_error_iff`).
* Bound grants amount to entries (`exists_compose`).
* An entry with privileges that contain all those of another entry of its side precedes it
  (`lt_of_covers`).
* Grants from a builder mention every privilege once (`Grants.Built.nodup_names`), so the entries
  that they amount to form a block (`block_compose`).
-/

namespace ContentImport

namespace Repository

open ContentImport.Composition

/-! ## Binding -/

section Binding

variable {registry : Registry} {g b : Grant} {grants bound : List Grant}

theorem bind_eq_ok_iff : bind registry g = .ok b ↔
    ∃ p, registry.find g.name = .ok p ∧ b = { g with privilege := some p } := by
  rw [bind, andThen_eq_ok_iff]
  simp [pure, Except.pure, eq_comm]

theorem bind_eq_error_iff {e : AccessError} : bind registry g = .error e ↔
    registry.privileges.get? g.name = none ∧ e = .privilegeNotFound g.name := by
  rw [← Registry.find_eq_error_iff, bind, andThen_eq_error_iff]
  simp [pure, Except.pure]

theorem exists_bind_iff : (∃ b, bind registry g = .ok b) ↔
    registry.privileges.contains g.name = true := by
  simp only [bind_eq_ok_iff, Registry.find_eq_ok_iff, Table.contains, Option.isSome_iff_exists]
  constructor
  · rintro ⟨b, p, hp, -⟩
    exact ⟨p, hp⟩
  · rintro ⟨p, hp⟩
    exact ⟨_, p, hp, rfl⟩

/-- **Binding reports the first grant whose name is not registered.** -/
theorem mapM_bind_eq_error_iff {e : AccessError} : grants.mapM (bind registry) = .error e ↔
    ∃ s g t, grants = s ++ g :: t ∧ (∀ c ∈ s, registry.privileges.contains c.name = true) ∧
      registry.privileges.get? g.name = none ∧ e = .privilegeNotFound g.name := by
  simp only [mapM_eq_error_iff, exists_bind_iff, bind_eq_error_iff]

variable (h : grants.mapM (bind registry) = .ok bound)

include h

theorem map_name_bound : bound.map Grant.name = grants.map Grant.name := by
  rw [← List.forall₂_eq_eq_eq, List.forall₂_map_left_iff, List.forall₂_map_right_iff]
  refine ((mapM_eq_ok_iff.1 h).imp fun g b hb => ?_).flip
  obtain ⟨p, -, rfl⟩ := bind_eq_ok_iff.1 hb
  rfl

theorem exists_find_of_mem_bound (hb : b ∈ bound) :
    ∃ p, registry.find b.name = .ok p ∧ b.privilege = some p := by
  obtain ⟨g, -, hgb⟩ := exists_of_mem_mapM h hb
  obtain ⟨p, hp, rfl⟩ := bind_eq_ok_iff.1 hgb
  exact ⟨p, hp, rfl⟩

theorem find_of_mem_bound (hb : b ∈ bound) {p : Privilege} (hp : b.privilege = some p) :
    registry.find b.name = .ok p := by
  obtain ⟨q, hq, hbq⟩ := exists_find_of_mem_bound h hb
  rw [hq, Option.some.inj (hbq.symm.trans hp)]

/-- Bound grants amount to entries. -/
theorem exists_compose (principal : Principal) (depths : DepthMap) :
    ∃ es, compose principal bound depths = .ok es := by
  rcases hb : Grant.bound bound with e | l
  · obtain ⟨s, b, t, hbs, -, hfail⟩ := mapM_eq_error_iff.1 hb
    have hmem : b ∈ bound.filter Grant.isActive := by rw [hbs]; simp
    obtain ⟨p, -, hp⟩ := exists_find_of_mem_bound h (List.mem_of_mem_filter hmem)
    simp [hp] at hfail
  · exact ⟨_, compose_eq_ok_iff.2 ⟨l, hb, rfl⟩⟩

end Binding

/-! ## Precedence -/

/-- A privilege that the root reaches contains another one, both given by name. -/
def Covers (registry : Registry) (n m : String) : Prop :=
  ∃ p q, registry.root.Reaches p ∧ p.name = n ∧ p.Contains q ∧ q.name = m

section Precedence

variable {registry : Registry} (hroot : registry.root.Coherent)

include hroot

/-- A privilege that covers another one is less deep. -/
theorem exists_depth_of_covers {n m : String} (h : Covers registry n m) :
    ∃ i j, registry.depths.get? n = some i ∧ registry.depths.get? m = some j ∧ i < j := by
  obtain ⟨p, q, hp, rfl, hq, rfl⟩ := h
  exact hroot.exists_depth_lt hp hq

/-- An entry is less deep than one whose privileges it covers. -/
theorem not_depthLe_of_covers {e f : Entry} (hf : f.privileges ≠ [])
    (h : ∀ m ∈ f.privileges, ∃ n ∈ e.privileges, Covers registry n m) :
    ¬ depthLe (f.depth registry.depths) (e.depth registry.depths) = true := by
  intro hle
  -- what covers the least deep privilege of `f` is less deep still
  obtain ⟨m, hm, hmin⟩ := List.mem_map.1 (leastDepth_mem (mt List.map_eq_nil_iff.1 hf))
  obtain ⟨n, hn, hcovers⟩ := h m hm
  obtain ⟨i, j, hi, hj, hij⟩ := exists_depth_of_covers hroot hcovers
  have he : depthLe (e.depth registry.depths) (some i) = true :=
    leastDepth_le (List.mem_map.2 ⟨n, hn, hi⟩)
  have hji := depthLe_trans _ _ _ hle he
  rw [Entry.depth, ← hmin, hj] at hji
  have : j ≤ i := by simpa [depthLe] using hji
  omega

end Precedence

/-- **Broad privileges come before the narrow ones that they contain.** Grants that are bound to the
privileges of a registry from definitions amount to entries; of two entries on one side, the one
whose privileges cover all those of the other precedes it. -/
theorem lt_of_covers {root : String} {definitions : List PrivilegeDefinition} {registry : Registry}
    (hregistry : Registry.ofDefinitions root definitions = .ok registry)
    {grants bound : List Grant} (hbound : grants.mapM (bind registry) = .ok bound)
    (principal : Principal) :
    ∃ es, compose principal bound registry.depths = .ok es ∧
      ∀ (i j : Nat) (e f : Entry), es[i]? = some e → es[j]? = some f →
        e.isAllow = f.isAllow →
        (∀ m ∈ f.privileges, ∃ n ∈ e.privileges, Covers registry n m) → i < j := by
  obtain ⟨built, hclosed, hroot, -⟩ := Registry.exists_closed_of_ofDefinitions hregistry
  obtain ⟨es, hes⟩ := exists_compose hbound principal registry.depths
  refine ⟨es, hes, fun i j e f hi hj hside h => ?_⟩
  have hf : f.privileges ≠ [] := privileges_nonempty hes (List.mem_of_getElem? hj)
  have hnot := not_depthLe_of_covers (hclosed.coherent hroot) hf h
  rcases Nat.lt_trichotomy i j with hij | rfl | hji
  · exact hij
  · obtain rfl : e = f := Option.some.inj (hi.symm.trans hj)
    exact absurd (depthLe_refl _) hnot
  · obtain ⟨hlj, rfl⟩ := List.getElem?_eq_some_iff.1 hj
    obtain ⟨hli, rfl⟩ := List.getElem?_eq_some_iff.1 hi
    have hsorted := List.pairwise_iff_getElem.1 (pairwise_depth hes) j i hlj hli hji
    exact absurd (hsorted hside.symm) hnot

/-- Two routes lead to `c`, a short one from the root and a long one through `a` and `b`. -/
def routes : List PrivilegeDefinition :=
  [⟨"all", ["a", "c"], false⟩, ⟨"a", ["b"], false⟩, ⟨"b", ["c"], false⟩, ⟨"c", [], false⟩]

/-- The narrow privilege is granted first, under a restriction. -/
def narrowFirst : List Grant :=
  [{ name := "c", allow := some ⟨[("rep:current", .multiple (some []))], by simp⟩ },
    { name := "a", allow := some .empty }]

theorem lt_of_covers_routes : ∃ registry bound es,
    Registry.ofDefinitions "all" routes = .ok registry ∧
      narrowFirst.mapM (bind registry) = .ok bound ∧
      compose ⟨"u", .user⟩ bound registry.depths = .ok es ∧
      ∃ (i j : Nat) (e f : Entry), es[i]? = some e ∧ es[j]? = some f ∧
        e.privileges = ["a"] ∧ f.privileges = ["c"] ∧ i < j := by
  obtain ⟨es, hes, hlt⟩ := lt_of_covers (show Registry.ofDefinitions "all" routes = .ok _ from rfl)
    (show narrowFirst.mapM (bind _) = .ok _ from rfl) ⟨"u", .user⟩
  refine ⟨_, _, es, rfl, rfl, hes, ?_⟩
  obtain rfl := Except.ok.inj hes
  refine ⟨0, 1, _, _, rfl, rfl, rfl, rfl, hlt 0 1 _ _ rfl rfl rfl fun m hm => ?_⟩
  obtain rfl : m = "c" := List.mem_singleton.1 hm
  exact ⟨"a", List.mem_singleton.2 rfl, _, _, .single (.head _), rfl,
    .tail (.single (.head _)) (.head _), rfl⟩

end Repository

/-! ## Grants from a builder -/

namespace Grants

/-- What allowing and denying privileges one after the other gives. -/
inductive Built : Grants → Prop
  | empty : Built Table.empty
  | allow {gs : Grants} (h : Built gs) (name : String) (restrictions : RestrictionSet) :
      Built (gs.allow name restrictions)
  | deny {gs : Grants} (h : Built gs) (name : String) (restrictions : RestrictionSet) :
      Built (gs.deny name restrictions)

theorem name_entry {gs : Grants} (h : ∀ n g, gs.get? n = some g → g.name = n) (n : String) :
    (gs.entry n).name = n := by
  rw [entry]
  cases hn : gs.get? n with
  | none => rfl
  | some g => exact h n g hn

/-- A builder keeps every grant under its name. -/
theorem Built.name_eq {gs : Grants} (h : gs.Built) : ∀ n g, gs.get? n = some g → g.name = n := by
  induction h with
  | empty =>
    intro n g hg
    cases hg
  | allow _ name _ ih => exact Table.forall_get?_insert ih (name_entry ih name)
  | deny _ name _ ih => exact Table.forall_get?_insert ih (name_entry ih name)

/-- A builder mentions every privilege once. -/
theorem Built.nodup_names {gs : Grants} (h : gs.Built) : (gs.values.map Grant.name).Nodup := by
  have hkeys : gs.values.map Grant.name = gs.rows.map (·.1) := by
    rw [Table.values, List.map_map]
    refine List.map_congr_left fun row hrow => ?_
    exact h.name_eq row.1 row.2 (Table.get?_eq_some_iff.2 hrow)
  rw [hkeys]
  exact gs.nodup

end Grants

/-- **The grants of a builder amount to a block.** -/
theorem Repository.block_compose {registry : Registry} (hregistry : registry.IsBuilt) {gs : Grants}
    (hgs : gs.Built) {bound : List Grant} (hbound : gs.values.mapM (bind registry) = .ok bound)
    {principal : Principal} {es : List Entry}
    (h : compose principal bound registry.depths = .ok es) : AccessList.Block registry es where
  onePrincipal := by
    intro e he f hf
    rw [principal_of_mem_compose h he, principal_of_mem_compose h hf]
  deniesFirst := denies_first h
  byDepth := pairwise_depth h
  distinct := by
    refine nodup_privileges h ?_ fun b hb q hq => ?_
    · rw [map_name_bound hbound]
      exact hgs.nodup_names
    · exact hregistry.name_eq (find_of_mem_bound hbound hb hq)
  registered := by
    intro e he n hn
    obtain ⟨b, hb, q, hq, rfl⟩ := exists_grant_of_mem_privileges h he hn
    have hfind := find_of_mem_bound hbound hb hq
    rw [hregistry.name_eq hfind, Table.contains, Registry.find_eq_ok_iff.1 hfind]
    rfl

end ContentImport
