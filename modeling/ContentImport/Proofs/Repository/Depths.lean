import ContentImport.Proofs.Repository.Registry
import Mathlib.Order.Bounds.Defs

/-!
# The depths of privileges

The depth of a privilege is a matter of the chains by which it is reached from the root, each of
whose steps goes from an aggregate to one of the privileges that it declares.

* Following privileges gives no depth for which there is no chain (`isReached_build`), and in a
  coherent hierarchy it leaves no chain out of account (`Coherent.atLeast_of_isChain`).
* So the depth of a privilege is one more than the length of the longest chain
  (`Coherent.exists_longest`). In particular it does not depend on the order in which privileges
  are declared.
* What definitions give is a coherent hierarchy, even if they repeat a name
  (`depths_eq_longest`).
-/

namespace ContentImport

namespace Privilege

/-! ## Chains -/

/-- A chain of so many steps leads from the root to a privilege. -/
inductive IsChain (root : Privilege) : Nat → Privilege → Prop
  | refl : IsChain root 0 root
  | tail {k : Nat} {p q : Privilege} (h : IsChain root k p) (hq : p.Declares q) :
      IsChain root (k + 1) q

/-- The lengths of the chains that lead from the root to a privilege of a name. -/
def chainLengths (root : Privilege) (n : String) : Set Nat :=
  {k | ∃ p, p.name = n ∧ IsChain root k p}

theorem IsChain.reaches {root p : Privilege} {k : Nat} (h : IsChain root k p) :
    root.Reaches p := by
  induction h with
  | refl => exact .refl
  | tail _ hq ih => exact ih.tail hq

end Privilege

namespace DepthMap

open Privilege

variable {root : Privilege}

/-! ## Depths that are reached -/

/-- Every depth is one more than the length of a chain. -/
def IsReached (root : Privilege) (depths : DepthMap) : Prop :=
  ∀ n d, depths.get? n = some d → ∃ k ∈ root.chainLengths n, d = k + 1

theorem IsReached.insert {depths : DepthMap} (h : depths.IsReached root) {k : Nat} {p : Privilege}
    (hp : IsChain root k p) : IsReached root (depths.insert p.name (k + 1)) := by
  intro n d hd
  rw [Table.get?_insert] at hd
  split at hd
  · next hn => exact ⟨k, ⟨p, hn, hp⟩, (Option.some.inj hd).symm⟩
  · exact h n d hd

/-- Following privileges at the ends of chains goes on along these chains. -/
theorem IsReached.deepenAll (l : List Privilege) {k : Nat} {depths : DepthMap}
    (h : depths.IsReached root) (hl : ∀ p ∈ l, IsChain root k p) :
    IsReached root (deepenAll (k + 1) depths l) := by
  induction l using list_induction generalizing k depths with
  | nil => rwa [DepthMap.deepenAll]
  | cons p r ihp ihr =>
    obtain ⟨hp, hr⟩ := List.forall_mem_cons.1 hl
    rw [deepenAll_cons]
    split
    · have hbelow : IsReached root
          (DepthMap.deepenAll (k + 1 + 1) (depths.insert p.name (k + 1)) p.aggregates) :=
        ihp (h.insert hp) fun q hq => hp.tail hq
      exact ihr hbelow hr
    · exact ihr h hr

theorem isReached_build (root : Privilege) : (build root).IsReached root := by
  have hempty : IsReached root Table.empty := by
    intro n d hd
    cases hd
  have hroot : IsReached root (Table.empty.insert root.name 1) := hempty.insert .refl
  rw [build_eq]
  exact hroot.deepenAll _ fun q hq => IsChain.refl.tail hq

end DepthMap

namespace Privilege

open DepthMap

variable {root p q : Privilege} {k : Nat}

/-! ## Longest chains -/

/-- A privilege lies deeper than any chain to it is long. -/
theorem Coherent.atLeast_of_isChain (hroot : root.Coherent) (h : IsChain root k p) :
    (build root).AtLeast p.name (k + 1) := by
  induction h with
  | refl =>
    obtain ⟨⟨d, hd⟩, -⟩ := hroot.exists_depth .refl
    obtain ⟨j, -, rfl⟩ := isReached_build root _ d hd
    exact ⟨j + 1, hd, by omega⟩
  | tail h hq ih =>
    obtain ⟨i, hi, hk⟩ := ih
    obtain ⟨-, hsettled⟩ := hroot.exists_depth h.reaches
    obtain ⟨j, hj, hij⟩ := hsettled i hi _ hq
    exact ⟨j, hj, by omega⟩

/-- **The depth of a privilege is one more than the length of the longest chain to it.** -/
theorem Coherent.exists_longest (hroot : root.Coherent) (hp : root.Reaches p) :
    ∃ k, (build root).get? p.name = some (k + 1) ∧ IsGreatest (root.chainLengths p.name) k := by
  obtain ⟨⟨d, hd⟩, -⟩ := hroot.exists_depth hp
  obtain ⟨k, hk, rfl⟩ := isReached_build root _ d hd
  refine ⟨k, hd, hk, ?_⟩
  rintro l ⟨q, hname, hchain⟩
  obtain ⟨i, hi, hl⟩ := hroot.atLeast_of_isChain hchain
  rw [hname, hd] at hi
  obtain rfl := Option.some.inj hi
  omega

/-- The depths of a coherent hierarchy are those of its longest chains. -/
theorem Coherent.get?_build_eq_some_iff (hroot : root.Coherent) {n : String} {d : Nat} :
    (build root).get? n = some d ↔ ∃ k, d = k + 1 ∧ IsGreatest (root.chainLengths n) k := by
  constructor
  · intro hd
    obtain ⟨k, ⟨p, rfl, hchain⟩, -⟩ := isReached_build root n d hd
    obtain ⟨l, hl, hgreatest⟩ := hroot.exists_longest hchain.reaches
    exact ⟨l, Option.some.inj (hd.symm.trans hl), hgreatest⟩
  · rintro ⟨k, rfl, hgreatest⟩
    obtain ⟨p, rfl, hchain⟩ := hgreatest.1
    obtain ⟨l, hl, hgreatest'⟩ := hroot.exists_longest hchain.reaches
    have hlk : l = k :=
      Nat.le_antisymm (hgreatest.2 hgreatest'.1) (hgreatest'.2 hgreatest.1)
    rw [hl, hlk]

/-- Just what the root reaches has a depth. -/
theorem Coherent.contains_build_iff (hroot : root.Coherent) (n : String) :
    (build root).contains n = true ↔ ∃ p, root.Reaches p ∧ p.name = n := by
  constructor
  · intro h
    obtain ⟨d, hd⟩ := Option.isSome_iff_exists.1 h
    obtain ⟨k, ⟨p, hname, hchain⟩, -⟩ := isReached_build root n d hd
    exact ⟨p, hchain.reaches, hname⟩
  · rintro ⟨p, hp, rfl⟩
    obtain ⟨⟨d, hd⟩, -⟩ := hroot.exists_depth hp
    exact Option.isSome_iff_exists.2 ⟨d, hd⟩

end Privilege

namespace Registry

open Privilege

theorem coherent_of_ofDefinitions {root : String} {definitions : List PrivilegeDefinition}
    {r : Registry} (h : ofDefinitions root definitions = .ok r) : r.root.Coherent := by
  obtain ⟨built, hclosed, hroot, -⟩ := exists_closed_of_ofDefinitions h
  exact hclosed.coherent hroot

/-- **The depths below a root are the lengths of the longest chains from it.** Just the privileges
that the root reaches have a depth, one more than the length of the longest chain to them, and so
less than the depths of the privileges that they declare. It takes a coherent hierarchy, which
definitions always give. -/
theorem depths_eq_longest :
    (∀ (root : String) (definitions : List PrivilegeDefinition) (r : Registry),
      ofDefinitions root definitions = .ok r → r.root.Coherent) ∧
    ∀ root : Privilege, root.Coherent →
      (∀ n, (DepthMap.build root).contains n = true ↔ ∃ p, root.Reaches p ∧ p.name = n) ∧
      (∀ p, root.Reaches p → ∃ k, (DepthMap.build root).get? p.name = some (k + 1) ∧
        IsGreatest (root.chainLengths p.name) k) ∧
      ∀ p q, root.Reaches p → p.Declares q → ∃ i j, (DepthMap.build root).get? p.name = some i ∧
        (DepthMap.build root).get? q.name = some j ∧ i < j := by
  refine ⟨fun _ _ _ => coherent_of_ofDefinitions, fun root hroot => ⟨?_, ?_, ?_⟩⟩
  · exact hroot.contains_build_iff
  · exact fun p hp => hroot.exists_longest hp
  · exact fun p q hp hq => hroot.exists_depth_lt hp (.single hq)

/-- Definitions that lead to a part on two ways, the shorter one first, and repeat a name. -/
def routedDefinitions : List PrivilegeDefinition :=
  [ { name := "all", aggregates := ["read", "write"] }, { name := "write", aggregates := ["read"] },
    { name := "read" }, { name := "read", aggregates := ["list"] }, { name := "list" } ]

theorem depths_eq_longest_routed :
    ∃ r, ofDefinitions "all" routedDefinitions = .ok r ∧ r.root.Coherent ∧
      r.depths.get? "list" = some 4 ∧ IsGreatest (r.root.chainLengths "list") 3 := by
  obtain ⟨hcoherent, hlongest⟩ := depths_eq_longest
  refine ⟨_, rfl, hcoherent "all" routedDefinitions _ rfl, by decide +kernel, ?_⟩
  obtain ⟨hreached, hdepth, -⟩ := hlongest _ (hcoherent "all" routedDefinitions _ rfl)
  obtain ⟨p, hp, hname⟩ := (hreached "list").1 (by decide +kernel)
  obtain ⟨k, hk, hgreatest⟩ := hdepth p hp
  rw [hname] at hk hgreatest
  have hfour : some (k + 1) = some 4 := hk.symm.trans (by decide +kernel)
  obtain rfl : k = 3 := by simpa using hfour
  exact hgreatest

end Registry

end ContentImport
