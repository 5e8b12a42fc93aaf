import ContentImport.Access.Privilege
import Mathlib.Logic.Relation

/-!
# Privileges below a root

* `Privilege.Contains` is transitive containment, `Privilege.Reaches` includes the privilege
  itself.
* A hierarchy is `Coherent` if privileges of one name declare privileges of the same names. In a
  coherent hierarchy no privilege contains one of its own name (`Coherent.name_ne`).
* Following a list of privileges raises depths only (`AtLeast.deepenAll`), raises those of the
  listed ones to the given depth (`atLeast_of_mem`), touches no others than those below them
  (`get?_deepenAll_of_not_below`), and leaves every privilege whose depth it changes less deep than
  those that it declares (`settled_deepenAll`).
* So below the root, what a privilege contains is deeper than the privilege
  (`Coherent.exists_depth_lt`).
-/

namespace ContentImport

namespace Privilege

/-- A privilege declares to contain another one. -/
def Declares (p q : Privilege) : Prop := q ∈ p.aggregates

/-- A privilege contains another one, directly or through others. -/
abbrev Contains : Privilege → Privilege → Prop := Relation.TransGen Declares

/-- A privilege is another one or contains it. -/
abbrev Reaches : Privilege → Privilege → Prop := Relation.ReflTransGen Declares

/-- Induction over a list of privileges with all that they contain. -/
theorem list_induction {motive : List Privilege → Prop} (nil : motive [])
    (cons : ∀ p r, motive p.aggregates → motive r → motive (p :: r)) : ∀ l, motive l
  | [] => nil
  | .mk _ _ aggregates :: r =>
    cons _ r (list_induction nil cons aggregates) (list_induction nil cons r)

theorem sizeOf_lt_of_declares {p q : Privilege} (h : p.Declares q) : sizeOf q < sizeOf p := by
  cases p with
  | mk name isAbstract aggregates =>
    have : sizeOf q < sizeOf aggregates := List.sizeOf_lt_of_mem h
    simp only [mk.sizeOf_spec]
    omega

theorem sizeOf_lt_of_contains {p q : Privilege} (h : p.Contains q) : sizeOf q < sizeOf p := by
  induction h with
  | single h => exact sizeOf_lt_of_declares h
  | tail _ h ih => exact Nat.lt_trans (sizeOf_lt_of_declares h) ih

/-! ## Coherent hierarchies -/

/-- Below a root, privileges of one name declare privileges of the same names. -/
def Coherent (root : Privilege) : Prop :=
  ∀ p q, root.Reaches p → root.Reaches q → p.name = q.name →
    p.aggregates.map name = q.aggregates.map name

variable {root p q : Privilege}

/-- What one of two privileges of the same name contains, the other contains by name. -/
theorem Coherent.exists_contains (h : root.Coherent) (hp : root.Reaches p) (hq : root.Reaches q)
    (hpq : p.name = q.name) {s : Privilege} (hs : p.Contains s) :
    ∃ t, q.Contains t ∧ t.name = s.name := by
  have declared : ∀ {p q s}, root.Reaches p → root.Reaches q → p.name = q.name → p.Declares s →
      ∃ t, q.Declares t ∧ t.name = s.name := by
    intro p q s hp hq hpq hs
    have : s.name ∈ q.aggregates.map name := h p q hp hq hpq ▸ List.mem_map.2 ⟨s, hs, rfl⟩
    exact List.mem_map.1 this
  induction hs with
  | single hs =>
    obtain ⟨t, ht, hname⟩ := declared hp hq hpq hs
    exact ⟨t, .single ht, hname⟩
  | tail hps hs ih =>
    obtain ⟨t, ht, hname⟩ := ih
    obtain ⟨t', ht', hname'⟩ :=
      declared (hp.trans hps.to_reflTransGen) (hq.trans ht.to_reflTransGen) hname.symm hs
    exact ⟨t', ht.tail ht', hname'⟩

/-- **No privilege contains one of its own name.** -/
theorem Coherent.name_ne (h : root.Coherent) (hp : root.Reaches p) (hq : p.Contains q) :
    q.name ≠ p.name := by
  -- otherwise the inner one would contain an even smaller one of the name
  induction hn : sizeOf p using Nat.strongRecOn generalizing p q with
  | ind n ih =>
    subst hn
    intro hname
    have hq' : root.Reaches q := hp.trans hq.to_reflTransGen
    obtain ⟨t, ht, htname⟩ := h.exists_contains hp hq' hname.symm hq
    exact ih _ (sizeOf_lt_of_contains hq) hq' ht rfl htname

end Privilege

/-! ## Depths -/

namespace DepthMap

open Privilege

/-- A name has a depth of at least `i`. -/
def AtLeast (depths : DepthMap) (n : String) (i : Nat) : Prop := ∃ j, depths.get? n = some j ∧ i ≤ j

/-- What a privilege declares is deeper than the privilege. -/
def Settled (depths : DepthMap) (p : Privilege) : Prop :=
  ∀ i, depths.get? p.name = some i → ∀ q ∈ p.aggregates, depths.AtLeast q.name (i + 1)

theorem deepen_eq (d : Nat) (depths : DepthMap) (p : Privilege) :
    deepen d depths p = deepenAll (d + 1) depths p.aggregates := by
  cases p
  rfl

theorem deepenAll_cons (d : Nat) (depths : DepthMap) (p : Privilege) (r : List Privilege) :
    deepenAll d depths (p :: r) =
      if (depths.get? p.name).all (· < d) then
        deepenAll d (deepenAll (d + 1) (depths.insert p.name d) p.aggregates) r
      else deepenAll d depths r := by
  rw [deepenAll, deepen_eq]

/-- A name that is not followed already lies as deep. -/
theorem atLeast_of_not_all {depths : DepthMap} {n : String} {d : Nat}
    (h : ¬ (depths.get? n).all (· < d) = true) : depths.AtLeast n d := by
  cases hn : depths.get? n with
  | none => simp [hn] at h
  | some j =>
    refine ⟨j, hn, ?_⟩
    simpa [hn] using h

theorem AtLeast.insert {depths : DepthMap} {n m : String} {i d : Nat} (h : depths.AtLeast n i)
    (hm : (depths.get? m).all (· < d) = true) : AtLeast (depths.insert m d) n i := by
  obtain ⟨j, hj, hij⟩ := h
  by_cases hmn : m = n
  · subst hmn
    have : j < d := by simpa [hj] using hm
    exact ⟨d, by rw [Table.get?_insert, if_pos rfl], by omega⟩
  · exact ⟨j, by rw [Table.get?_insert, if_neg hmn, hj], hij⟩

/-- Following privileges lets no depth fall. -/
theorem AtLeast.deepenAll {n : String} {i : Nat} (l : List Privilege) {d : Nat} {depths : DepthMap}
    (h : depths.AtLeast n i) : AtLeast (deepenAll d depths l) n i := by
  induction l using list_induction generalizing d depths with
  | nil => rwa [DepthMap.deepenAll]
  | cons p r ihp ihr =>
    rw [deepenAll_cons]
    split
    · next hp => exact ihr (ihp (h.insert hp))
    · exact ihr h

/-- The followed privileges come to lie at the depth, or deeper. -/
theorem atLeast_of_mem {l : List Privilege} {d : Nat} {depths : DepthMap} {p : Privilege}
    (h : p ∈ l) : AtLeast (deepenAll d depths l) p.name d := by
  induction l generalizing depths with
  | nil => cases h
  | cons q r ih =>
    rw [deepenAll_cons]
    rcases List.mem_cons.1 h with rfl | h
    · split
      · refine AtLeast.deepenAll r (AtLeast.deepenAll _ ⟨d, ?_, Nat.le_refl d⟩)
        rw [Table.get?_insert, if_pos rfl]
      · next hp => exact AtLeast.deepenAll r (atLeast_of_not_all hp)
    · split
      · exact ih h
      · exact ih h

/-- A name that is none of those below the followed privileges keeps its depth. -/
theorem get?_deepenAll_of_not_below {n : String} (l : List Privilege) {d : Nat} {depths : DepthMap}
    (h : ∀ p ∈ l, ∀ q, p.Reaches q → q.name ≠ n) :
    (deepenAll d depths l).get? n = depths.get? n := by
  induction l using list_induction generalizing d depths with
  | nil => rw [deepenAll]
  | cons p r ihp ihr =>
    obtain ⟨hp, hr⟩ := List.forall_mem_cons.1 h
    have hbelow : ∀ q ∈ p.aggregates, ∀ s, q.Reaches s → s.name ≠ n := fun q hq s hs =>
      hp s (.head hq hs)
    rw [deepenAll_cons]
    split
    · rw [ihr hr, ihp hbelow, Table.get?_insert, if_neg (hp p .refl)]
    · exact ihr hr

/-- A privilege stays settled if its own depth does. -/
theorem Settled.of_atLeast {depths depths' : DepthMap} {p : Privilege} (h : depths.Settled p)
    (hp : depths'.get? p.name = depths.get? p.name)
    (hmono : ∀ n i, depths.AtLeast n i → depths'.AtLeast n i) : depths'.Settled p :=
  fun i hi q hq => hmono _ _ (h i (hp ▸ hi) q hq)

/-- In a coherent hierarchy, privileges of one name are settled together. -/
theorem Settled.of_name_eq {root p q : Privilege} (hroot : root.Coherent) (hp : root.Reaches p)
    (hq : root.Reaches q) (hpq : p.name = q.name) {depths : DepthMap} (h : depths.Settled p) :
    depths.Settled q := by
  intro i hi s hs
  have : s.name ∈ p.aggregates.map name := hroot p q hp hq hpq ▸ List.mem_map.2 ⟨s, hs, rfl⟩
  obtain ⟨t, ht, hname⟩ := List.mem_map.1 this
  exact hname ▸ h i (hpq ▸ hi) t ht

/-- A privilege is settled once what it declares is followed one deeper. -/
theorem settled_of_followed {root p : Privilege} (hroot : root.Coherent) (hp : root.Reaches p)
    {d : Nat} {depths : DepthMap} (hd : depths.get? p.name = some d) :
    Settled (deepenAll (d + 1) depths p.aggregates) p ∧
      (deepenAll (d + 1) depths p.aggregates).get? p.name = some d := by
  have hown : (deepenAll (d + 1) depths p.aggregates).get? p.name = some d := by
    rw [get?_deepenAll_of_not_below _ fun q hq s hs => ?_, hd]
    exact hroot.name_ne hp (.head' hq hs)
  refine ⟨fun i hi q hq => ?_, hown⟩
  obtain rfl : d = i := Option.some.inj (hown.symm.trans hi)
  exact atLeast_of_mem hq

/-- **Following privileges leaves every privilege settled whose depth it changes.** -/
theorem settled_deepenAll {root : Privilege} (hroot : root.Coherent) (l : List Privilege) {d : Nat}
    {depths : DepthMap} (hl : ∀ p ∈ l, root.Reaches p) {q : Privilege} (hq : root.Reaches q)
    (hchange : (deepenAll d depths l).get? q.name ≠ depths.get? q.name) :
    Settled (deepenAll d depths l) q := by
  induction l using list_induction generalizing d depths with
  | nil => exact absurd (by rw [deepenAll]) hchange
  | cons p r ihp ihr =>
    obtain ⟨hp, hr⟩ := List.forall_mem_cons.1 hl
    rw [deepenAll_cons] at hchange ⊢
    split at hchange
    · next hfollow =>
      rw [if_pos hfollow]
      generalize hinserted : depths.insert p.name d = inserted at hchange ⊢
      generalize hbelow : deepenAll (d + 1) inserted p.aggregates = below at hchange ⊢
      by_cases hlast : (deepenAll d below r).get? q.name = below.get? q.name
      · -- the depth was changed by `p` or by what it contains
        refine Settled.of_atLeast ?_ hlast fun n i h => AtLeast.deepenAll r h
        by_cases hpq : p.name = q.name
        · have hd : inserted.get? p.name = some d := by
            rw [← hinserted, Table.get?_insert, if_pos rfl]
          exact (hbelow ▸ (settled_of_followed hroot hp hd).1).of_name_eq hroot hp hq hpq
        · have hkeep : inserted.get? q.name = depths.get? q.name := by
            rw [← hinserted, Table.get?_insert, if_neg hpq]
          have hpart : ∀ s ∈ p.aggregates, root.Reaches s := fun s hs => hp.tail hs
          rw [← hbelow]
          refine ihp hpart ?_
          rw [hbelow, ← hlast, hkeep]
          exact hchange
      · exact ihr hr hlast
    · next hskip =>
      rw [if_neg hskip]
      exact ihr hr hchange

end DepthMap

namespace Privilege

open DepthMap

variable {root p q : Privilege}

theorem build_eq (root : Privilege) :
    DepthMap.build root = deepenAll 2 (Table.empty.insert root.name 1) root.aggregates := by
  rw [build, deepen_eq]

/-- Every privilege of a coherent hierarchy has a depth and is settled. -/
theorem Coherent.exists_depth (hroot : root.Coherent) (hp : root.Reaches p) :
    (∃ i, (build root).get? p.name = some i) ∧ (build root).Settled p := by
  have hone : (Table.empty.insert root.name 1 : DepthMap).get? root.name = some 1 := by
    rw [Table.get?_insert, if_pos rfl]
  obtain ⟨hsettled, hdepth⟩ := settled_of_followed hroot .refl hone
  rw [build_eq]
  induction hp with
  | refl => exact ⟨⟨1, hdepth⟩, hsettled⟩
  | tail hp hpq ih =>
    rename_i p q
    obtain ⟨⟨i, hi⟩, hs⟩ := ih
    obtain ⟨j, hj, -⟩ := hs i hi q hpq
    have hq : root.Reaches q := hp.tail hpq
    refine ⟨⟨j, hj⟩, ?_⟩
    by_cases hname : root.name = q.name
    · exact hsettled.of_name_eq hroot .refl hq hname
    · refine settled_deepenAll hroot _ (fun s hs => .single hs) hq ?_
      rw [hj, Table.get?_insert, if_neg hname]
      simp

/-- **What a privilege contains is deeper than the privilege.** -/
theorem Coherent.exists_depth_lt (hroot : root.Coherent) (hp : root.Reaches p)
    (hq : p.Contains q) :
    ∃ i j, (build root).get? p.name = some i ∧ (build root).get? q.name = some j ∧ i < j := by
  obtain ⟨⟨i, hi⟩, hs⟩ := hroot.exists_depth hp
  induction hq with
  | single hq =>
    obtain ⟨j, hj, hij⟩ := hs i hi _ hq
    exact ⟨i, j, hi, hj, hij⟩
  | tail hq hqs ih =>
    obtain ⟨i, j, hi, hj, hij⟩ := ih
    obtain ⟨k, hk, hjk⟩ := (hroot.exists_depth (hp.trans hq.to_reflTransGen)).2 j hj _ hqs
    exact ⟨i, k, hi, hk, by omega⟩

end Privilege

end ContentImport
