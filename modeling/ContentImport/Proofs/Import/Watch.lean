import ContentImport.Proofs.Import.Closing

/-!
# What closing nodes comes to for references

Closing nodes one after the other turns the watch of a property into another one
(`Watch.close`). Here is what it comes to for the two ways in which references wait.

* A single reference waits once for one node (`Watch.awaiting`), and is written when the node is
  closed (`property_foldl_close_awaiting`).
* A list waits for each missing node as often as it leads to it, and holds stand-ins in the meantime
  (`Watch.settling`). Closing a node replaces its stand-ins by the identifier. The list no longer
  waits with stand-ins once no node is missing, but if the node that was closed last stands in the
  list more than once, the property is written more than once, and the last time as a single
  reference (`property_foldl_close_settling`).
-/

namespace ContentImport.Import

/-! ## Single references -/

/-- What closing a node comes to that a property does not wait for. -/
theorem Watch.close_eq_self {w : Watch} {c : String × String} (h : w.waits c.1 = 0) :
    w.close c = w := by
  have hwaits : (fun q => if q = c.1 then 0 else w.waits q) = w.waits := by
    funext q
    split
    · next hq => rw [hq, h]
    · rfl
  rw [Watch.close, h, hwaits]
  rfl

theorem Watch.foldl_close_eq_self {w : Watch} {closings : List (String × String)}
    (h : ∀ q, w.waits q = 0) : closings.foldl Watch.close w = w := by
  induction closings with
  | nil => rfl
  | cons c closings ih => rw [List.foldl_cons, Watch.close_eq_self (h c.1), ih]

/-- A property that is written and waits for nothing. -/
def Watch.written (property : Property) : Watch where
  view := ⟨some property, none⟩
  waits := fun _ => 0

/-- A property that waits for one node to be set to a reference. -/
def Watch.awaiting (path : String) : Watch where
  view := ⟨none, none⟩
  waits := fun q => if q = path then 1 else 0

/-- A property that waits for one node is set when the node is closed. -/
theorem property_foldl_close_awaiting (path : String) (ids : String → String)
    {closings : List (String × String)} (hids : ∀ c ∈ closings, c.2 = ids c.1) :
    (closings.foldl Watch.close (.awaiting path)).view.property =
      if path ∈ closings.map Prod.fst then some (.single (.reference (ids path))) else none := by
  induction closings with
  | nil => rfl
  | cons c closings ih =>
    rw [List.foldl_cons, List.map_cons]
    by_cases hc : c.1 = path
    · have hclosed : (Watch.awaiting path).close c =
          .written (.single (.reference c.2)) := by
        have hwaits : (fun q => if q = c.1 then 0 else (Watch.awaiting path).waits q) =
            fun _ => 0 := by
          funext q
          rw [Watch.awaiting, hc]
          dsimp only
          split <;> rfl
        rw [Watch.close, hwaits]
        simp [Watch.awaiting, Watch.written, hc, View.settle]
      rw [hclosed, Watch.foldl_close_eq_self fun _ => rfl, hids c List.mem_cons_self, hc,
        if_pos List.mem_cons_self]
      rfl
    · have hopen : (Watch.awaiting path).close c = .awaiting path := Watch.close_eq_self (if_neg hc)
      rw [hopen, ih fun c hc => hids c (List.mem_cons_of_mem _ hc)]
      simp only [List.mem_cons, Ne.symm hc, false_or]

/-! ## Lists of references -/

/-- The stand-ins of targets some of which are left to be closed. -/
def standIns (targets : List String) (ids : String → String) (left : List String) : List String :=
  targets.map fun q => if q ∈ left then q else ids q

/-- A list of references that waits for the targets that are left. -/
def Watch.settling (targets : List String) (ids : String → String) (left : List String) :
    Watch where
  view := .ofStandIns (standIns targets ids left)
  waits := fun q => if q ∈ left then targets.count q else 0

/-- The element of a list that is passed when all others have been passed before. -/
def lastPassed (left : List String) : List String → Option String
  | [] => none
  | q :: passed =>
    if left ≠ [] ∧ ∀ p ∈ left, p = q then some q else lastPassed (left.filter (· ≠ q)) passed

theorem mem_of_lastPassed {left passed : List String} {q : String}
    (h : lastPassed left passed = some q) : q ∈ passed := by
  induction passed generalizing left with
  | nil => cases h
  | cons p passed ih =>
    rw [lastPassed] at h
    split at h
    · exact Option.some.inj h ▸ List.mem_cons_self
    · exact List.mem_cons_of_mem _ (ih h)

/-- The list of the references to targets that are not left. -/
def resolved (targets : List String) (ids : String → String) (left : List String) : Property :=
  .multiple .reference ((targets.filter (· ∉ left)).map fun q => .reference (ids q))

section List

variable {targets left : List String} {ids : String → String} {q : String}
  (htargets : ∀ q ∈ targets, Text.startsWith "/" q = true)
  (hids : ∀ q ∈ targets, Text.startsWith "/" (ids q) = false)

section Settle

include hids

/-- Closing a node replaces its stand-ins. -/
theorem settle_standIns (hq : Text.startsWith "/" q = true) (left : List String) :
    Import.settle q (ids q) (standIns targets ids left) =
      standIns targets ids (left.filter (· ≠ q)) := by
  rw [Import.settle, standIns, standIns, List.map_map]
  refine List.map_congr_left fun t ht => ?_
  have hid : ids t ≠ q := by
    rintro rfl
    rw [hids t ht] at hq
    cases hq
  by_cases htq : t = q
  · subst htq
    by_cases hleft : t ∈ left <;> simp [hleft, hid]
  · by_cases hleft : t ∈ left <;> simp [hleft, htq, hid]

end Settle

include htargets hids

theorem identifiers_standIns (left : List String) :
    identifiers (standIns targets ids left) = (targets.filter (· ∉ left)).map ids := by
  induction targets with
  | nil => rfl
  | cons t targets ih =>
    have hrest := ih (fun q hq => htargets q (List.mem_cons_of_mem _ hq))
      fun q hq => hids q (List.mem_cons_of_mem _ hq)
    have hcons : standIns (t :: targets) ids left =
        (if t ∈ left then t else ids t) :: standIns targets ids left := rfl
    rw [identifiers] at hrest ⊢
    rw [hcons, List.filter_cons, hrest, List.filter_cons]
    by_cases ht : t ∈ left
    · simp [ht, htargets t List.mem_cons_self]
    · simp [ht, hids t List.mem_cons_self]

theorem property_ofStandIns (left : List String) :
    (View.ofStandIns (standIns targets ids left)).property = some (resolved targets ids left) := by
  rw [View.ofStandIns, identifiers_standIns htargets hids, List.map_map, resolved]
  rfl

/-- The list waits with stand-ins while a target is left. -/
theorem pending_ofStandIns (hleft : ∃ p ∈ left, p ∈ targets) :
    (View.ofStandIns (standIns targets ids left)).pending = some (standIns targets ids left) := by
  obtain ⟨p, hp, htarget⟩ := hleft
  have hlt : (targets.filter (· ∉ left)).length < targets.length :=
    List.length_filter_lt_length_iff_exists.2 ⟨p, htarget, by simpa using hp⟩
  rw [View.ofStandIns, identifiers_standIns htargets hids]
  refine if_neg ?_
  rw [List.length_map, standIns, List.length_map]
  omega

theorem pending_ofStandIns_nil :
    (View.ofStandIns (standIns targets ids [])).pending = none := by
  rw [View.ofStandIns, identifiers_standIns htargets hids]
  refine if_pos ?_
  simp [standIns]

theorem settle_ofStandIns (hleft : ∃ p ∈ left, p ∈ targets) (hq : Text.startsWith "/" q = true) :
    View.settle q (ids q) (.ofStandIns (standIns targets ids left)) =
      .ofStandIns (standIns targets ids (left.filter (· ≠ q))) := by
  rw [View.settle, pending_ofStandIns htargets hids hleft]
  dsimp only
  rw [settle_standIns hids hq]

/-- The property is written once for each time that it waits. Once no target is left, writing it
again makes it a single reference. -/
theorem iterate_settle_ofStandIns (hleft : ∀ p ∈ left, p ∈ targets) (hq : q ∈ left) (n : Nat) :
    (View.settle q (ids q))^[n + 1] (.ofStandIns (standIns targets ids left)) =
      if n ≠ 0 ∧ ∀ p ∈ left, p = q then ⟨some (.single (.reference (ids q))), none⟩
      else .ofStandIns (standIns targets ids (left.filter (· ≠ q))) := by
  have hslash := htargets q (hleft q hq)
  rw [Function.iterate_succ_apply,
    settle_ofStandIns htargets hids ⟨q, hq, hleft q hq⟩ hslash]
  by_cases hall : ∀ p ∈ left, p = q
  · have hnil : left.filter (· ≠ q) = [] := List.filter_eq_nil_iff.2 (by simpa using hall)
    rw [hnil]
    cases n with
    | zero => rfl
    | succ n =>
      have hwritten : View.settle q (ids q) (.ofStandIns (standIns targets ids [])) =
          ⟨some (.single (.reference (ids q))), none⟩ := by
        rw [View.settle, pending_ofStandIns_nil htargets hids]
      rw [Function.iterate_succ_apply, hwritten, Function.iterate_fixed rfl,
        if_pos ⟨Nat.succ_ne_zero n, hall⟩]
  · rw [if_neg fun h => hall h.2]
    obtain ⟨p, hp, hpq⟩ : ∃ p ∈ left, p ≠ q := by simpa using hall
    refine Function.iterate_fixed ?_ n
    rw [settle_ofStandIns htargets hids ⟨p, by simp [hp, hpq], hleft p hp⟩ hslash,
      List.filter_filter]
    simp

/-- Closing a node leaves the other targets, as long as there are any. -/
theorem close_settling (hleft : ∀ p ∈ left, p ∈ targets)
    (hlast : ¬(left ≠ [] ∧ ∀ p ∈ left, p = q)) :
    (Watch.settling targets ids left).close (q, ids q) =
      .settling targets ids (left.filter (· ≠ q)) := by
  by_cases hq : q ∈ left
  · obtain ⟨n, hn⟩ := Nat.exists_eq_add_of_lt (List.count_pos_iff.2 (hleft q hq))
    rw [Nat.zero_add] at hn
    have hall : ¬(n ≠ 0 ∧ ∀ p ∈ left, p = q) := fun h =>
      hlast ⟨List.ne_nil_of_mem hq, h.2⟩
    have hview := iterate_settle_ofStandIns htargets hids hleft hq n
    rw [if_neg hall] at hview
    have hwaits : (fun p => if p = q then 0 else if p ∈ left then targets.count p else 0) =
        fun p => if p ∈ left.filter (· ≠ q) then targets.count p else 0 := by
      funext p
      by_cases hp : p = q <;> simp [hp]
    rw [Watch.close, Watch.settling, Watch.settling]
    dsimp only
    rw [if_pos hq, hn, hview, hwaits]
  · have hsame : left.filter (· ≠ q) = left :=
      List.filter_eq_self.2 fun p hp => by simpa using fun heq : p = q => hq (heq ▸ hp)
    rw [hsame]
    exact Watch.close_eq_self (if_neg hq)

/-- Closing the last target makes the list a single reference if the target stands in it more than
once. -/
theorem close_settling_of_last (hleft : ∀ p ∈ left, p ∈ targets) (hne : left ≠ [])
    (hall : ∀ p ∈ left, p = q) :
    (Watch.settling targets ids left).close (q, ids q) =
      if 1 < targets.count q then .written (.single (.reference (ids q)))
      else .settling targets ids [] := by
  obtain ⟨p, hp⟩ := List.exists_mem_of_ne_nil left hne
  obtain rfl := hall p hp
  obtain ⟨n, hn⟩ := Nat.exists_eq_add_of_lt (List.count_pos_iff.2 (hleft p hp))
  rw [Nat.zero_add] at hn
  have hnil : left.filter (· ≠ p) = [] := List.filter_eq_nil_iff.2 (by simpa using hall)
  have hwaits : (fun q => if q = p then 0 else if q ∈ left then targets.count q else 0) =
      fun _ => 0 := by
    funext q
    by_cases hq : q = p
    · rw [if_pos hq]
    · rw [if_neg hq, if_neg fun hmem => hq (hall q hmem)]
  rw [Watch.close, Watch.settling]
  dsimp only
  rw [if_pos hp, hn, iterate_settle_ofStandIns htargets hids hleft hp n, hwaits, hnil]
  by_cases hzero : n = 0
  · rw [if_neg fun h => h.1 hzero, if_neg (by omega)]
    rfl
  · rw [if_pos ⟨hzero, hall⟩, if_pos (by omega)]
    rfl

/-- **A list of references holds the identifiers of the targets that are closed,** in the order and
as often as the list leads to them; but if the target that is closed last stands in the list more
than once, the property becomes a single reference to it. -/
theorem property_foldl_close_settling {closings : List (String × String)}
    (hclosings : ∀ c ∈ closings, c.2 = ids c.1) (hleft : ∀ p ∈ left, p ∈ targets) :
    (closings.foldl Watch.close (.settling targets ids left)).view.property =
      some (match (lastPassed left (closings.map Prod.fst)).filter (1 < targets.count ·) with
        | some q => .single (.reference (ids q))
        | none => resolved targets ids (left.filter (· ∉ closings.map Prod.fst))) := by
  induction closings generalizing left with
  | nil =>
    rw [List.foldl_nil, Watch.settling, property_ofStandIns htargets hids]
    simp [lastPassed]
  | cons c closings ih =>
    obtain ⟨q, id⟩ := c
    obtain rfl : id = ids q := hclosings _ List.mem_cons_self
    have hrest : ∀ d ∈ closings, d.2 = ids d.1 := fun d hd =>
      hclosings d (List.mem_cons_of_mem _ hd)
    rw [List.foldl_cons, List.map_cons, lastPassed]
    by_cases hlast : left ≠ [] ∧ ∀ p ∈ left, p = q
    · have hnone : left.filter (· ∉ q :: closings.map Prod.fst) = [] := by
        refine List.filter_eq_nil_iff.2 fun p hp => ?_
        simp [hlast.2 p hp]
      rw [if_pos hlast, close_settling_of_last htargets hids hleft hlast.1 hlast.2,
        Option.filter_some, hnone]
      by_cases htwice : 1 < targets.count q
      · rw [if_pos htwice, if_pos (by simpa using htwice), Watch.foldl_close_eq_self fun _ => rfl]
        rfl
      · rw [if_neg htwice, if_neg (by simpa using htwice),
          Watch.foldl_close_eq_self fun _ => by simp [Watch.settling]]
        exact property_ofStandIns htargets hids []
    · have hfilter : (left.filter (· ≠ q)).filter (· ∉ closings.map Prod.fst) =
          left.filter (· ∉ q :: closings.map Prod.fst) := by
        rw [List.filter_filter]
        refine List.filter_congr fun p _ => Bool.eq_iff_iff.2 ?_
        simp [and_comm]
      rw [if_neg hlast, close_settling htargets hids hleft hlast,
        ih hrest fun p hp => hleft p (List.mem_filter.1 hp).1, hfilter]

end List

end ContentImport.Import
