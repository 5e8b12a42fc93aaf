import ContentImport.Json.Raw
import Mathlib.Data.List.Basic

/-!
# Members of objects

* In a value that was read from a text each object has every name once
  (`hasDistinctNames_of_parse?`), since a member that comes again takes the place of the first.
* `Reordered` says that two values are the same but for the order of the members of objects.
* Putting rows with new keys behind others leaves both in order (`foldl_put_of_nodup`).
-/

namespace ContentImport

namespace Table

variable {α : Type}

theorem put_of_notMem {k : String} {a : α} {rows : List (String × α)} (h : k ∉ rows.map (·.1)) :
    put k a rows = rows ++ [(k, a)] := by
  induction rows with
  | nil => rfl
  | cons row rows ih =>
    rw [List.map_cons, List.mem_cons, not_or] at h
    rw [put, if_neg fun heq => h.1 heq.symm, ih h.2, List.cons_append]

theorem foldl_put_of_nodup {rows new : List (String × α)}
    (h : ((rows ++ new).map (·.1)).Nodup) :
    new.foldl (fun rows row => put row.1 row.2 rows) rows = rows ++ new := by
  induction new generalizing rows with
  | nil => rw [List.foldl_nil, List.append_nil]
  | cons row new ih =>
    rw [List.append_cons] at h
    have hrow : row.1 ∉ rows.map (·.1) := by
      rw [List.map_append, List.map_append, List.nodup_append] at h
      intro hmem
      exact (List.nodup_append.1 h.1).2.2 _ hmem _ (List.mem_singleton_self _) rfl
    rw [List.foldl_cons, put_of_notMem hrow, ih h, ← List.append_cons]

theorem filter_key {rows : List (String × α)} (h : (rows.map (·.1)).Nodup) (k : String) :
    rows.filter (·.1 == k) = ((lookup k rows).map (k, ·)).toList := by
  induction rows with
  | nil => rfl
  | cons row rows ih =>
    obtain ⟨j, a⟩ := row
    obtain ⟨hj, hrows⟩ := List.nodup_cons.1 h
    by_cases hjk : j = k
    · have hnone : lookup k rows = none := lookup_eq_none_iff.2 (hjk ▸ hj)
      simp [lookup, hjk, ih hrows, hnone]
    · simp [lookup, hjk, ih hrows]

end Table

namespace Json

/-! ## Distinct names -/

/-- Every object has each of its names once. -/
inductive HasDistinctNames : Json → Prop
  | null : HasDistinctNames .null
  | bool (b : Bool) : HasDistinctNames (.bool b)
  | number (n : Number) : HasDistinctNames (.number n)
  | string (s : String) : HasDistinctNames (.string s)
  | array {items : List Json} (items_distinct : ∀ item ∈ items, HasDistinctNames item) :
      HasDistinctNames (.array items)
  | object {members : Members} (nodup : (members.map (·.1)).Nodup)
      (members_distinct : ∀ m ∈ members, HasDistinctNames m.2) : HasDistinctNames (.object members)

theorem HasDistinctNames.nodup {members : Members} (h : HasDistinctNames (.object members)) :
    (members.map (·.1)).Nodup := by
  cases h with
  | object nodup _ => exact nodup

theorem HasDistinctNames.member {members : Members} (h : HasDistinctNames (.object members))
    {m : String × Json} (hm : m ∈ members) : HasDistinctNames m.2 := by
  cases h with
  | object _ distinct => exact distinct m hm

theorem mem_put {k : String} {a : Json} {rows : Members} {row : String × Json}
    (h : row ∈ Table.put k a rows) : row = (k, a) ∨ row ∈ rows := by
  induction rows with
  | nil => exact .inl (List.mem_singleton.1 h)
  | cons r rows ih =>
    obtain ⟨j, b⟩ := r
    rw [Table.put] at h
    split at h
    · rcases List.mem_cons.1 h with h | h
      · exact .inl h
      · exact .inr (List.mem_cons_of_mem _ h)
    · rcases List.mem_cons.1 h with h | h
      · exact .inr (h ▸ List.mem_cons_self)
      · exact (ih h).imp_right (List.mem_cons_of_mem _)

/-- An object with distinct names to which a member is put. -/
theorem HasDistinctNames.put {members : Members} (h : HasDistinctNames (.object members))
    (name : String) {value : Json} (hvalue : HasDistinctNames value) :
    HasDistinctNames (.object (Table.put name value members)) := by
  refine .object (Table.nodup_put h.nodup name value) ?_
  intro m hm
  rcases mem_put hm with rfl | hm
  · exact hvalue
  · exact h.member hm

namespace Raw

mutual

theorem hasDistinctNames_of_value? :
    ∀ (raw : Raw) (depth : Nat) {j : Json}, value? depth raw = some j → j.HasDistinctNames
  | .null, _, j, h => by
    obtain rfl : Json.null = j := by simpa [value?] using h
    exact .null
  | .bool b, _, j, h => by
    obtain rfl : Json.bool b = j := by simpa [value?] using h
    exact .bool b
  | .number n, _, j, h => by
    rw [value?, Option.map_eq_some_iff] at h
    obtain ⟨m, -, rfl⟩ := h
    exact .number m
  | .string s, _, j, h => by
    rw [value?, Option.map_eq_some_iff] at h
    obtain ⟨t, -, rfl⟩ := h
    exact .string t
  | .array raws, depth, j, h => by
    rw [value?] at h
    split at h
    · cases h
    obtain ⟨items, hitems, rfl⟩ := Option.map_eq_some_iff.1 h
    exact .array (hasDistinctNames_of_values? raws _ hitems)
  | .object raws, depth, j, h => by
    rw [value?] at h
    split at h
    · cases h
    obtain ⟨members, hmembers, rfl⟩ := Option.map_eq_some_iff.1 h
    have hnone : HasDistinctNames (.object []) := .object List.nodup_nil (List.forall_mem_nil _)
    exact hasDistinctNames_of_members? raws _ hnone hmembers

theorem hasDistinctNames_of_values? : ∀ (raws : List Raw) (depth : Nat) {items : List Json},
    values? depth raws = some items → ∀ item ∈ items, item.HasDistinctNames
  | [], _, items, h => by
    obtain rfl : [] = items := by simpa [values?] using h
    exact List.forall_mem_nil _
  | raw :: raws, depth, items, h => by
    rw [values?] at h
    obtain ⟨item, hitem, h⟩ := Option.bind_eq_some_iff.1 h
    obtain ⟨rest, hrest, h⟩ := Option.bind_eq_some_iff.1 h
    obtain rfl := Option.some.inj h
    exact List.forall_mem_cons.2 ⟨hasDistinctNames_of_value? raw depth hitem,
      hasDistinctNames_of_values? raws depth hrest⟩

theorem hasDistinctNames_of_members? : ∀ (raws : List (Option String × Raw)) (depth : Nat)
    {done members : Members}, HasDistinctNames (.object done) →
    members? depth done raws = some members → HasDistinctNames (.object members)
  | [], _, done, members, hdone, h => by
    obtain rfl : done = members := by simpa [members?] using h
    exact hdone
  | (name, raw) :: raws, depth, done, members, hdone, h => by
    rw [members?] at h
    obtain ⟨name, -, h⟩ := Option.bind_eq_some_iff.1 h
    obtain ⟨value, hvalue, h⟩ := Option.bind_eq_some_iff.1 h
    have hdistinct := hasDistinctNames_of_value? raw depth hvalue
    exact hasDistinctNames_of_members? raws depth (hdone.put name hdistinct) h

end

end Raw

/-- **In a value that is read from a text every object has each of its names once.** -/
theorem hasDistinctNames_of_parse? {s : String} {j : Json} (h : parse? s = some j) :
    j.HasDistinctNames := by
  obtain ⟨raw, -, hraw⟩ := Option.bind_eq_some_iff.1 h
  exact Raw.hasDistinctNames_of_value? raw _ hraw

/-! ## The order of members -/

mutual

/-- Two values are the same but for the order in which objects have their members. -/
inductive Reordered : Json → Json → Prop
  | refl (j : Json) : Reordered j j
  | array {items items' : List Json} (h : List.Forall₂ Reordered items items') :
      Reordered (.array items) (.array items')
  | object {members members' reordered : Members}
      (h : List.Forall₂ ReorderedMember members members') (hperm : members'.Perm reordered) :
      Reordered (.object members) (.object reordered)

/-- Two members have the same name, and their values are the same but for the order in which
objects have their members. -/
inductive ReorderedMember : String × Json → String × Json → Prop
  | intro (name : String) {j j' : Json} (h : Reordered j j') : ReorderedMember (name, j) (name, j')

end

end Json

end ContentImport
