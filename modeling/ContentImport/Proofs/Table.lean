import ContentImport.Table
import Mathlib.Data.List.Basic
import Mathlib.Data.List.Induction

/-!
# The rows of a table

What holds of every row of a table is said of the values that look-ups find: it holds after an
insertion if it holds of the inserted row (`forall_get?_insert`), and what a table made from a list
of rows holds is in the list (`mem_of_get?_ofList`), each of whose keys has a row there
(`exists_get?_ofList`). Two tables with the same keys in the same order under which the same values
are found are the same (`eq_of_keys`).
-/

namespace ContentImport.Table

variable {α : Type} {P : String → α → Prop} {t : Table α} {k : String} {a : α}

theorem forall_get?_insert (h : ∀ j b, t.get? j = some b → P j b) (ha : P k a) :
    ∀ j b, (t.insert k a).get? j = some b → P j b := by
  intro j b hb
  rw [get?_insert] at hb
  split at hb
  · next hkj =>
    obtain rfl := Option.some.inj hb
    exact hkj ▸ ha
  · exact h j b hb

/-- The first row of a key gives its value. -/
theorem lookup_append (rows more : List (String × α)) (k : String) :
    lookup k (rows ++ more) = (lookup k rows).or (lookup k more) := by
  induction rows with
  | nil => rfl
  | cons row rows ih =>
    rw [List.cons_append, lookup, lookup, ih]
    split <;> rfl

theorem mem_of_get?_ofList {rows : List (String × α)} (h : (ofList rows).get? k = some a) :
    (k, a) ∈ rows := by
  have fold : ∀ (s : List (String × α)) (t : Table α), (∀ row ∈ s, row ∈ rows) →
      (∀ j b, t.get? j = some b → (j, b) ∈ rows) →
      ∀ j b, (s.foldl (fun t row => t.insert row.1 row.2) t).get? j = some b → (j, b) ∈ rows := by
    intro s
    induction s with
    | nil => exact fun t _ ht => ht
    | cons row s ih =>
      intro t hs ht
      obtain ⟨hrow, hs⟩ := List.forall_mem_cons.1 hs
      exact ih _ hs (forall_get?_insert ht hrow)
  refine fold rows ∅ (fun _ h => h) (fun j b hb => ?_) k a h
  cases hb

/-- The rows are what look-ups find under the keys, in the order of the keys. -/
theorem rows_eq (t : Table α) : t.rows = t.keys.filterMap fun k => (t.get? k).map (k, ·) := by
  have hrow : ∀ row ∈ t.rows, (t.get? row.1).map (row.1, ·) = some row := by
    intro row hrow
    rw [get?_eq_some_iff.2 hrow]
    rfl
  rw [keys, List.filterMap_map]
  exact (List.filterMap_some.symm.trans (List.filterMap_congr fun row h => (hrow row h).symm) : _)

theorem eq_of_keys {u : Table α} (hkeys : t.keys = u.keys) (hget : ∀ k, t.get? k = u.get? k) :
    t = u := by
  have hrows : t.rows = u.rows := by
    rw [rows_eq, rows_eq u, hkeys]
    exact List.filterMap_congr fun k _ => by rw [hget]
  cases t
  cases u
  cases hrows
  rfl

theorem erase_of_get?_eq_none (h : t.get? k = none) : t.erase k = t := by
  have hne : ∀ j ∈ t.keys, (j != k) = true := fun j hj => by
    simpa using fun heq : j = k => get?_eq_none_iff.1 h (heq ▸ hj)
  have hkeys : (t.erase k).keys = t.keys := by
    simp only [keys, erase, filter]
    rw [List.filter_eq_self.2 fun row hrow => hne row.1 (List.mem_map_of_mem hrow)]
  refine eq_of_keys hkeys fun j => ?_
  rw [get?_erase]
  split
  · next hj => rw [hj, h]
  · rfl

/-- Of two values that are inserted under one key the second one stays. -/
theorem insert_insert (t : Table α) (k : String) (a b : α) :
    (t.insert k a).insert k b = t.insert k b := by
  refine eq_of_keys ?_ ?_
  · have hmem : k ∈ (t.insert k a).keys := by
      rw [keys_insert]
      split <;> simp [*]
    rw [keys_insert, if_pos hmem, keys_insert, keys_insert]
  · intro j
    rw [get?_insert, get?_insert, get?_insert]
    split <;> rfl

theorem contains_insert_iff {j : String} :
    (t.insert k a).contains j = true ↔ j = k ∨ t.contains j = true := by
  rw [contains, get?_insert, contains]
  by_cases hk : k = j
  · simp [hk]
  · have hne : j ≠ k := fun heq => hk heq.symm
    simp [hk, hne]

theorem exists_get?_ofList {rows : List (String × α)} (h : (k, a) ∈ rows) :
    ∃ b, (ofList rows).get? k = some b := by
  have fold : ∀ (s : List (String × α)) (t : Table α), t.contains k = true ∨ (k, a) ∈ s →
      (s.foldl (fun t row => t.insert row.1 row.2) t).contains k = true := by
    intro s
    induction s with
    | nil => exact fun t ht => ht.resolve_right List.not_mem_nil
    | cons row s ih =>
      intro t ht
      refine ih _ ?_
      rw [contains_insert_iff]
      rcases ht with ht | ht
      · exact .inl (.inr ht)
      · rcases List.mem_cons.1 ht with rfl | ht
        · exact .inl (.inl rfl)
        · exact .inr ht
  exact Option.isSome_iff_exists.1 (fold rows ∅ (.inr h))

/-- The last row of a key gives its value. -/
theorem get?_ofList (rows : List (String × α)) (k : String) :
    (ofList rows).get? k = ((rows.filter fun row => row.1 == k).getLast?).map (·.2) := by
  induction rows using List.reverseRecOn with
  | nil => rfl
  | append_singleton rows row ih =>
    rw [ofList, List.foldl_append, List.foldl_cons, List.foldl_nil, get?_insert, ← ofList, ih,
      List.filter_append]
    split
    · next hk => simp [hk]
    · next hk => simp [hk]

/-- The rows of a function that may have no value under a key. -/
theorem get?_ofList_eq {rows : List (String × α)} {f : String → Option α}
    (h : ∀ k a, (k, a) ∈ rows ↔ f k = some a) (k : String) : (ofList rows).get? k = f k := by
  refine Option.ext fun a => ⟨fun ha => (h k a).1 (mem_of_get?_ofList ha), fun ha => ?_⟩
  obtain ⟨b, hb⟩ := exists_get?_ofList ((h k a).2 ha)
  have hab := ((h k b).1 (mem_of_get?_ofList hb)).symm.trans ha
  exact hb.trans hab

theorem contains_filter_iff {p : String → α → Bool} :
    (t.filter p).contains k = true ↔ ∃ a, t.get? k = some a ∧ p k a = true := by
  rw [contains, get?_filter, Option.isSome_iff_exists]
  exact exists_congr fun a => Option.filter_eq_some_iff

end ContentImport.Table
