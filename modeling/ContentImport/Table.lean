/-!
# Tables

A `Table α` holds values under text keys, its rows in the order in which the keys were first
inserted. A key has one row.

* `get?_insert`, `get?_erase` and `get?_filter` say what a look-up finds after a change.
* `keys_insert` says where the row of an insertion stands: a known key keeps its place, a new
  one comes last.
-/

namespace ContentImport

/-- Values under text keys in the order of their first insertion. -/
structure Table (α : Type) where
  rows : List (String × α)
  nodup : (rows.map (·.1)).Nodup := by decide

namespace Table

variable {α β : Type}

/-! ## Rows -/

/-- The value of the first row with key `k`. -/
def lookup (k : String) : List (String × α) → Option α
  | [] => none
  | (j, a) :: r => if j = k then some a else lookup k r

/-- The rows with the value `a` under `k`, in place of the row there was or else at the end. -/
def put (k : String) (a : α) : List (String × α) → List (String × α)
  | [] => [(k, a)]
  | (j, b) :: r => if j = k then (k, a) :: r else (j, b) :: put k a r

theorem map_fst_put (k : String) (a : α) (rows : List (String × α)) :
    (put k a rows).map (·.1) =
      if k ∈ rows.map (·.1) then rows.map (·.1) else rows.map (·.1) ++ [k] := by
  induction rows with
  | nil => simp [put]
  | cons row r ih =>
    obtain ⟨j, b⟩ := row
    by_cases h : j = k
    · simp [put, h]
    · have h' : k ≠ j := fun e => h e.symm
      simp only [put, h, ↓reduceIte, List.map_cons, ih, List.mem_cons, h', false_or]
      split <;> simp

theorem nodup_put {rows : List (String × α)} (h : (rows.map (·.1)).Nodup) (k : String) (a : α) :
    ((put k a rows).map (·.1)).Nodup := by
  rw [map_fst_put]
  split
  · exact h
  · next hk =>
    rw [List.nodup_append]
    refine ⟨h, by simp, ?_⟩
    rintro x hx y hy rfl
    rw [List.mem_singleton] at hy
    exact hk (hy ▸ hx)

theorem lookup_put (k j : String) (a : α) (rows : List (String × α)) :
    lookup j (put k a rows) = if k = j then some a else lookup j rows := by
  induction rows with
  | nil => simp [put, lookup]
  | cons row r ih =>
    obtain ⟨i, b⟩ := row
    by_cases h : i = k
    · subst h
      by_cases hj : i = j <;> simp [put, lookup, hj]
    · by_cases hi : i = j
      · subst hi
        have : k ≠ i := fun e => h e.symm
        simp [put, lookup, h, this]
      · simp [put, lookup, h, hi, ih]

theorem lookup_eq_some_iff {rows : List (String × α)} (h : (rows.map (·.1)).Nodup)
    {k : String} {a : α} : lookup k rows = some a ↔ (k, a) ∈ rows := by
  induction rows with
  | nil => simp [lookup]
  | cons row r ih =>
    obtain ⟨j, b⟩ := row
    rw [List.map_cons, List.nodup_cons] at h
    by_cases hj : j = k
    · subst hj
      have : (j, a) ∉ r := fun hm => h.1 (List.mem_map.2 ⟨_, hm, rfl⟩)
      simp [lookup, this, eq_comm]
    · have hj' : k ≠ j := fun e => hj e.symm
      simp [lookup, hj, hj', ih h.2]

theorem lookup_eq_none_iff {rows : List (String × α)} {k : String} :
    lookup k rows = none ↔ k ∉ rows.map (·.1) := by
  induction rows with
  | nil => simp [lookup]
  | cons row r ih =>
    obtain ⟨j, b⟩ := row
    by_cases hj : j = k
    · simp [lookup, hj]
    · have hj' : k ≠ j := fun e => hj e.symm
      simp [lookup, hj, hj', ih]

theorem nodup_filter {rows : List (String × α)} (h : (rows.map (·.1)).Nodup)
    (p : String × α → Bool) : ((rows.filter p).map (·.1)).Nodup :=
  h.sublist ((List.filter_sublist).map _)

/-! ## Tables -/

/-- The table without rows. -/
def empty : Table α := ⟨[], List.nodup_nil⟩

instance : Inhabited (Table α) := ⟨empty⟩
instance : EmptyCollection (Table α) := ⟨empty⟩

instance [DecidableEq α] : DecidableEq (Table α) := fun s t =>
  decidable_of_iff (s.rows = t.rows) ⟨fun h => by cases s; cases t; cases h; rfl, fun h => h ▸ rfl⟩

/-- The value under a key. -/
def get? (t : Table α) (k : String) : Option α := lookup k t.rows

/-- Whether a key has a row. -/
def contains (t : Table α) (k : String) : Bool := (t.get? k).isSome

/-- The keys in order. -/
def keys (t : Table α) : List String := t.rows.map (·.1)

/-- The values in order. -/
def values (t : Table α) : List α := t.rows.map (·.2)

/-- Whether there are no rows. -/
def isEmpty (t : Table α) : Bool := t.rows.isEmpty

/-- The table with a value under a key. -/
def insert (t : Table α) (k : String) (a : α) : Table α := ⟨put k a t.rows, nodup_put t.nodup k a⟩

/-- The table with the rows that satisfy a test. -/
def filter (t : Table α) (p : String → α → Bool) : Table α :=
  ⟨t.rows.filter fun row => p row.1 row.2, nodup_filter t.nodup _⟩

/-- The table without the row of a key. -/
def erase (t : Table α) (k : String) : Table α := t.filter fun j _ => j != k

/-- The table of a list of rows; of the rows with one key, the first gives the place and the
last the value. -/
def ofList (rows : List (String × α)) : Table α := rows.foldl (fun t row => t.insert row.1 row.2) ∅

@[simp] theorem get?_empty (k : String) : (empty : Table α).get? k = none := rfl

@[simp] theorem keys_empty : (empty : Table α).keys = [] := rfl

theorem get?_insert (t : Table α) (k j : String) (a : α) :
    (t.insert k a).get? j = if k = j then some a else t.get? j := lookup_put k j a t.rows

theorem keys_insert (t : Table α) (k : String) (a : α) :
    (t.insert k a).keys = if k ∈ t.keys then t.keys else t.keys ++ [k] := map_fst_put k a t.rows

theorem get?_eq_some_iff {t : Table α} {k : String} {a : α} :
    t.get? k = some a ↔ (k, a) ∈ t.rows := lookup_eq_some_iff t.nodup

theorem get?_eq_none_iff {t : Table α} {k : String} : t.get? k = none ↔ k ∉ t.keys :=
  lookup_eq_none_iff

theorem contains_iff {t : Table α} {k : String} : t.contains k = true ↔ k ∈ t.keys := by
  rw [contains, ← Decidable.not_iff_not, ← get?_eq_none_iff]
  simp

theorem get?_filter (t : Table α) (p : String → α → Bool) (k : String) :
    (t.filter p).get? k = (t.get? k).filter (p k) := by
  cases h : t.get? k with
  | none =>
    rw [get?_eq_none_iff] at h
    rw [Option.filter_none, get?_eq_none_iff]
    exact fun hk => h ((List.filter_sublist.map _).subset hk)
  | some a =>
    rw [get?_eq_some_iff] at h
    by_cases hp : p k a = true
    · rw [Option.filter_some, if_pos hp, get?_eq_some_iff]
      exact List.mem_filter.2 ⟨h, hp⟩
    · rw [Option.filter_some, if_neg hp, Option.eq_none_iff_forall_not_mem]
      intro b hb
      obtain ⟨hb, hpb⟩ := List.mem_filter.1 (get?_eq_some_iff.1 hb)
      rw [← get?_eq_some_iff] at h hb
      obtain rfl : a = b := by rw [h] at hb; exact Option.some.inj hb
      exact hp hpb

theorem get?_erase (t : Table α) (k j : String) :
    (t.erase k).get? j = if j = k then none else t.get? j := by
  rw [erase, get?_filter]
  by_cases h : j = k
  · cases t.get? j <;> simp [h]
  · cases t.get? j <;> simp [h]

end Table

end ContentImport
