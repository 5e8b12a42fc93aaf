import ContentImport.Value

/-!
# Restrictions

A restriction limits an entry of an access-control list: a name with one value or with a list of
values, either of which may be missing.

* `RestrictionSet.ofList` collects restrictions and refuses a name that comes twice. A set is
  sorted by name, so that two sets with the same members are equal.
* `RestrictionSet.single` and `RestrictionSet.multiple` are the members that carry a value.
-/

namespace ContentImport

/-- The value of a restriction. A missing value and a missing list differ, and both differ from
an empty list. -/
inductive RestrictionValue
  | single (value : Option Value)
  | multiple (values : Option (List Value))
  deriving DecidableEq, Inhabited

/-- Whether the value is a list. -/
def RestrictionValue.isMultiple : RestrictionValue → Bool
  | .single _ => false
  | .multiple _ => true

/-- A named restriction. -/
structure Restriction where
  name : String
  value : RestrictionValue
  deriving DecidableEq

/-- What a repository accepts under a restriction name. -/
structure RestrictionDefinition where
  name : String
  type : ValueType
  isMultiple : Bool
  deriving DecidableEq

/-- Restrictions of distinct names, sorted by name. -/
structure RestrictionSet where
  rows : List (String × RestrictionValue)
  sorted : (rows.map (·.1)).Pairwise (· < ·) := by decide

namespace RestrictionSet

instance : DecidableEq RestrictionSet := fun s t =>
  decidable_of_iff (s.rows = t.rows) ⟨fun h => by cases s; cases t; cases h; rfl, fun h => h ▸ rfl⟩

/-- The set without members. -/
def empty : RestrictionSet := ⟨[], List.Pairwise.nil⟩

instance : Inhabited RestrictionSet := ⟨empty⟩

/-- Whether a name is in the set. -/
def contains (s : RestrictionSet) (name : String) : Bool := s.rows.any fun row => row.1 == name

/-- The rows with one of a new name. -/
def place (name : String) (value : RestrictionValue) :
    List (String × RestrictionValue) → List (String × RestrictionValue)
  | [] => [(name, value)]
  | (n, v) :: r => if name < n then (name, value) :: (n, v) :: r else (n, v) :: place name value r

theorem mem_place {name : String} {value : RestrictionValue}
    {rows : List (String × RestrictionValue)} {row : String × RestrictionValue} :
    row ∈ place name value rows ↔ row = (name, value) ∨ row ∈ rows := by
  induction rows with
  | nil => simp [place]
  | cons r rs ih =>
    obtain ⟨n, v⟩ := r
    unfold place
    split
    · simp
    · simp only [List.mem_cons, ih]
      exact ⟨fun h => h.elim (fun h => .inr (.inl h)) (fun h => h.elim .inl fun h => .inr (.inr h)),
        fun h => h.elim (fun h => .inr (.inl h)) fun h => h.elim .inl fun h => .inr (.inr h)⟩

theorem sorted_place {rows : List (String × RestrictionValue)}
    (h : (rows.map (·.1)).Pairwise (· < ·)) (name : String) (value : RestrictionValue)
    (new : name ∉ rows.map (·.1)) : ((place name value rows).map (·.1)).Pairwise (· < ·) := by
  induction rows with
  | nil => simp [place]
  | cons r rs ih =>
    obtain ⟨n, v⟩ := r
    rw [List.map_cons, List.pairwise_cons] at h
    rw [List.map_cons, List.mem_cons, not_or] at new
    unfold place
    split
    · next hlt =>
      rw [List.map_cons, List.map_cons, List.pairwise_cons, List.pairwise_cons]
      refine ⟨fun m hm => ?_, h⟩
      rcases List.mem_cons.1 hm with rfl | hm
      · exact hlt
      · exact String.lt_trans hlt (h.1 m hm)
    · next hlt =>
      rw [List.map_cons, List.pairwise_cons]
      refine ⟨fun m hm => ?_, ih h.2 new.2⟩
      obtain ⟨row, hrow, rfl⟩ := List.mem_map.1 hm
      rcases mem_place.1 hrow with rfl | hrow
      · exact Decidable.byContradiction fun hn =>
          new.1 (String.le_antisymm (String.not_lt.1 hn) (String.not_lt.1 hlt))
      · exact h.1 _ (List.mem_map.2 ⟨row, hrow, rfl⟩)

theorem not_mem_of_not_contains {s : RestrictionSet} {name : String}
    (h : ¬ s.contains name = true) : name ∉ s.rows.map (·.1) := by
  intro hm
  obtain ⟨row, hrow, rfl⟩ := List.mem_map.1 hm
  exact h (List.any_eq_true.2 ⟨row, hrow, by simp⟩)

/-- The set with a further member; the name of the member if the set has it. -/
def insert (s : RestrictionSet) (r : Restriction) : Except String RestrictionSet :=
  if h : s.contains r.name then .error r.name
  else .ok ⟨place r.name r.value s.rows, sorted_place s.sorted _ _ (not_mem_of_not_contains h)⟩

/-- The set of restrictions; a name that comes twice if there is one, the first to come again. -/
def ofList (restrictions : List Restriction) : Except String RestrictionSet :=
  restrictions.foldlM insert empty

/-- The names and values of the members with a single value. -/
def single (s : RestrictionSet) : List (String × Value) :=
  s.rows.filterMap fun
    | (name, .single (some v)) => some (name, v)
    | _ => none

/-- The names and values of the members with a list of values. -/
def multiple (s : RestrictionSet) : List (String × List Value) :=
  s.rows.filterMap fun
    | (name, .multiple (some vs)) => some (name, vs)
    | _ => none

/-- A missing part as `null`. -/
def orNull {α : Type} (toJson : α → Json) : Option α → Json
  | none => .null
  | some a => toJson a

/-- The set as JSON. -/
def toJson (s : RestrictionSet) : Json :=
  .object [("entries", .object (s.rows.map fun
    | (name, .single v) => (name, .object [("single", orNull Value.tagged v)])
    | (name, .multiple vs) =>
      (name, .object [("multi", orNull (fun vs => .array (vs.map Value.tagged)) vs)])))]

end RestrictionSet

end ContentImport
