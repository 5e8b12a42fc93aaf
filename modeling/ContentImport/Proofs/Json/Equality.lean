import ContentImport.Json.Basic

/-!
# Equality of JSON values

Values are the same if they have the same shape and the same scalars (`isSame`), which can be
decided.
-/

namespace ContentImport.Json

mutual

/-- Whether two values are the same. -/
def isSame : Json → Json → Bool
  | .null, .null => true
  | .bool a, .bool b => a == b
  | .number m, .number n => m == n
  | .string s, .string t => s == t
  | .array items, .array items' => areSame items items'
  | .object members, .object members' => haveSame members members'
  | _, _ => false

/-- Whether two lists have the same values. -/
def areSame : List Json → List Json → Bool
  | [], [] => true
  | j :: r, j' :: r' => isSame j j' && areSame r r'
  | _, _ => false

/-- Whether two objects have the same members in the same order. -/
def haveSame : List (String × Json) → List (String × Json) → Bool
  | [], [] => true
  | (name, j) :: r, (name', j') :: r' => name == name' && (isSame j j' && haveSame r r')
  | _, _ => false

end

mutual

theorem eq_of_isSame : ∀ j j' : Json, isSame j j' = true → j = j'
  | .null, j', h => by cases j' <;> simp_all [isSame]
  | .bool a, j', h => by cases j' <;> simp_all [isSame]
  | .number m, j', h => by cases j' <;> simp_all [isSame]
  | .string s, j', h => by cases j' <;> simp_all [isSame]
  | .array items, j', h => by
    cases j' with
    | array items' => exact congrArg _ (eq_of_areSame items items' (by simpa [isSame] using h))
    | _ => simp [isSame] at h
  | .object members, j', h => by
    cases j' with
    | object members' =>
      exact congrArg _ (eq_of_haveSame members members' (by simpa [isSame] using h))
    | _ => simp [isSame] at h

theorem eq_of_areSame : ∀ items items' : List Json, areSame items items' = true → items = items'
  | [], items', h => by cases items' <;> simp_all [areSame]
  | j :: r, items', h => by
    cases items' with
    | nil => simp [areSame] at h
    | cons j' r' =>
      rw [areSame, Bool.and_eq_true] at h
      rw [eq_of_isSame j j' h.1, eq_of_areSame r r' h.2]

theorem eq_of_haveSame : ∀ members members' : List (String × Json),
    haveSame members members' = true → members = members'
  | [], members', h => by cases members' <;> simp_all [haveSame]
  | (name, j) :: r, members', h => by
    cases members' with
    | nil => simp [haveSame] at h
    | cons m' r' =>
      rw [haveSame, Bool.and_eq_true, Bool.and_eq_true, beq_iff_eq] at h
      rw [h.1, eq_of_isSame j m'.2 h.2.1, eq_of_haveSame r r' h.2.2]

end

mutual

theorem isSame_self : ∀ j : Json, isSame j j = true
  | .null => rfl
  | .bool _ | .number _ | .string _ => by simp [isSame]
  | .array items => areSame_self items
  | .object members => haveSame_self members

theorem areSame_self : ∀ items : List Json, areSame items items = true
  | [] => rfl
  | j :: r => by rw [areSame, isSame_self j, areSame_self r]; rfl

theorem haveSame_self : ∀ members : List (String × Json), haveSame members members = true
  | [] => rfl
  | (name, j) :: r => by rw [haveSame, isSame_self j, haveSame_self r]; simp

end

instance : DecidableEq Json := fun j j' =>
  decidable_of_iff (isSame j j' = true) ⟨eq_of_isSame j j', fun h => h ▸ isSame_self j⟩

end ContentImport.Json
