import ContentImport.Json.Raw
import ContentImport.Proofs.Number.Rounding

/-!
# Numbers of a document

A number that is read from a document is an integer that is not below the signed 64-bit integers,
or a double other than the patterns that are no numbers (`isRead_of_value?`), however it is rounded
on the way.
-/

namespace ContentImport.Json

variable {x y : Binary64} {number : Number}

/-- What can be read as a number: an integer that is not below the signed 64-bit integers, or a
double that is a number. -/
def Number.IsRead : Number → Prop
  | .integer n => -2 ^ 63 ≤ n
  | .double x => x.isNaN = false

namespace NumberText

theorem isNaN_scale {fuel : Nat} {e : Int} (hx : x.isNaN = false)
    (h : scale x fuel e = some y) : y.isNaN = false := by
  induction fuel generalizing x e with
  | zero =>
    cases h
    decide
  | succ fuel ih =>
    rw [scale] at h
    dsimp only at h
    split at h
    · split at h
      · split at h
        · cases h
        · cases h
          exact Binary64.isNaN_round ..
      · cases h
        exact Binary64.isNaN_round ..
    · split at h
      · cases h
        exact hx
      · split at h
        · cases h
        · exact ih (Binary64.isNaN_round ..) h

theorem isRead_of_double? {negative : Bool} {significand : Nat} {exponent : Int}
    (h : double? negative significand exponent = some number) : number.IsRead := by
  obtain ⟨y, hy, rfl⟩ := Option.map_eq_some_iff.1 h
  have hnumber := isNaN_scale (Binary64.isNaN_round false significand 1) hy
  rw [Number.IsRead]
  split
  · rwa [Binary64.isNaN_neg]
  · exact hnumber

theorem isRead_of_value? {t : NumberText} (h : t.value? = some number) : number.IsRead := by
  unfold value? at h
  dsimp only at h
  split at h
  · split at h
    · cases h
      rw [Number.IsRead]
      omega
    · split at h
      · next hrange =>
        cases h
        simp only [Bool.and_eq_true, decide_eq_true_eq] at hrange
        rw [Number.IsRead]
        omega
      · cases h
        rw [Number.IsRead, Binary64.isNaN_neg]
        exact Binary64.isNaN_round ..
  · split at h
    · exact isRead_of_double? h
    · split at h
      · cases h
      · split at h
        · split at h
          · cases h
            exact Binary64.isNaN_ofMagnitude _ (Nat.zero_le _)
          · cases h
        · exact isRead_of_double? h

end NumberText

/-- The numbers of a document are read from written ones. -/
theorem Raw.isRead_of_value? {raw : Raw} {depth : Nat}
    (h : raw.value? depth = some (.number number)) : number.IsRead := by
  cases raw with
  | number t =>
    rw [Raw.value?] at h
    obtain ⟨_, ht, heq⟩ := Option.map_eq_some_iff.1 h
    cases heq
    exact NumberText.isRead_of_value? ht
  | null => cases h
  | bool b => cases h
  | string s =>
    rw [Raw.value?] at h
    obtain ⟨_, -, heq⟩ := Option.map_eq_some_iff.1 h
    cases heq
  | array items | object members =>
    rw [Raw.value?] at h
    split at h
    · cases h
    · obtain ⟨_, -, heq⟩ := Option.map_eq_some_iff.1 h
      cases heq

end ContentImport.Json
