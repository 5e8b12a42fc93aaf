import ContentImport.Number.Integer
import ContentImport.Proofs.Text.Basic
import Mathlib.Data.List.Basic

/-!
# Integers that are read back

A text is read as an integer if it is a decimal notation of it, with a sign or without one
(`signed?_eq_some_iff`), and as a signed 64-bit integer if that is one (`long?_eq_some_iff`). The
decimal text of an integer is read as that integer (`signed?_render`), blanks are not removed from
it (`trim_render`), and a signed 64-bit integer is read as itself (`long?_render`). A natural number
lies between the powers of ten that the number of its digits gives (`pow_length_digits_le`,
`lt_pow_length_digits`).
-/

namespace ContentImport

namespace Integer

/-! ## Natural numbers -/

theorem isDigit_of_mem_digits {n : Nat} {c : Char} (h : c ∈ digits n) : Text.isDigit c = true := by
  rw [Text.isDigit_eq]
  exact Nat.isDigit_of_mem_toDigits (by decide) (by decide) h

theorem accumulate_eq {cs : List Char} (h : ∀ c ∈ cs, Text.isDigit c = true) (acc : Nat) :
    accumulate acc cs = some (Nat.ofDigitChars 10 cs acc) := by
  induction cs generalizing acc with
  | nil => rfl
  | cons c cs ih =>
    obtain ⟨hc, hcs⟩ := List.forall_mem_cons.1 h
    rw [accumulate, if_pos hc, ih hcs, Nat.mul_comm]
    rfl

theorem isDigit_of_accumulate {cs : List Char} {acc n : Nat} (h : accumulate acc cs = some n) :
    ∀ c ∈ cs, Text.isDigit c = true := by
  induction cs generalizing acc with
  | nil => exact List.forall_mem_nil _
  | cons c cs ih =>
    rw [accumulate] at h
    split at h
    · next hc => exact List.forall_mem_cons.2 ⟨hc, ih h⟩
    · cases h

theorem ofDigits?_eq_some_iff {cs : List Char} {n : Nat} :
    ofDigits? cs = some n ↔
      cs ≠ [] ∧ (∀ c ∈ cs, Text.isDigit c = true) ∧ Nat.ofDigitChars 10 cs 0 = n := by
  rw [ofDigits?]
  cases cs with
  | nil => simp
  | cons c cs =>
    rw [List.isEmpty_cons, if_neg Bool.false_ne_true]
    constructor
    · intro h
      have hdigit := isDigit_of_accumulate h
      rw [accumulate_eq hdigit] at h
      exact ⟨List.cons_ne_nil c cs, hdigit, Option.some.inj h⟩
    · rintro ⟨-, hdigit, rfl⟩
      exact accumulate_eq hdigit 0

theorem ofDigits?_digits (n : Nat) : ofDigits? (digits n) = some n :=
  ofDigits?_eq_some_iff.2 ⟨Nat.toDigits_ne_nil, fun _ => isDigit_of_mem_digits,
    Nat.ofDigitChars_toDigits (by decide) (by decide)⟩

theorem length_digits_pos (n : Nat) : 0 < (digits n).length := Nat.length_toDigits_pos

theorem lt_pow_length_digits (n : Nat) : n < 10 ^ (digits n).length :=
  (Nat.length_toDigits_le_iff (by decide) (length_digits_pos n)).1 (Nat.le_refl _)

theorem pow_length_digits_le {n : Nat} (hn : n ≠ 0) : 10 ^ ((digits n).length - 1) ≤ n := by
  have hsize := length_digits_pos n
  by_contra hlt
  rw [Nat.not_le] at hlt
  rcases Nat.eq_zero_or_pos ((digits n).length - 1) with hzero | hpos
  · rw [hzero] at hlt
    omega
  · have hle : (digits n).length ≤ (digits n).length - 1 :=
      (Nat.length_toDigits_le_iff (by decide) hpos).2 hlt
    omega

/-! ## Integers -/

/-- A decimal notation of an integer: one or more ASCII digits, with a sign or without one. -/
inductive IsDecimal : List Char → Int → Prop
  | plain {ds : List Char} (hne : ds ≠ []) (hds : ∀ c ∈ ds, Text.isDigit c = true) :
      IsDecimal ds (Nat.ofDigitChars 10 ds 0)
  | plus {ds : List Char} (hne : ds ≠ []) (hds : ∀ c ∈ ds, Text.isDigit c = true) :
      IsDecimal ('+' :: ds) (Nat.ofDigitChars 10 ds 0)
  | minus {ds : List Char} (hne : ds ≠ []) (hds : ∀ c ∈ ds, Text.isDigit c = true) :
      IsDecimal ('-' :: ds) (-(Nat.ofDigitChars 10 ds 0 : Nat))

/-- A notation begins with a digit or a sign. -/
theorem IsDecimal.head {cs : List Char} {n : Int} (h : IsDecimal cs n) :
    ∀ c ∈ cs.head?, Text.isDigit c = true ∨ c = '+' ∨ c = '-' := by
  intro c hc
  cases h with
  | plain hne hds => exact .inl (hds c (List.mem_of_mem_head? hc))
  | plus => exact .inr (.inl (Option.some.inj hc).symm)
  | minus => exact .inr (.inr (Option.some.inj hc).symm)

theorem IsDecimal.ne_nil {cs : List Char} {n : Int} (h : IsDecimal cs n) : cs ≠ [] := by
  cases h with
  | plain hne => exact hne
  | plus | minus => exact List.cons_ne_nil _ _

/-- There are no blanks in a notation. -/
theorem IsDecimal.isBlank_eq_false {cs : List Char} {n : Int} (h : IsDecimal cs n) :
    ∀ c ∈ cs, Text.isBlank c = false := by
  cases h with
  | plain hne hds => exact fun c hc => Text.isBlank_eq_false_of_isDigit (hds c hc)
  | plus hne hds | minus hne hds =>
    exact List.forall_mem_cons.2
      ⟨by decide, fun c hc => Text.isBlank_eq_false_of_isDigit (hds c hc)⟩

/-- Digits do not begin with a sign. -/
theorem signed?_of_digits {ds : List Char} (hds : ∀ c ∈ ds, Text.isDigit c = true) :
    signed? ds = (ofDigits? ds).map Int.ofNat := by
  unfold signed?
  split
  · exact absurd (hds '-' List.mem_cons_self) (by decide)
  · exact absurd (hds '+' List.mem_cons_self) (by decide)
  · rfl

theorem signed?_minus (ds : List Char) :
    signed? ('-' :: ds) = (ofDigits? ds).map fun n => -Int.ofNat n := by
  rw [signed?]
  cases ofDigits? ds <;> rfl

theorem signed?_plus (ds : List Char) : signed? ('+' :: ds) = (ofDigits? ds).map Int.ofNat := rfl

/-- **A text is read as an integer just if it is a decimal notation of it.** -/
theorem signed?_eq_some_iff {cs : List Char} {n : Int} :
    signed? cs = some n ↔ IsDecimal cs n := by
  constructor
  · intro h
    unfold signed? at h
    split at h
    · rw [← signed?, signed?_minus] at h
      obtain ⟨m, hm, rfl⟩ := Option.map_eq_some_iff.1 h
      obtain ⟨hne, hds, rfl⟩ := ofDigits?_eq_some_iff.1 hm
      exact .minus hne hds
    · obtain ⟨m, hm, rfl⟩ := Option.map_eq_some_iff.1 h
      obtain ⟨hne, hds, rfl⟩ := ofDigits?_eq_some_iff.1 hm
      exact .plus hne hds
    · obtain ⟨m, hm, rfl⟩ := Option.map_eq_some_iff.1 h
      obtain ⟨hne, hds, rfl⟩ := ofDigits?_eq_some_iff.1 hm
      exact .plain hne hds
  · intro h
    cases h with
    | plain hne hds =>
      rw [signed?_of_digits hds, ofDigits?_eq_some_iff.2 ⟨hne, hds, rfl⟩]
      rfl
    | plus hne hds =>
      rw [signed?_plus, ofDigits?_eq_some_iff.2 ⟨hne, hds, rfl⟩]
      rfl
    | minus hne hds =>
      rw [signed?_minus, ofDigits?_eq_some_iff.2 ⟨hne, hds, rfl⟩]
      rfl

theorem signed?_render (n : Int) : signed? (render n).toList = some n := by
  rw [render, String.toList_ofList]
  split
  · next hn =>
    rw [signed?, ofDigits?_digits]
    change some (-(n.natAbs : Int)) = some n
    exact congrArg some (by omega)
  · next hn =>
    rw [signed?_of_digits fun _ => isDigit_of_mem_digits, ofDigits?_digits]
    change some (n.natAbs : Int) = some n
    exact congrArg some (by omega)

theorem trim_render (n : Int) : Text.trim (render n) = render n := by
  have hdigit : ∀ c ∈ digits n.natAbs, Text.isBlank c = false :=
    fun c hc => Text.isBlank_eq_false_of_isDigit (isDigit_of_mem_digits hc)
  refine Text.trim_eq_self ?_
  rw [render, String.toList_ofList]
  split
  · exact List.forall_mem_cons.2 ⟨by decide, hdigit⟩
  · exact hdigit

/-! ## Signed 64-bit integers -/

theorem toLong?_eq_some_iff {m : Int} {n : Int64} : toLong? m = some n ↔ m = n.toInt := by
  rw [toLong?]
  constructor
  · intro h
    split at h
    · next hrange =>
      obtain rfl := Option.some.inj h
      exact (Int64.toInt_ofInt_of_le hrange.1 hrange.2).symm
    · cases h
  · rintro rfl
    rw [if_pos ⟨n.le_toInt, n.toInt_lt⟩, Int64.ofInt_toInt]

/-- **A text is read as a signed 64-bit integer just if it is a decimal notation of it.** -/
theorem long?_eq_some_iff {s : String} {n : Int64} :
    long? s = some n ↔ IsDecimal s.toList n.toInt := by
  rw [long?, Option.bind_eq_some_iff, ← signed?_eq_some_iff]
  simp only [toLong?_eq_some_iff]
  constructor
  · rintro ⟨m, hm, rfl⟩
    exact hm
  · intro h
    exact ⟨_, h, rfl⟩

/-- A signed 64-bit integer is read back from its text. -/
theorem long?_render {n : Int} (hlow : -2 ^ 63 ≤ n) (hhigh : n < 2 ^ 63) :
    ∃ m : Int64, long? (Text.trim (render n)) = some m ∧ m.toInt = n := by
  have hn : (Int64.ofInt n).toInt = n := Int64.toInt_ofInt_of_le hlow hhigh
  refine ⟨Int64.ofInt n, ?_, hn⟩
  rw [trim_render, long?_eq_some_iff, hn, ← signed?_eq_some_iff]
  exact signed?_render n

end Integer

end ContentImport
