import ContentImport.Proofs.Number.Integer
import ContentImport.Proofs.Number.Rounding

/-!
# What rounds to a number

A rational number rounds to a natural number that is at most a half away from it, or less than that
if it is odd (`RoundsTo`). It is near to a floating-point number if it rounds to its units
(`IsNear`); below a power of two the units are halved.

* `round_eq_of_isNear` says that a quotient rounds to the number that it is near to. The quotient is
  rounded in the units of the number, or in halves of them if it is below a power of two.
* So a decimal that is near to a number is read as that number (`ofDecimal_eq_of_isNear`). Its first
  digit is in reach of what is read exactly (`size_of_isNear`).
-/

namespace ContentImport.Binary64

variable {num den m n : Nat} {v : ℚ} {x : Binary64}

/-! ## Natural numbers -/

/-- A rational number is at most a half away from a natural number, less if that is odd. -/
structure RoundsTo (v : ℚ) (m : Nat) : Prop where
  low : m - 1 / 2 ≤ v
  high : v ≤ m + 1 / 2
  odd : m % 2 = 1 → m - 1 / 2 < v ∧ v < m + 1 / 2

theorem nearest_eq (hden : 0 < den) (h : RoundsTo (num / den) m) : nearest num den = m := by
  have hpos : (0 : ℚ) < den := by exact_mod_cast hden
  have hlow : 2 * m * den ≤ 2 * num + den := by
    have hmul := (le_div_iff₀ hpos).1 h.low
    exact_mod_cast (by linarith : (2 * m * den : ℚ) ≤ 2 * num + den)
  have hhigh : 2 * num ≤ 2 * m * den + den := by
    have hmul := (div_le_iff₀ hpos).1 h.high
    exact_mod_cast (by linarith : (2 * num : ℚ) ≤ 2 * m * den + den)
  have hodd : m % 2 = 1 → 2 * m * den < 2 * num + den ∧ 2 * num < 2 * m * den + den := by
    intro hm
    have hmul := (lt_div_iff₀ hpos).1 (h.odd hm).1
    have hmul' := (div_lt_iff₀ hpos).1 (h.odd hm).2
    exact ⟨by exact_mod_cast (by linarith : (2 * m * den : ℚ) < 2 * num + den),
      by exact_mod_cast (by linarith : (2 * num : ℚ) < 2 * m * den + den)⟩
  have hnum := Nat.div_add_mod num den
  have hrest := Nat.mod_lt num hden
  rw [nearest]
  generalize num / den = q at hnum ⊢
  generalize num % den = r at hnum hrest ⊢
  have hle : q ≤ m := by
    by_contra hgt
    have hstep : (m + 1) * den ≤ q * den := Nat.mul_le_mul_right _ (by omega)
    linarith
  have hge : m ≤ q + 1 := by
    by_contra hlt
    have hstep : (q + 2) * den ≤ m * den := Nat.mul_le_mul_right _ (by omega)
    linarith
  simp only [Bool.or_eq_true, decide_eq_true_eq, Bool.and_eq_true, beq_iff_eq]
  obtain rfl | rfl : m = q ∨ m = q + 1 := by omega
  · rw [if_neg]
    rintro (hup | ⟨htie, hq⟩)
    · linarith
    · have hstrict := (hodd hq).2
      linarith
  · rw [if_pos]
    have hup : den ≤ 2 * r := by linarith
    rcases hup.lt_or_eq with hlt | heq
    · exact .inl hlt
    · refine .inr ⟨heq.symm, ?_⟩
      by_contra heven
      have hstrict := (hodd (by omega)).1
      linarith

theorem units_eq (hden : 0 < den) (h : RoundsTo (num / den / 2 ^ unitExponent num den) m) :
    units num den = m := by
  have hquotient : ((num * 2 ^ (-unitExponent num den).toNat : Nat) : ℚ) /
      (den * 2 ^ (unitExponent num den).toNat : Nat) = num / den / 2 ^ unitExponent num den := by
    push_cast
    rw [pow_toNat_eq (by norm_num : (2 : ℚ) ≠ 0) (unitExponent num den), ← mul_assoc,
      mul_div_mul_right _ _ (by positivity), div_div]
  refine nearest_eq (by positivity) ?_
  rwa [hquotient]

/-! ## The parts of a number -/

theorem significand_lt (x : Binary64) : x.significand < 2 ^ 53 := by
  have hfraction : x.fractionBits < 2 ^ 52 := Nat.mod_lt _ (by decide)
  unfold significand
  split <;> omega

theorem le_exponent (x : Binary64) : -1074 ≤ x.exponent := by
  unfold exponent
  split <;> omega

theorem exponent_le (x : Binary64) : x.exponent ≤ 972 := by
  have hbits : x.exponentBits < 2 ^ 11 := Nat.mod_lt _ (by decide)
  unfold exponent
  split <;> omega

theorem one_lt_exponentBits (h : -1074 < x.exponent) : 1 < x.exponentBits := by
  unfold exponent at h
  split at h <;> omega

theorem le_significand (h : -1074 < x.exponent) : 2 ^ 52 ≤ x.significand := by
  have hbits := one_lt_exponentBits h
  rw [significand, if_neg (by omega)]
  omega

/-- The bits but for the sign, from the number of units and their exponent. -/
theorem bits_eq (x : Binary64) :
    x.bits.toNat % 2 ^ 63 = (x.exponent + 1074).toNat * 2 ^ 52 + x.significand := by
  unfold exponent significand exponentBits fractionBits
  split <;> omega

theorem ofMagnitude_bits (x : Binary64) : ofMagnitude x.isNegative (x.bits.toNat % 2 ^ 63) = x := by
  have hlt : x.bits.toNat < 2 ^ 64 := x.bits.toNat_lt
  have hsum : (if x.isNegative then 2 ^ 63 + x.bits.toNat % 2 ^ 63 else x.bits.toNat % 2 ^ 63) =
      x.bits.toNat := by
    rw [isNegative]
    split
    · next h => have h := of_decide_eq_true h; omega
    · next h => have h := mt decide_eq_true h; omega
  rw [ofMagnitude, hsum, UInt64.ofNat_toNat]

theorem bits_le (hx : x.isNaN = false) : x.bits.toNat % 2 ^ 63 ≤ reserved * 2 ^ 52 := by
  simp only [isNaN, exponentBits, fractionBits, reserved, Bool.and_eq_false_iff,
    beq_eq_false_iff_ne, bne_eq_false_iff_eq] at hx
  unfold reserved
  omega

/-- A number without units is a zero. -/
theorem zero_eq (hx : x.significand = 0) : zero x.isNegative = x := by
  have hbits := bits_eq x
  have hleast := le_exponent x
  have hexponent : x.exponent = -1074 := by
    by_contra hne
    have hnormal := le_significand (x := x) (by omega)
    omega
  rw [hx, hexponent] at hbits
  have hnone : x.bits.toNat % 2 ^ 63 = 0 := hbits
  have hself := ofMagnitude_bits x
  rwa [hnone] at hself

/-! ## Numbers -/

/-- A rational number is nearer to a number than to its neighbours, or as near and the number is
even. -/
structure IsNear (x : Binary64) (v : ℚ) : Prop where
  units : RoundsTo (v / 2 ^ x.exponent) x.significand
  below : x.significand = 2 ^ 52 → 1 < x.exponentBits → 2 ^ 52 - 1 / 4 ≤ v / 2 ^ x.exponent

/-- What is near to a number that is not zero is positive. -/
theorem IsNear.pos (h : IsNear x v) (hx : x.significand ≠ 0) : 0 < v := by
  have hone : (1 : ℚ) ≤ x.significand := by exact_mod_cast Nat.pos_of_ne_zero hx
  have hlow := h.units.low
  have hunit : (0 : ℚ) < 2 ^ x.exponent := by positivity
  exact (div_pos_iff_of_pos_right hunit).1 (by linarith)

theorem floorLog2_lt {k : Int} (hnum : 0 < num) (hden : 0 < den) (h : (num / den : ℚ) < 2 ^ k) :
    floorLog2 num den < k := by
  have hpos : (0 : ℚ) < den := by exact_mod_cast hden
  obtain ⟨hlow, -⟩ := floorLog2_bounds hnum hden
  rw [mul_comm, ← le_div_iff₀ hpos] at hlow
  exact (zpow_lt_zpow_iff_right₀ (by norm_num : (1 : ℚ) < 2)).1 (hlow.trans_lt h)

theorem le_floorLog2 {k : Int} (hnum : 0 < num) (hden : 0 < den) (h : 2 ^ k ≤ (num / den : ℚ)) :
    k ≤ floorLog2 num den := by
  have hpos : (0 : ℚ) < den := by exact_mod_cast hden
  obtain ⟨-, hhigh⟩ := floorLog2_bounds hnum hden
  rw [mul_comm, ← div_lt_iff₀ hpos] at hhigh
  exact Int.lt_add_one_iff.1 ((zpow_lt_zpow_iff_right₀ (by norm_num : (1 : ℚ) < 2)).1
    (h.trans_lt hhigh))

section Quotient

variable (hnum : 0 < num) (hden : 0 < den) (h : IsNear x (num / den))

include hnum hden h

/-- A quotient is rounded in the units of the number that it is near to, or it is below a power of
two. -/
theorem unitExponent_cases :
    unitExponent num den = x.exponent ∨
      -1074 < x.exponent ∧ unitExponent num den = x.exponent - 1 ∧ x.significand = 2 ^ 52 ∧
        (num / den : ℚ) / 2 ^ x.exponent < 2 ^ 52 := by
  have hunit : (0 : ℚ) < 2 ^ x.exponent := by positivity
  have hshift : ∀ k : Int, (2 : ℚ) ^ (k + x.exponent) = 2 ^ k * 2 ^ x.exponent :=
    fun k => zpow_add₀ (by norm_num) k _
  have hleast := le_exponent x
  have hbound : (x.significand : ℚ) + 1 ≤ 2 ^ 53 := by exact_mod_cast significand_lt x
  have hup : floorLog2 num den < 53 + x.exponent := by
    refine floorLog2_lt hnum hden ?_
    rw [hshift, ← div_lt_iff₀ hunit]
    have hhigh := h.units.high
    norm_num at hhigh hbound ⊢
    linarith
  by_cases hsame : unitExponent num den = x.exponent
  · exact .inl hsame
  have hnormal : -1074 < x.exponent := by
    unfold unitExponent at hsame
    omega
  have hlow : (num / den : ℚ) / 2 ^ x.exponent < 2 ^ 52 := by
    by_contra hge
    rw [not_lt, le_div_iff₀ hunit] at hge
    have hlog : 52 + x.exponent ≤ floorLog2 num den :=
      le_floorLog2 hnum hden (by rw [hshift]; exact_mod_cast hge)
    unfold unitExponent at hsame
    omega
  have hpower : x.significand = 2 ^ 52 := by
    have hge := le_significand hnormal
    by_contra hne
    have hnext : (2 ^ 52 + 1 : ℚ) ≤ x.significand := by
      exact_mod_cast (by omega : 2 ^ 52 + 1 ≤ x.significand)
    have hnear := h.units.low
    linarith
  refine .inr ⟨hnormal, ?_, hpower, hlow⟩
  have hlog : 51 + x.exponent ≤ floorLog2 num den := by
    refine le_floorLog2 hnum hden ?_
    rw [hshift, ← le_div_iff₀ hunit]
    have hnear := h.below hpower (one_lt_exponentBits hnormal)
    norm_num at hnear ⊢
    linarith
  unfold unitExponent at hsame ⊢
  omega

theorem magnitude_eq_of_isNear (hnumber : x.isNaN = false) :
    magnitude num den = x.bits.toNat % 2 ^ 63 := by
  have hleast := le_exponent x
  have hbits := bits_eq x
  have hsum : (unitExponent num den + 1074).toNat * 2 ^ 52 + units num den =
      x.bits.toNat % 2 ^ 63 := by
    rcases unitExponent_cases hnum hden h with hsame | ⟨hnormal, hhalf, hpower, hlow⟩
    · have hunits : units num den = x.significand := units_eq hden (by rw [hsame]; exact h.units)
      rw [hsame, hunits, hbits]
    · have hunits : units num den = 2 ^ 53 := by
        refine units_eq hden ?_
        have hnear := h.below hpower (one_lt_exponentBits hnormal)
        rw [hhalf, zpow_sub₀ (by norm_num), zpow_one, ← div_mul]
        constructor
        · push_cast
          linarith
        · push_cast
          linarith
        · intro hodd
          exact absurd hodd (by decide)
      omega
  rw [magnitude, hsum]
  exact Nat.min_eq_left (bits_le hnumber)

end Quotient

/-- **A quotient rounds to the number that it is near to.** -/
theorem round_eq_of_isNear (hnumber : x.isNaN = false) (hnum : num ≠ 0) (hden : 0 < den)
    (h : IsNear x (num / den)) : round x.isNegative num den = x := by
  rw [round_eq _ hnum, magnitude_eq_of_isNear (Nat.pos_of_ne_zero hnum) hden h hnumber,
    ofMagnitude_bits]

/-! ## Decimals -/

theorem two_zpow_lt_ten_zpow {a b : Nat} (h : 2 ^ a < 10 ^ b) :
    (2 : ℚ) ^ (a : Int) < 10 ^ (b : Int) := by
  rw [zpow_natCast, zpow_natCast]
  exact_mod_cast h

/-- Every number is below a power of ten. -/
theorem IsNear.lt (h : IsNear x v) : v < 10 ^ (309 : Int) := by
  have hunit : (0 : ℚ) < 2 ^ x.exponent := by positivity
  have hbound : (x.significand : ℚ) + 1 ≤ 2 ^ 53 := by exact_mod_cast significand_lt x
  have hexponent : (2 : ℚ) ^ x.exponent ≤ 2 ^ (972 : Int) :=
    zpow_le_zpow_right₀ (by norm_num) (exponent_le x)
  calc v ≤ (x.significand + 1 / 2) * 2 ^ x.exponent := (div_le_iff₀ hunit).1 h.units.high
    _ ≤ 2 ^ (53 : Int) * 2 ^ (972 : Int) := by
        rw [zpow_ofNat]
        refine mul_le_mul ?_ hexponent hunit.le (by positivity)
        linarith
    _ = 2 ^ ((1025 : Nat) : Int) := by
        rw [← zpow_add₀ (by norm_num)]
        rfl
    _ < 10 ^ (309 : Int) := two_zpow_lt_ten_zpow (by decide +kernel)

/-- Every number but zero is above a power of ten. -/
theorem IsNear.gt (h : IsNear x v) (hx : x.significand ≠ 0) : 10 ^ (-324 : Int) < v := by
  have hunit : (0 : ℚ) < 2 ^ x.exponent := by positivity
  have hone : (1 : ℚ) ≤ x.significand := by exact_mod_cast Nat.pos_of_ne_zero hx
  have hexponent : (2 : ℚ) ^ (-1074 : Int) ≤ 2 ^ x.exponent :=
    zpow_le_zpow_right₀ (by norm_num) (le_exponent x)
  have hpowers : (2 : ℚ) ^ ((1075 : Nat) : Int) < 10 ^ ((324 : Nat) : Int) :=
    two_zpow_lt_ten_zpow (by decide +kernel)
  calc (10 : ℚ) ^ (-324 : Int) = (10 ^ ((324 : Nat) : Int))⁻¹ := zpow_neg _ _
    _ < (2 ^ ((1075 : Nat) : Int))⁻¹ := inv_strictAnti₀ (by positivity) hpowers
    _ = 2 ^ (-1 + -1074 : Int) := (zpow_neg _ _).symm
    _ = 1 / 2 * 2 ^ (-1074 : Int) := by rw [zpow_add₀ (by norm_num), zpow_neg_one, one_div]
    _ ≤ (x.significand - 1 / 2) * 2 ^ x.exponent := by
        refine mul_le_mul ?_ hexponent (by positivity) ?_ <;> linarith
    _ ≤ v := (le_div_iff₀ hunit).1 h.units.low

/-- The place of the first digit of a decimal that is near to a number. -/
theorem size_of_isNear {k : Int} (hx : x.significand ≠ 0) (h : IsNear x (n * 10 ^ k)) :
    -324 < ((Integer.digits n).length : Int) + k ∧ ((Integer.digits n).length : Int) + k ≤ 309 := by
  have hn : n ≠ 0 := by
    rintro rfl
    have hpos := h.pos hx
    simp at hpos
  have hten : (1 : ℚ) < 10 := by norm_num
  have hpow : (0 : ℚ) < 10 ^ k := by positivity
  constructor
  · have hlt : (10 : ℚ) ^ (-324 : Int) < 10 ^ (((Integer.digits n).length : Int) + k) :=
      calc (10 : ℚ) ^ (-324 : Int) < n * 10 ^ k := h.gt hx
        _ ≤ 10 ^ (Integer.digits n).length * 10 ^ k := by
            gcongr
            exact_mod_cast (Integer.lt_pow_length_digits n).le
        _ = 10 ^ (((Integer.digits n).length : Int) + k) := by
            rw [zpow_add₀ (by norm_num), zpow_natCast]
    exact (zpow_lt_zpow_iff_right₀ hten).1 hlt
  · have hlt : (10 : ℚ) ^ (((Integer.digits n).length : Int) - 1 + k) < 10 ^ (309 : Int) :=
      calc (10 : ℚ) ^ (((Integer.digits n).length : Int) - 1 + k)
          = 10 ^ ((Integer.digits n).length - 1) * 10 ^ k := by
            rw [zpow_add₀ (by norm_num), ← zpow_natCast, Nat.cast_sub (Integer.length_digits_pos n),
              Nat.cast_one]
        _ ≤ n * 10 ^ k := by
            gcongr
            exact_mod_cast Integer.pow_length_digits_le hn
        _ < 10 ^ (309 : Int) := h.lt
    have hexponents := (zpow_lt_zpow_iff_right₀ hten).1 hlt
    omega

/-- **A decimal that is near to a number is read as the number.** -/
theorem ofDecimal_eq_of_isNear {k : Int} (hnumber : x.isNaN = false) (hx : x.significand ≠ 0)
    (h : IsNear x (n * 10 ^ k)) : ofDecimal x.isNegative n k = x := by
  obtain ⟨hlow, hhigh⟩ := size_of_isNear hx h
  have hn : n ≠ 0 := by
    rintro rfl
    have hpos := h.pos hx
    simp at hpos
  have hvalue : ((n * 10 ^ k.toNat : Nat) : ℚ) / (10 ^ (-k).toNat : Nat) = n * 10 ^ k := by
    push_cast
    rw [pow_toNat_eq (by norm_num : (10 : ℚ) ≠ 0) k, ← mul_assoc,
      mul_div_cancel_right₀ _ (by positivity)]
  rw [ofDecimal, if_neg hn]
  dsimp only
  rw [if_neg (by omega), if_neg (by omega)]
  refine round_eq_of_isNear hnumber (by positivity) (by positivity) ?_
  rwa [hvalue]

end ContentImport.Binary64
