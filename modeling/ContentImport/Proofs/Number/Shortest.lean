import ContentImport.Number.Shortest
import ContentImport.Proofs.Number.Integer
import ContentImport.Proofs.Number.Nearest
import Mathlib.Data.List.TakeWhile

/-!
# The shortest decimal of a number

The decimal that a number is written with is near to it (`isNear_shortest`), so it is read as that
number. The search for it tests whether multiples of a power of ten lie in the interval of what
rounds to the number, and returns one that does (`holds_search`). It ends with a hit: the multiples
of the finest power are closer to each other than the number is to the end of the interval
(`holds_succ`).
-/

namespace ContentImport.Decimal

open Binary64

variable {num den n : Nat} {g k : Int} {i : Interval} {up : Bool} {x : Binary64}

/-! ## The place of the first digit -/

/-- The place that is found is not above that of the first digit, if the estimate is not too far
above it. -/
theorem decimalPoint_le (fuel : Nat) (h : (den : ℚ) * 10 ^ (k - 1 - fuel) ≤ num) :
    (den : ℚ) * 10 ^ (decimalPoint num den fuel k - 1) ≤ num := by
  induction fuel generalizing k with
  | zero => simpa [decimalPoint] using h
  | succ fuel ih =>
    have hshift : ∀ k : Int, den * 10 ^ k.toNat ≤ num * 10 ^ (-k).toNat ↔
        (den : ℚ) * 10 ^ k ≤ num := fun k => pow_shift_le_iff (by decide) k
    rw [decimalPoint]
    split
    · next hlow =>
      apply ih
      calc (den : ℚ) * 10 ^ (k + 1 - 1 - fuel) ≤ den * 10 ^ k := by
            gcongr <;> simp
        _ ≤ num := (hshift k).1 hlow
    · split
      · apply ih
        rwa [show k - 1 - 1 - (fuel : Int) = k - 1 - (fuel + 1 : Nat) by push_cast; ring]
      · next hhigh =>
        rw [← neg_sub, not_lt] at hhigh
        exact (hshift (k - 1)).1 hhigh

/-- Powers of two and of ten compare like their exponents do with a bound for the logarithm. -/
theorem two_pow_le_ten_pow {a b c d : Nat} (hc : c ≠ 0) (h : 2 ^ c ≤ 10 ^ d) (hab : d * a ≤ b * c) :
    2 ^ a ≤ 10 ^ b := by
  rw [← Nat.pow_le_pow_iff_left hc]
  calc (2 ^ a) ^ c = (2 ^ c) ^ a := by rw [← Nat.pow_mul, ← Nat.pow_mul, Nat.mul_comm]
    _ ≤ (10 ^ d) ^ a := Nat.pow_le_pow_left h a
    _ = 10 ^ (d * a) := (Nat.pow_mul ..).symm
    _ ≤ 10 ^ (b * c) := Nat.pow_le_pow_right (by decide) hab
    _ = (10 ^ b) ^ c := Nat.pow_mul ..

/-- The factor of the estimate is a little greater than the decimal logarithm of two. -/
theorem two_pow_factor_le : 2 ^ 100000 ≤ 10 ^ 30103 := by decide +kernel

/-- The estimate is at most five places above that of the first digit. -/
theorem estimate_le {l : Int} (hl : l ≤ 2000) : (10 : ℚ) ^ (l * 30103 / 100000 - 5) ≤ 2 ^ l := by
  have hone : (1 : ℚ) ≤ 10 := by norm_num
  obtain ⟨a, rfl | rfl⟩ := l.eq_nat_or_neg
  · calc (10 : ℚ) ^ ((a : Int) * 30103 / 100000 - 5)
        ≤ 10 ^ ((3 * (a / 10) : Nat) : Int) := zpow_le_zpow_right₀ hone (by omega)
      _ = 1000 ^ (a / 10) := by rw [zpow_natCast, pow_mul]; norm_num
      _ ≤ 1024 ^ (a / 10) := by gcongr; norm_num
      _ = 2 ^ (10 * (a / 10)) := by rw [pow_mul]; norm_num
      _ ≤ 2 ^ (a : Int) := by
        rw [zpow_natCast]
        exact pow_le_pow_right₀ (by norm_num) (by omega)
  · obtain ⟨b, hb⟩ : ∃ b : Nat, -(a : Int) * 30103 / 100000 = -(b : Int) :=
      ⟨(-(-(a : Int) * 30103 / 100000)).toNat, by omega⟩
    have hpow : 2 ^ a ≤ 10 ^ b := two_pow_le_ten_pow (by decide) two_pow_factor_le (by omega)
    have hpow' : (2 : ℚ) ^ a ≤ 10 ^ b := by exact_mod_cast hpow
    calc (10 : ℚ) ^ (-(a : Int) * 30103 / 100000 - 5) ≤ 10 ^ (-(b : Int)) :=
          zpow_le_zpow_right₀ hone (by omega)
      _ = (10 ^ b)⁻¹ := by rw [zpow_neg, zpow_natCast]
      _ ≤ (2 ^ a)⁻¹ := inv_anti₀ (by positivity) hpow'
      _ = 2 ^ (-(a : Int)) := by rw [zpow_neg, zpow_natCast]

/-! ## The interval of a number -/

/-- The test for an interval compares the decimal itself with the ends. -/
theorem holds_iff :
    i.holds n g = true ↔
      if i.closed then (i.low : ℚ) ≤ n * 10 ^ g * i.den ∧ (n * 10 ^ g * i.den : ℚ) ≤ i.high
      else (i.low : ℚ) < n * 10 ^ g * i.den ∧ (n * 10 ^ g * i.den : ℚ) < i.high := by
  have hpos : (0 : ℚ) < 10 ^ (-g).toNat := by positivity
  have hvalue : ((n * 10 ^ g.toNat * i.den : Nat) : ℚ) = n * 10 ^ g * i.den * 10 ^ (-g).toNat := by
    push_cast
    rw [pow_toNat_eq (by norm_num) g]
    ring
  have hend : ∀ a : Nat, ((a * 10 ^ (-g).toNat : Nat) : ℚ) = a * 10 ^ (-g).toNat := by
    intro a
    push_cast
    rfl
  unfold Interval.holds
  dsimp only
  split
  · rw [Bool.and_eq_true, decide_eq_true_iff, decide_eq_true_iff, ← Nat.cast_le (α := ℚ),
      ← Nat.cast_le (α := ℚ), hvalue, hend, hend, mul_le_mul_iff_of_pos_right hpos,
      mul_le_mul_iff_of_pos_right hpos]
  · rw [Bool.and_eq_true, decide_eq_true_iff, decide_eq_true_iff, ← Nat.cast_lt (α := ℚ),
      ← Nat.cast_lt (α := ℚ), hvalue, hend, hend, mul_lt_mul_iff_of_pos_right hpos,
      mul_lt_mul_iff_of_pos_right hpos]

/-- **A decimal in the interval of a number is near to the number.** -/
theorem isNear_of_holds (hx : x.significand ≠ 0)
    (h : (interval x).holds n g = true) : IsNear x (n * 10 ^ g) := by
  have htwo := pow_toNat_eq (by norm_num : (2 : ℚ) ≠ 0) x.exponent
  have hunit : (0 : ℚ) < 2 ^ x.exponent := by positivity
  -- both sides of the comparisons are multiples of this
  have hcommon : (0 : ℚ) < 2 ^ x.exponent * 2 ^ (-x.exponent).toNat := by positivity
  have hvalue : (n * 10 ^ g * (interval x).den : ℚ) =
      4 * (n * 10 ^ g / 2 ^ x.exponent) * (2 ^ x.exponent * 2 ^ (-x.exponent).toNat) := by
    rw [interval]
    push_cast
    field_simp
  have hhigh : ((interval x).high : ℚ) =
      (4 * x.significand + 2) * (2 ^ x.exponent * 2 ^ (-x.exponent).toNat) := by
    rw [interval, ← htwo]
    push_cast
    rfl
  have hlow : ((interval x).low : ℚ) =
      (4 * x.significand - if x.significand = 2 ^ 52 ∧ 1 < x.exponentBits then 1 else 2) *
        (2 ^ x.exponent * 2 ^ (-x.exponent).toNat) := by
    rw [interval, ← htwo]
    dsimp only
    rw [Nat.cast_mul, Nat.cast_sub (by split <;> omega)]
    push_cast
    rfl
  have hclosed : (interval x).closed = (x.significand % 2 == 0) := rfl
  rw [holds_iff, hvalue, hhigh, hlow, hclosed, mul_le_mul_iff_of_pos_right hcommon,
    mul_le_mul_iff_of_pos_right hcommon, mul_lt_mul_iff_of_pos_right hcommon,
    mul_lt_mul_iff_of_pos_right hcommon] at h
  constructor
  · generalize (n * 10 ^ g / 2 ^ x.exponent : ℚ) = w at h
    have hhalf : (if x.significand = 2 ^ 52 ∧ 1 < x.exponentBits then 1 else 2 : ℚ) ≤ 2 := by
      split <;> norm_num
    refine ⟨?_, ?_, fun hodd => ?_⟩
    · split at h <;> linarith
    · split at h <;> linarith
    · rw [hodd, if_neg (by decide)] at h
      constructor <;> linarith
  · intro hpower hnormal
    rw [hpower, if_pos (by decide), if_pos ⟨rfl, hnormal⟩] at h
    push_cast at h
    linarith

/-! ## The search -/

/-- What is picked is in the interval. -/
theorem holds_of_pick (h : i.pick up g = some n) : i.holds n g = true := by
  unfold Interval.pick at h
  dsimp only at h
  split at h
  · cases h
  · next hn _ =>
    cases h
    exact hn
  · next _ hn =>
    cases h
    exact hn
  · next hn hn' =>
    split at h
    · cases h
      exact hn
    · split at h
      · cases h
        exact hn'
      · split at h
        · cases h
          exact hn'
        · cases h
          exact hn

theorem pick_isSome (h : i.holds (i.mid * 10 ^ (-g).toNat / (i.den * 10 ^ g.toNat) + 1) g = true) :
    (i.pick up g).isSome := by
  unfold Interval.pick
  dsimp only
  rw [h]
  split
  · next hfalse =>
    cases hfalse
  · next hfalse =>
    cases hfalse
  · rfl
  · split
    · rfl
    · split
      · rfl
      · split <;> rfl

/-- If there is a hit, the search ends with one. -/
theorem holds_search (up : Bool) (point : Int) (fuel size : Nat)
    (hhit : ∃ s, size ≤ s ∧ s < size + fuel ∧ (i.pick up (point - s)).isSome) :
    i.holds (i.search up point fuel size).1 (i.search up point fuel size).2 = true := by
  induction fuel generalizing size with
  | zero => omega
  | succ fuel ih =>
    rw [Interval.search]
    split
    · next hn => exact holds_of_pick hn
    · next hnone =>
      apply ih
      obtain ⟨s, hle, hlt, hs⟩ := hhit
      have hne : s ≠ size := by
        rintro rfl
        rw [hnone] at hs
        cases hs
      exact ⟨s, by omega, by omega, hs⟩

/-- If a power of ten is small enough, its first multiple above the middle is in the interval. -/
theorem holds_succ (hden : 0 < i.den) (hlow : i.low ≤ i.mid) (hhigh : i.mid ≤ i.high)
    (hg : i.den * 10 ^ g.toNat < (i.high - i.mid) * 10 ^ (-g).toNat) :
    i.holds (i.mid * 10 ^ (-g).toNat / (i.den * 10 ^ g.toNat) + 1) g = true := by
  have hunit : 0 < i.den * 10 ^ g.toNat := by positivity
  have hlow' : i.low * 10 ^ (-g).toNat ≤ i.mid * 10 ^ (-g).toNat := Nat.mul_le_mul_right _ hlow
  have hsum : i.mid * 10 ^ (-g).toNat + (i.high - i.mid) * 10 ^ (-g).toNat =
      i.high * 10 ^ (-g).toNat := by
    rw [← Nat.add_mul, Nat.add_sub_cancel' hhigh]
  have hfloor := Nat.mul_div_le (i.mid * 10 ^ (-g).toNat) (i.den * 10 ^ g.toNat)
  have hceil := Nat.lt_mul_div_succ (i.mid * 10 ^ (-g).toNat) hunit
  generalize i.mid * 10 ^ (-g).toNat / (i.den * 10 ^ g.toNat) = q at hfloor hceil ⊢
  rw [Nat.mul_succ] at hceil
  have hvalue : (q + 1) * 10 ^ g.toNat * i.den =
      i.den * 10 ^ g.toNat * q + i.den * 10 ^ g.toNat := by
    ring
  simp only [Interval.holds, hvalue]
  split
  · simp only [Bool.and_eq_true, decide_eq_true_eq]
    omega
  · simp only [Bool.and_eq_true, decide_eq_true_eq]
    omega

/-! ## A number on the finest grid -/

/-- The place of the first digit of a number, as it is found. -/
def place (x : Binary64) : Int :=
  decimalPoint (interval x).mid (interval x).den 4
    (floorLog2 (interval x).mid (interval x).den * 30103 / 100000)

theorem mid_pos (hx : x.significand ≠ 0) : 0 < (interval x).mid := by
  have hpos : 0 < x.significand := by omega
  unfold interval
  positivity

theorem den_pos (x : Binary64) : 0 < (interval x).den := by
  unfold interval
  positivity

/-- The middle is less than `2 ^ 54` times as far from zero as from the upper end. -/
theorem mid_lt (x : Binary64) :
    (interval x).mid < 2 ^ 54 * ((interval x).high - (interval x).mid) := by
  have hlt := significand_lt x
  have hup : 0 < 2 ^ x.exponent.toNat := by positivity
  unfold interval
  dsimp only
  rw [← Nat.sub_mul, ← Nat.mul_assoc]
  exact Nat.mul_lt_mul_of_pos_right (by omega) hup

theorem floorLog2_mid_le (hx : x.significand ≠ 0) {a : Nat} (ha : x.exponent ≤ a) :
    floorLog2 (interval x).mid (interval x).den ≤ (55 + a : Nat) := by
  obtain ⟨hlog, -⟩ := floorLog2_bounds (mid_pos hx) (den_pos x)
  have hmid : (interval x).mid ≤ 2 ^ (55 + a) := by
    have hlt := significand_lt x
    rw [Nat.pow_add]
    exact Nat.mul_le_mul (by omega) (Nat.pow_le_pow_right (by decide) (by omega))
  have hden : (1 : ℚ) ≤ (interval x).den := by exact_mod_cast den_pos x
  have hpow : (2 : ℚ) ^ floorLog2 (interval x).mid (interval x).den ≤ 2 ^ ((55 + a : Nat) : Int) :=
    calc (2 : ℚ) ^ floorLog2 (interval x).mid (interval x).den
        ≤ (interval x).den * 2 ^ floorLog2 (interval x).mid (interval x).den :=
          le_mul_of_one_le_left (by positivity) hden
      _ ≤ (interval x).mid := hlog
      _ ≤ 2 ^ ((55 + a : Nat) : Int) := by
        rw [zpow_natCast]
        exact_mod_cast hmid
  exact (zpow_le_zpow_iff_right₀ (by norm_num : (1 : ℚ) < 2)).1 hpow

theorem place_le (hx : x.significand ≠ 0) :
    ((interval x).den : ℚ) * 10 ^ (place x - 1) ≤ (interval x).mid := by
  obtain ⟨hlog, -⟩ := floorLog2_bounds (mid_pos hx) (den_pos x)
  apply decimalPoint_le
  refine le_trans (mul_le_mul_of_nonneg_left ?_ (by positivity)) hlog
  have hlog' : floorLog2 (interval x).mid (interval x).den ≤ (55 + 972 : Nat) :=
    floorLog2_mid_le hx (exponent_le x)
  have hestimate := estimate_le (hlog'.trans (by decide))
  rwa [sub_sub]

/-- With seventeen more digits, the multiples are close enough. -/
theorem pick_place_isSome (up : Bool) (hx : x.significand ≠ 0) :
    ((interval x).pick up (place x - 18)).isSome := by
  have hle : (interval x).low ≤ (interval x).mid := by
    unfold interval
    exact Nat.mul_le_mul_right _ (by omega)
  have hlt : (interval x).mid < (interval x).high := by
    unfold interval
    exact Nat.mul_lt_mul_of_pos_right (by omega) (by positivity)
  refine pick_isSome (holds_succ (den_pos x) hle hlt.le ?_)
  rw [← not_le]
  intro hge
  -- the distance from the middle to the upper end, as a number of units of the first digit
  have hshift := @pow_shift_le_iff (interval x).den ((interval x).high - (interval x).mid) 10
    (by decide) (-(place x - 18))
  rw [neg_neg] at hshift
  have hwide := hshift.1 hge
  have hplace := place_le hx
  have hmid : ((interval x).mid : ℚ) <
      2 ^ 54 * ((interval x).high - (interval x).mid : Nat) := by exact_mod_cast mid_lt x
  have hpos : (0 : ℚ) < 10 ^ (place x - 1) := by positivity
  have hpow : (10 : ℚ) ^ (-(place x - 18)) * 10 ^ (place x - 1) = 10 ^ 17 := by
    rw [← zpow_add₀ (by norm_num), show -(place x - 18) + (place x - 1) = (17 : Nat) by ring,
      zpow_natCast]
  have hbound := mul_le_mul_of_nonneg_right hwide hpos.le
  rw [mul_assoc, Nat.cast_ofNat, hpow] at hbound
  linarith

/-! ## The digits of a number -/

/-- The rational number that a decimal stands for. -/
def value (d : Decimal) : ℚ := Nat.ofDigitChars 10 d.digits 0 * 10 ^ (d.point - d.digits.length)

theorem exists_eq_dropZeros_append (cs : List Char) :
    ∃ k, cs = dropZeros cs ++ List.replicate k '0' := by
  have hzeros : ∀ c ∈ (cs.reverse.takeWhile (· == '0')).reverse, c = '0' := by
    intro c hc
    simpa using List.mem_takeWhile_imp (List.mem_reverse.1 hc)
  have hsplit : cs = dropZeros cs ++ (cs.reverse.takeWhile (· == '0')).reverse := by
    rw [dropZeros, ← List.reverse_append, List.takeWhile_append_dropWhile, List.reverse_reverse]
  rw [List.eq_replicate_of_mem hzeros] at hsplit
  exact ⟨_, hsplit⟩

/-- Zeros at the end of the digits do not count. -/
theorem value_dropZeros (n : Nat) (g : Int) :
    value ⟨dropZeros (Integer.digits n), g + (Integer.digits n).length⟩ = n * 10 ^ g := by
  obtain ⟨k, hdigits⟩ := exists_eq_dropZeros_append (Integer.digits n)
  have hlength := congrArg List.length hdigits
  rw [List.length_append, List.length_replicate] at hlength
  have hn : n = 10 ^ k * Nat.ofDigitChars 10 (dropZeros (Integer.digits n)) 0 := by
    rw [← Nat.ofDigitChars_replicate_zero, ← Nat.ofDigitChars_append, ← hdigits]
    exact Nat.ofDigitChars_ten_toDigits.symm
  have hn' : (n : ℚ) = 10 ^ k * Nat.ofDigitChars 10 (dropZeros (Integer.digits n)) 0 := by
    exact_mod_cast hn
  have hpoint : g + ((Integer.digits n).length : Int) - (dropZeros (Integer.digits n)).length =
      k + g := by omega
  rw [value, hpoint, zpow_add₀ (by norm_num), zpow_natCast, hn']
  ring

/-- What is found in the search is a decimal in the interval. -/
theorem exists_shortest (up : Bool) (hx : x.significand ≠ 0) :
    ∃ (n : Nat) (g : Int), IsNear x (n * 10 ^ g) ∧
      shortest up x = ⟨dropZeros (Integer.digits n), g + (Integer.digits n).length⟩ := by
  have hholds := holds_search (i := interval x) up (place x) 18 1
    ⟨18, by decide, by decide, pick_place_isSome up hx⟩
  exact ⟨_, _, isNear_of_holds hx hholds, rfl⟩

/-- **The decimal that a number is written with is near to the number.** -/
theorem isNear_shortest (up : Bool) (hx : x.significand ≠ 0) :
    IsNear x (shortest up x).value := by
  obtain ⟨n, g, hnear, hshortest⟩ := exists_shortest up hx
  rwa [hshortest, value_dropZeros]

theorem point_shortest (up : Bool) (hx : x.significand ≠ 0) :
    -324 < (shortest up x).point ∧ (shortest up x).point ≤ 309 := by
  obtain ⟨n, g, hnear, hshortest⟩ := exists_shortest up hx
  rw [hshortest, add_comm g]
  exact size_of_isNear hx hnear

theorem digits_shortest_ne_nil (up : Bool) (hx : x.significand ≠ 0) :
    (shortest up x).digits ≠ [] := by
  intro hnil
  have hpos := (isNear_shortest up hx).pos hx
  rw [value, hnil] at hpos
  simp at hpos

theorem isDigit_of_mem_shortest {c : Char} (h : c ∈ (shortest up x).digits) :
    Text.isDigit c = true := by
  have hmem : c ∈ Integer.digits ((interval x).search up (place x) 18 1).1 :=
    List.mem_reverse.1 ((List.dropWhile_sublist _).subset (List.mem_reverse.1 h))
  exact Integer.isDigit_of_mem_digits hmem

end ContentImport.Decimal
