import ContentImport.Number.Binary64
import Mathlib.Algebra.Order.Field.Basic
import Mathlib.Algebra.Order.Field.Power
import Mathlib.Data.Nat.Log
import Mathlib.Data.Rat.Cast.Order
import Mathlib.Tactic.FieldSimp
import Mathlib.Tactic.GCongr
import Mathlib.Tactic.Linarith
import Mathlib.Tactic.Ring

/-!
# Rounding is monotone

* `magnitude_le` says that a greater quotient is not rounded to a smaller number: within one binade
  since a greater number of units is not nearest to a smaller one (`nearest_le`), and from one
  binade to another since the units of the lower one end where those of the higher one begin.
* `value_le` says that greater bits are those of a greater number.
* What is rounded is a number (`isNaN_round`).
* So the quotient of a natural number and a fixed number grows with the first one
  (`rank_div_ofNat_le`).

Quotients are compared by cross multiplication, and with powers of two as rational numbers.
-/

namespace ContentImport.Binary64

variable {num den num' den' m m' : Nat}

/-! ## The nearest natural number -/

theorem nearest_le (hden : 0 < den) (hden' : 0 < den') (h : num * den' ≤ num' * den) :
    nearest num den ≤ nearest num' den' := by
  have hquotient : num / den ≤ num' / den' := by
    rw [Nat.le_div_iff_mul_le hden']
    have hfloor := Nat.div_mul_le_self num den
    refine Nat.le_of_mul_le_mul_right ?_ hden
    calc num / den * den' * den = num / den * den * den' := by ring
      _ ≤ num * den' := Nat.mul_le_mul_right _ hfloor
      _ ≤ num' * den := h
  have hup : nearest num den ≤ num / den + 1 := by
    unfold nearest
    dsimp only
    split <;> omega
  have hdown : num' / den' ≤ nearest num' den' := by
    unfold nearest
    dsimp only
    split <;> omega
  rcases Nat.lt_or_eq_of_le hquotient with hlt | heq
  · omega
  -- between the same two neighbours the greater quotient is not nearer to the lower one
  have hrest : num % den * den' ≤ num' % den' * den := by
    have hnum := Nat.div_add_mod num den
    have hnum' := Nat.div_add_mod num' den'
    rw [← hnum, ← hnum', ← heq] at h
    nlinarith
  by_cases hcarry : den < 2 * (num % den) ∨ 2 * (num % den) = den ∧ num / den % 2 = 1
  · have hcarry' : den' < 2 * (num' % den') ∨
        2 * (num' % den') = den' ∧ num' / den' % 2 = 1 := by
      rcases hcarry with hover | ⟨htie, hodd⟩
      · left
        by_contra hnot
        nlinarith
      · rw [← heq]
        rcases Nat.lt_trichotomy den' (2 * (num' % den')) with hlt | heq' | hgt
        · exact .inl hlt
        · exact .inr ⟨heq'.symm, hodd⟩
        · nlinarith
    have hone : nearest num' den' = num' / den' + 1 := by
      unfold nearest
      simp only [Bool.or_eq_true, decide_eq_true_eq, Bool.and_eq_true, beq_iff_eq]
      exact if_pos hcarry'
    omega
  · have hzero : nearest num den = num / den := by
      unfold nearest
      simp only [Bool.or_eq_true, decide_eq_true_eq, Bool.and_eq_true, beq_iff_eq]
      exact if_neg hcarry
    omega

theorem nearest_le_of_lt (h : num < m * den) : nearest num den ≤ m := by
  have hquotient : num / den < m := Nat.div_lt_of_lt_mul (by rwa [Nat.mul_comm])
  unfold nearest
  dsimp only
  split <;> omega

theorem le_nearest (hden : 0 < den) (h : m * den ≤ num) : m ≤ nearest num den := by
  have hquotient : m ≤ num / den := (Nat.le_div_iff_mul_le hden).2 h
  unfold nearest
  dsimp only
  split <;> omega

/-! ## Powers on one side of a comparison or the other -/

/-- The factors of a power in a numerator and a denominator differ by the power. -/
theorem pow_toNat_eq {b : ℚ} (hb : b ≠ 0) (k : Int) : b ^ k.toNat = b ^ k * b ^ (-k).toNat := by
  obtain ⟨n, rfl | rfl⟩ := k.eq_nat_or_neg
  · rw [Int.toNat_natCast, Int.toNat_neg_natCast, pow_zero, mul_one, zpow_natCast]
  · rw [neg_neg, Int.toNat_natCast, Int.toNat_neg_natCast, pow_zero, zpow_neg, zpow_natCast,
      inv_mul_cancel₀ (pow_ne_zero n hb)]

theorem pow_shift_le_iff {base : Nat} (hbase : 0 < base) (k : Int) :
    m * base ^ k.toNat ≤ num * base ^ (-k).toNat ↔ (m : ℚ) * base ^ k ≤ num := by
  have hbase' : (base : ℚ) ≠ 0 := by exact_mod_cast hbase.ne'
  have hpos : (0 : ℚ) < base ^ (-k).toNat := by positivity
  rw [← Nat.cast_le (α := ℚ)]
  push_cast
  rw [pow_toNat_eq hbase' k, ← mul_assoc, mul_le_mul_iff_of_pos_right hpos]

theorem shift_le_iff (k : Int) :
    m * den * 2 ^ k.toNat ≤ num * 2 ^ (-k).toNat ↔ (m : ℚ) * den * 2 ^ k ≤ num := by
  rw [pow_shift_le_iff (by decide)]
  push_cast
  rfl

theorem pow_log2_le (hnum : 0 < num) : ((2 : ℚ) ^ (num.log2 : Int)) ≤ num := by
  rw [zpow_natCast]
  exact_mod_cast Nat.log2_self_le hnum.ne'

theorem lt_pow_log2 (num : Nat) : (num : ℚ) < 2 ^ (num.log2 + 1 : Int) := by
  have hlt : num < 2 ^ (num.log2 + 1) := Nat.lt_log2_self
  rw [← Nat.cast_succ, zpow_natCast]
  exact_mod_cast hlt

/-- A quotient lies in the binade that its logarithm tells. -/
theorem floorLog2_bounds (hnum : 0 < num) (hden : 0 < den) :
    (den : ℚ) * 2 ^ floorLog2 num den ≤ num ∧
      (num : ℚ) < den * 2 ^ (floorLog2 num den + 1) := by
  have htwo : (2 : ℚ) ≠ 0 := by norm_num
  have hnumLe := pow_log2_le hnum
  have hnumLt := lt_pow_log2 num
  have hdenLe := pow_log2_le hden
  have hdenLt := lt_pow_log2 den
  have hshift := @shift_le_iff num den 1 ((num.log2 : Int) - den.log2)
  rw [Nat.one_mul, Nat.cast_one, one_mul] at hshift
  have hpos : ∀ k : Int, (0 : ℚ) < 2 ^ k := fun k => by positivity
  unfold floorLog2
  dsimp only
  split
  · next hlt =>
    have hlt : (num : ℚ) < den * 2 ^ ((num.log2 : Int) - den.log2) := by
      rw [← not_le, ← hshift]
      omega
    refine ⟨?_, by rwa [sub_add_cancel]⟩
    calc (den : ℚ) * 2 ^ ((num.log2 : Int) - den.log2 - 1)
        ≤ 2 ^ (den.log2 + 1 : Int) * 2 ^ ((num.log2 : Int) - den.log2 - 1) :=
          mul_le_mul_of_nonneg_right hdenLt.le (hpos _).le
      _ = 2 ^ (num.log2 : Int) := by rw [← zpow_add₀ htwo]; ring_nf
      _ ≤ num := hnumLe
  · next hge =>
    refine ⟨hshift.1 (by omega), ?_⟩
    calc (num : ℚ) < 2 ^ (num.log2 + 1 : Int) := hnumLt
      _ = 2 ^ (den.log2 : Int) * 2 ^ ((num.log2 : Int) - den.log2 + 1) := by
          rw [← zpow_add₀ htwo]; ring_nf
      _ ≤ den * 2 ^ ((num.log2 : Int) - den.log2 + 1) :=
          mul_le_mul_of_nonneg_right hdenLe (hpos _).le

theorem floorLog2_le (hnum : 0 < num) (hden : 0 < den) (hnum' : 0 < num') (hden' : 0 < den')
    (h : num * den' ≤ num' * den) : floorLog2 num den ≤ floorLog2 num' den' := by
  obtain ⟨hlow, -⟩ := floorLog2_bounds hnum hden
  obtain ⟨-, hhigh⟩ := floorLog2_bounds hnum' hden'
  have h : (num : ℚ) * den' ≤ num' * den := by exact_mod_cast h
  have hdenPos : (0 : ℚ) < den := by exact_mod_cast hden
  have hdenPos' : (0 : ℚ) < den' := by exact_mod_cast hden'
  have hpow : (2 : ℚ) ^ floorLog2 num den < 2 ^ (floorLog2 num' den' + 1) := by
    refine lt_of_mul_lt_mul_left ?_ (mul_pos hdenPos hdenPos').le
    calc (den : ℚ) * den' * 2 ^ floorLog2 num den = den * 2 ^ floorLog2 num den * den' := by ring
      _ ≤ num * den' := mul_le_mul_of_nonneg_right hlow hdenPos'.le
      _ ≤ num' * den := h
      _ < den' * 2 ^ (floorLog2 num' den' + 1) * den := mul_lt_mul_of_pos_right hhigh hdenPos
      _ = den * den' * 2 ^ (floorLog2 num' den' + 1) := by ring
  have hlt := (zpow_lt_zpow_iff_right₀ (by norm_num : (1 : ℚ) < 2)).1 hpow
  omega

/-! ## Rounding -/

/-- The exponent of the units in which a quotient is rounded. -/
def unitExponent (num den : Nat) : Int := max (floorLog2 num den - 52) (-1074)

/-- The number of units to which a quotient is rounded. -/
def units (num den : Nat) : Nat :=
  nearest (num * 2 ^ (-unitExponent num den).toNat) (den * 2 ^ (unitExponent num den).toNat)

/-- The bits, but for the sign, to which a quotient is rounded. -/
def magnitude (num den : Nat) : Nat :=
  min ((unitExponent num den + 1074).toNat * 2 ^ 52 + units num den) (reserved * 2 ^ 52)

theorem round_eq (negative : Bool) (hnum : num ≠ 0) :
    round negative num den = ofMagnitude negative (magnitude num den) := by
  rw [round, if_neg hnum]
  rfl

theorem magnitude_le_reserved (num den : Nat) : magnitude num den ≤ reserved * 2 ^ 52 :=
  Nat.min_le_right _ _

section Units

variable (hnum : 0 < num) (hden : 0 < den)

include hnum hden

theorem units_le : units num den ≤ 2 ^ 53 := by
  obtain ⟨-, hhigh⟩ := floorLog2_bounds hnum hden
  have hexponent : floorLog2 num den + 1 ≤ 53 + unitExponent num den := by
    unfold unitExponent
    omega
  refine nearest_le_of_lt ?_
  rw [← Nat.mul_assoc, ← not_le, shift_le_iff, not_le]
  have hdenPos : (0 : ℚ) < den := by exact_mod_cast hden
  calc (num : ℚ) < den * 2 ^ (floorLog2 num den + 1) := hhigh
    _ ≤ den * 2 ^ (53 + unitExponent num den) := by
        refine mul_le_mul_of_nonneg_left ?_ hdenPos.le
        exact zpow_le_zpow_right₀ (by norm_num) hexponent
    _ = ((2 ^ 53 : Nat) : ℚ) * den * 2 ^ unitExponent num den := by
        rw [zpow_add₀ (by norm_num)]
        push_cast
        ring

theorem le_units (hnormal : unitExponent num den = floorLog2 num den - 52) :
    2 ^ 52 ≤ units num den := by
  obtain ⟨hlow, -⟩ := floorLog2_bounds hnum hden
  refine le_nearest (Nat.mul_pos hden (by positivity)) ?_
  rw [← Nat.mul_assoc, shift_le_iff, hnormal]
  calc ((2 ^ 52 : Nat) : ℚ) * den * 2 ^ (floorLog2 num den - 52)
      = den * 2 ^ floorLog2 num den := by
        rw [zpow_sub₀ (by norm_num)]
        push_cast
        field_simp
    _ ≤ num := hlow

end Units

/-- **A greater quotient is not rounded to a smaller number.** -/
theorem magnitude_le (hnum : 0 < num) (hden : 0 < den) (hnum' : 0 < num') (hden' : 0 < den')
    (h : num * den' ≤ num' * den) : magnitude num den ≤ magnitude num' den' := by
  have hlog := floorLog2_le hnum hden hnum' hden' h
  have hexponent : unitExponent num den ≤ unitExponent num' den' := by
    unfold unitExponent
    omega
  have hleast : -1074 ≤ unitExponent num den := le_max_right _ _
  refine min_le_min ?_ le_rfl
  rcases eq_or_lt_of_le hexponent with heq | hlt
  · have hunits : units num den ≤ units num' den' := by
      unfold units
      rw [← heq]
      refine nearest_le (Nat.mul_pos hden (by positivity)) (Nat.mul_pos hden' (by positivity)) ?_
      calc num * 2 ^ (-unitExponent num den).toNat * (den' * 2 ^ (unitExponent num den).toNat)
          = num * den' *
              (2 ^ (-unitExponent num den).toNat * 2 ^ (unitExponent num den).toNat) := by ring
        _ ≤ num' * den *
              (2 ^ (-unitExponent num den).toNat * 2 ^ (unitExponent num den).toNat) :=
            Nat.mul_le_mul_right _ h
        _ = num' * 2 ^ (-unitExponent num den).toNat *
              (den * 2 ^ (unitExponent num den).toNat) := by ring
    rw [heq]
    omega
  · have hup := units_le hnum hden
    have hdown : 2 ^ 52 ≤ units num' den' := by
      refine le_units hnum' hden' ?_
      unfold unitExponent at hlt hleast ⊢
      omega
    have hstep : (unitExponent num den + 1074).toNat + 1 ≤
        (unitExponent num' den' + 1074).toNat := by omega
    omega

/-! ## Values -/

/-- The rational number that bits without a sign stand for. -/
def value (x : Binary64) : ℚ := x.significand * 2 ^ x.exponent

theorem num_eq (x : Binary64) : (x.num : ℚ) = x.value * x.den := by
  rw [num, den, value]
  obtain ⟨n, hn | hn⟩ := x.exponent.eq_nat_or_neg
  · rw [hn, Int.toNat_natCast, Int.toNat_neg_natCast, zpow_natCast]
    push_cast
    ring
  · rw [hn, neg_neg, Int.toNat_natCast, Int.toNat_neg_natCast, zpow_neg, zpow_natCast]
    push_cast
    field_simp

theorem den_pos (x : Binary64) : 0 < x.den := by
  rw [den]
  positivity

theorem toNat_bits (hm : m ≤ reserved * 2 ^ 52) : (ofMagnitude false m).bits.toNat = m := by
  have hreserved : reserved * 2 ^ 52 < 2 ^ 64 := by decide
  change (UInt64.ofNat m).toNat = m
  rw [UInt64.toNat_ofNat']
  exact Nat.mod_eq_of_lt (Nat.lt_of_le_of_lt hm hreserved)

theorem isNegative_ofMagnitude (hm : m ≤ reserved * 2 ^ 52) :
    (ofMagnitude false m).isNegative = false := by
  have hreserved : reserved * 2 ^ 52 < 2 ^ 63 := by decide
  rw [isNegative, toNat_bits hm, decide_eq_false_iff_not]
  omega

theorem rank_ofMagnitude (hm : m ≤ reserved * 2 ^ 52) : (ofMagnitude false m).rank = m := by
  rw [rank, isNegative_ofMagnitude hm, toNat_bits hm]
  rfl

theorem isNaN_ofMagnitude (negative : Bool) (hm : m ≤ reserved * 2 ^ 52) :
    (ofMagnitude negative m).isNaN = false := by
  have hreserved : reserved = 2047 := rfl
  have hbits : (ofMagnitude negative m).bits.toNat = if negative then 2 ^ 63 + m else m := by
    change (UInt64.ofNat _).toNat = _
    rw [UInt64.toNat_ofNat']
    refine Nat.mod_eq_of_lt ?_
    rw [hreserved] at hm
    split <;> omega
  rw [isNaN, exponentBits, fractionBits, hbits, Bool.and_eq_false_iff]
  rw [hreserved] at hm ⊢
  simp only [beq_eq_false_iff_ne, bne_eq_false_iff_eq]
  split <;> omega

/-- What is rounded is a number. -/
theorem isNaN_round (negative : Bool) (num den : Nat) : (round negative num den).isNaN = false := by
  by_cases hnum : num = 0
  · rw [round, if_pos hnum]
    exact isNaN_ofMagnitude negative (Nat.zero_le _)
  · rw [round_eq negative hnum]
    exact isNaN_ofMagnitude negative (magnitude_le_reserved num den)

/-- The sign does not matter for being a number. -/
theorem isNaN_neg (x : Binary64) : x.neg.isNaN = x.isNaN := by
  have hbits : x.neg.bits.toNat % 2 ^ 63 = x.bits.toNat % 2 ^ 63 := by
    rw [neg, UInt64.toNat_xor, Nat.xor_mod_two_pow]
    exact Nat.xor_zero _
  have hexponent : x.neg.exponentBits = x.exponentBits := by
    unfold exponentBits
    omega
  have hfraction : x.neg.fractionBits = x.fractionBits := by
    unfold fractionBits
    omega
  rw [isNaN, isNaN, hexponent, hfraction]

theorem parts_ofMagnitude (hm : m ≤ reserved * 2 ^ 52) :
    (ofMagnitude false m).significand =
        (if m / 2 ^ 52 = 0 then m % 2 ^ 52 else 2 ^ 52 + m % 2 ^ 52) ∧
      (ofMagnitude false m).exponent =
        (if m / 2 ^ 52 = 0 then (-1074 : Int) else ((m / 2 ^ 52 : Nat) : Int) - 1075) := by
  have hbits : (ofMagnitude false m).exponentBits = m / 2 ^ 52 := by
    have hreserved : reserved = 2047 := rfl
    rw [exponentBits, toNat_bits hm]
    rw [hreserved] at hm
    omega
  rw [significand, exponent, hbits, fractionBits, toNat_bits hm]
  exact ⟨rfl, rfl⟩

/-- **Greater bits are those of a greater number.** -/
theorem value_le (hm' : m' ≤ reserved * 2 ^ 52) (h : m ≤ m') :
    (ofMagnitude false m).value ≤ (ofMagnitude false m').value := by
  obtain ⟨hsignificand, hexponent⟩ := parts_ofMagnitude (h.trans hm')
  obtain ⟨hsignificand', hexponent'⟩ := parts_ofMagnitude hm'
  have hbound : (ofMagnitude false m).significand ≤ 2 ^ 53 := by
    rw [hsignificand]
    split <;> omega
  have hpos : ∀ k : Int, (0 : ℚ) < 2 ^ k := fun k => by positivity
  rw [value, value]
  by_cases hsame : (ofMagnitude false m).exponent = (ofMagnitude false m').exponent
  · have hle : (ofMagnitude false m).significand ≤ (ofMagnitude false m').significand := by
      rw [hexponent, hexponent'] at hsame
      rw [hsignificand, hsignificand']
      split_ifs at hsame ⊢ <;> omega
    rw [hsame]
    exact mul_le_mul_of_nonneg_right (by exact_mod_cast hle) (hpos _).le
  · have hstep : (ofMagnitude false m).exponent + 1 ≤ (ofMagnitude false m').exponent := by
      rw [hexponent, hexponent'] at hsame ⊢
      split_ifs at hsame ⊢ <;> omega
    have hlead : 2 ^ 52 ≤ (ofMagnitude false m').significand := by
      rw [hsignificand']
      rw [hexponent, hexponent'] at hstep
      split_ifs at hstep ⊢ <;> omega
    have hbound : ((ofMagnitude false m).significand : ℚ) ≤ 2 ^ 53 := by exact_mod_cast hbound
    have hlead : (2 ^ 52 : ℚ) ≤ (ofMagnitude false m').significand := by exact_mod_cast hlead
    calc ((ofMagnitude false m).significand : ℚ) * 2 ^ (ofMagnitude false m).exponent
        ≤ 2 ^ 53 * 2 ^ (ofMagnitude false m).exponent :=
          mul_le_mul_of_nonneg_right hbound (hpos _).le
      _ = 2 ^ 52 * 2 ^ ((ofMagnitude false m).exponent + 1) := by
          rw [zpow_add₀ (by norm_num), zpow_one]
          ring
      _ ≤ 2 ^ 52 * 2 ^ (ofMagnitude false m').exponent :=
          mul_le_mul_of_nonneg_left (zpow_le_zpow_right₀ (by norm_num) hstep) (by positivity)
      _ ≤ (ofMagnitude false m').significand * 2 ^ (ofMagnitude false m').exponent :=
          mul_le_mul_of_nonneg_right hlead (hpos _).le

/-! ## Quotients of natural numbers -/

theorem ofNat_eq (hnum : 0 < num) : ofNat num = ofMagnitude false (magnitude num 1) :=
  round_eq false hnum.ne'

theorem num_ofNat_pos (hnum : 0 < num) : 0 < (ofNat num).num := by
  have hone : 0 < magnitude 1 1 := by decide
  have hle : magnitude 1 1 ≤ magnitude num 1 :=
    magnitude_le Nat.one_pos Nat.one_pos hnum Nat.one_pos (by omega)
  obtain ⟨hsignificand, -⟩ := parts_ofMagnitude (magnitude_le_reserved num 1)
  rw [ofNat_eq hnum, Binary64.num, hsignificand]
  refine Nat.mul_pos ?_ (by positivity)
  split <;> omega

/-- The bits of the quotient of two natural numbers. -/
theorem div_ofNat_eq (hnum : 0 < num) (hden : 0 < den) :
    div (ofNat num) (ofNat den) = ofMagnitude false
      (magnitude ((ofNat num).num * (ofNat den).den) ((ofNat num).den * (ofNat den).num)) := by
  have hsign : ∀ {n : Nat}, 0 < n → (ofNat n).isNegative = false := by
    intro n hn
    rw [ofNat_eq hn]
    exact isNegative_ofMagnitude (magnitude_le_reserved n 1)
  rw [div, hsign hnum, hsign hden]
  exact round_eq _ (Nat.mul_pos (num_ofNat_pos hnum) (den_pos _)).ne'

/-- **The quotient of a greater number is not smaller.** -/
theorem rank_div_ofNat_le (hnum : 0 < num) (hden : 0 < den) (h : num ≤ num') :
    (div (ofNat num) (ofNat den)).rank ≤ (div (ofNat num') (ofNat den)).rank := by
  have hnum' : 0 < num' := by omega
  have hvalue : (ofNat num).value ≤ (ofNat num').value := by
    rw [ofNat_eq hnum, ofNat_eq hnum']
    refine value_le (magnitude_le_reserved num' 1) ?_
    exact magnitude_le hnum Nat.one_pos hnum' Nat.one_pos (by omega)
  have hcross : (ofNat num).num * (ofNat num').den ≤ (ofNat num').num * (ofNat num).den := by
    have hpos : (0 : ℚ) ≤ (ofNat num).den * (ofNat num').den := by positivity
    have hrat : ((ofNat num).num : ℚ) * (ofNat num').den ≤
        (ofNat num').num * (ofNat num).den := by
      rw [num_eq, num_eq (ofNat num')]
      nlinarith
    exact_mod_cast hrat
  rw [div_ofNat_eq hnum hden, div_ofNat_eq hnum' hden,
    rank_ofMagnitude (magnitude_le_reserved _ _), rank_ofMagnitude (magnitude_le_reserved _ _)]
  have hpos := num_ofNat_pos hden
  have hle := magnitude_le
    (Nat.mul_pos (num_ofNat_pos hnum) (den_pos (ofNat den)))
    (Nat.mul_pos (den_pos (ofNat num)) hpos)
    (Nat.mul_pos (num_ofNat_pos hnum') (den_pos (ofNat den)))
    (Nat.mul_pos (den_pos (ofNat num')) hpos) (by
      calc (ofNat num).num * (ofNat den).den * ((ofNat num').den * (ofNat den).num)
          = (ofNat num).num * (ofNat num').den * ((ofNat den).den * (ofNat den).num) := by ring
        _ ≤ (ofNat num').num * (ofNat num).den * ((ofNat den).den * (ofNat den).num) :=
            Nat.mul_le_mul_right _ hcross
        _ = (ofNat num').num * (ofNat den).den * ((ofNat num).den * (ofNat den).num) := by ring)
  exact_mod_cast hle

end ContentImport.Binary64
