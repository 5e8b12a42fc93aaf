import ContentImport.Time.Calendar
import Mathlib.Tactic.IntervalCases

/-!
# Days and dates

The date of a count of days is a day of the calendar (`isValid_date`), and its count is that count
again (`dayNumber_date`).

`date_eq` takes the count apart into a year that begins in March and a day of that year. Within a
cycle of 400 years the year comes out of `Split`: centuries, olympiads, years and days, of which
only the last of each may be longer than the others.
-/

namespace ContentImport.Calendar

/-! ## The years of a cycle -/

/-- The days of a cycle before its day `n` in whole centuries `c`, in whole olympiads `q` of the
century, in whole years `z` of the olympiad and in days `d` of the year. -/
structure Split (n c q z d : Nat) : Prop where
  days : n = 36524 * c + 1461 * q + 365 * z + d
  century : c ≤ 3
  olympiad : q ≤ 24
  year : z ≤ 3
  day : d < 365 ∨ z = 3 ∧ d = 365 ∧ (q = 24 → c = 3)

theorem exists_split {n : Nat} (hn : n < 146097) : ∃ c q z d, Split n c q z d := by
  obtain ⟨c, r, hcr, hc, hr⟩ :
      ∃ c r, n = 36524 * c + r ∧ c ≤ 3 ∧ (r < 36524 ∨ c = 3 ∧ r = 36524) :=
    ⟨min 3 (n / 36524), n - 36524 * min 3 (n / 36524), by omega⟩
  obtain ⟨q, s, hqs, hq, hs⟩ : ∃ q s, r = 1461 * q + s ∧ q ≤ 24 ∧ s < 1461 :=
    ⟨r / 1461, r % 1461, by omega⟩
  obtain ⟨z, d, hzd, hz, hd⟩ :
      ∃ z d, s = 365 * z + d ∧ z ≤ 3 ∧ (d < 365 ∨ z = 3 ∧ d = 365) :=
    ⟨min 3 (s / 365), s - 365 * min 3 (s / 365), by omega⟩
  exact ⟨c, q, z, d, by omega, hc, hq, hz, by omega⟩

namespace Split

variable {n c q z d : Nat}

theorem centuries_eq (h : Split n c q z d) : n / 36524 = c + n / 146096 := by
  obtain ⟨hdays, hc, hq, hz, hd⟩ := h
  by_cases hlast : n < 146096
  · rw [Nat.div_eq_of_lt hlast]
    exact Nat.div_eq_of_lt_le (by omega) (by omega)
  · have hn : n = 146096 := by omega
    have hc : c = 3 := by omega
    rw [hn, hc]

theorem olympiads_eq (h : Split n c q z d) :
    n / 1460 = 25 * c + q + (24 * c + q + 365 * z + d) / 1460 := by
  rw [← Nat.mul_add_div (by decide), h.days]
  congr 1
  omega

theorem year_eq (h : Split n c q z d) :
    (n - n / 1460 + n / 36524 - n / 146096) / 365 = 100 * c + 4 * q + z := by
  rw [h.olympiads_eq, h.centuries_eq]
  obtain ⟨hdays, hc, hq, hz, hd⟩ := h
  obtain ⟨t, ht⟩ : ∃ t, (24 * c + q + 365 * z + d) / 1460 = t := ⟨_, rfl⟩
  have hround : t ≤ d ∧ d < 365 + t := by omega
  rw [ht]
  exact Nat.div_eq_of_lt_le (by omega) (by omega)

theorem before_eq (h : Split n c q z d) :
    365 * (100 * c + 4 * q + z) + (100 * c + 4 * q + z) / 4 - (100 * c + 4 * q + z) / 100 + d
      = n := by
  obtain ⟨hdays, hc, hq, hz, hd⟩ := h
  have hcentury : (100 * c + 4 * q + z) / 100 = c := by omega
  have holympiad : (100 * c + 4 * q + z) / 4 = 25 * c + q := by omega
  rw [hcentury, holympiad]
  omega

theorem isLeap_of_day (h : Split n c q z d) (hd : d = 365) (cycle : Int) :
    isLeap (400 * cycle + (100 * c + 4 * q + z : Nat) + 1) = true := by
  obtain ⟨hdays, hc, hq, hz, hday⟩ := h
  have hyear : z = 3 ∧ (q = 24 → c = 3) := by omega
  simp only [isLeap, Bool.and_eq_true, Bool.or_eq_true, beq_iff_eq, bne_iff_ne]
  omega

end Split

/-! ## The days of a year -/

/-- The date of a day of a year that begins in March. -/
def ofMarch (year : Int) (dayOfYear : Nat) : Date :=
  let marchMonth := (5 * dayOfYear + 2) / 153
  let month := if marchMonth < 10 then marchMonth + 3 else marchMonth - 9
  { year := if month ≤ 2 then year + 1 else year
    month := month
    day := dayOfYear - daysBefore marchMonth + 1 }

theorem dayNumber_ofMarch (year : Int) {d : Nat} (hd : d ≤ 365) :
    dayNumber (ofMarch year d) =
      365 * year + year / 4 - year / 100 + year / 400 + d - 719468 := by
  obtain ⟨m, hm⟩ : ∃ m, (5 * d + 2) / 153 = m := ⟨_, rfl⟩
  have hbefore : daysBefore m ≤ d := by
    rw [daysBefore]
    omega
  have hm' : m ≤ 11 := by omega
  simp only [ofMarch, dayNumber, hm]
  by_cases hearly : m < 10
  · have hmonth : ¬ m + 3 ≤ 2 := by omega
    have hback : (m + 3 + 9) % 12 = m := by omega
    simp only [if_pos hearly, if_neg hmonth, hback]
    omega
  · have hmonth : m - 9 ≤ 2 := by omega
    have hback : (m - 9 + 9) % 12 = m := by omega
    simp only [if_neg hearly, if_pos hmonth, hback]
    omega

theorem isValid_ofMarch (year : Int) {d : Nat} (hd : d ≤ 365)
    (hleap : d = 365 → isLeap (year + 1) = true) : (ofMarch year d).isValid = true := by
  obtain ⟨m, hm⟩ : ∃ m, (5 * d + 2) / 153 = m := ⟨_, rfl⟩
  have hm' : m ≤ 11 := by omega
  simp only [ofMarch, Date.isValid, hm, daysBefore, monthLength]
  interval_cases m
  case «11» =>
    by_cases hlast : d = 365
    · simp [hleap hlast, hlast]
    · simp
      split <;> omega
  all_goals
    simp
    omega

theorem Date.le_of_isValid {d : Date} (h : d.isValid = true) : d.month ≤ 12 ∧ d.day ≤ 31 := by
  simp only [Date.isValid, Bool.and_eq_true, decide_eq_true_eq] at h
  have hlength : monthLength d.year d.month ≤ 31 := by
    unfold monthLength
    split_ifs <;> decide
  exact ⟨h.1.1.2, h.2.trans hlength⟩

/-! ## Counting -/

theorem daysBefore_cycles (cycle : Int) {y : Nat} (hy : y < 400) :
    365 * (400 * cycle + y) + (400 * cycle + y) / 4 - (400 * cycle + y) / 100 +
        (400 * cycle + y) / 400 =
      146097 * cycle + (365 * y + y / 4 - y / 100 : Nat) := by
  omega

theorem date_eq (days : Int) :
    ∃ year d, date days = ofMarch year d ∧ d ≤ 365 ∧ (d = 365 → isLeap (year + 1) = true) ∧
      days + 719468 = 365 * year + year / 4 - year / 100 + year / 400 + d := by
  obtain ⟨n, hn⟩ : ∃ n : Nat, ((days + 719468) % 146097).toNat = n := ⟨_, rfl⟩
  have hlt : n < 146097 := by omega
  obtain ⟨c, q, z, d, h⟩ := exists_split hlt
  obtain ⟨y, hy⟩ : ∃ y, 100 * c + 4 * q + z = y := ⟨_, rfl⟩
  have hyear := h.year_eq
  have hbefore := h.before_eq
  rw [hy] at hyear hbefore
  have hrest : n - (365 * y + y / 4 - y / 100) = d := by omega
  have hy400 : y < 400 := by
    have := h.century
    have := h.olympiad
    have := h.year
    omega
  refine ⟨400 * ((days + 719468) / 146097) + y, d, ?_, ?_, ?_, ?_⟩
  · simp only [date, ofMarch, hn, hyear, hrest]
  · have := h.day
    omega
  · intro hd
    rw [← hy]
    exact h.isLeap_of_day hd _
  · rw [daysBefore_cycles _ hy400]
    clear hyear hrest
    omega

/-- The count of a date that is read off a count is that count. -/
theorem dayNumber_date (days : Int) : dayNumber (date days) = days := by
  obtain ⟨year, d, heq, hd, -, hdays⟩ := date_eq days
  rw [heq, dayNumber_ofMarch year hd]
  omega

/-- The date of a count is a day of the calendar. -/
theorem isValid_date (days : Int) : (date days).isValid = true := by
  obtain ⟨year, d, heq, hd, hleap, -⟩ := date_eq days
  rw [heq]
  exact isValid_ofMarch year hd hleap

example : date 19782 = ⟨2024, 2, 29⟩ := by decide

end ContentImport.Calendar
