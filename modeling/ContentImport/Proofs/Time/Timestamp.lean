import ContentImport.Proofs.Number.Integer
import ContentImport.Proofs.Time.Calendar
import ContentImport.Time.Timestamp

/-!
# Moments that are read back

The text of a moment is read as that moment (`read?_render`), in every year in which a moment can
lie. The text of a year of at most four digits has the form with fixed widths
(`strictClock_text`); any other year has a sign, so that form refuses the text
(`strictClock_text_signed`) and the loose form reads it (`looseClock_text`). Date values have fixed
widths too, so the text of a moment is one just if its year has no sign (`isDateText_of_render?`).
-/

namespace ContentImport.Timestamp

open Integer (digits ofDigits?)
open Text (isDigit isBlank)

/-! ## Digits -/

theorem isDigit_of_mem_padded {places n : Nat} {c : Char} (h : c ∈ padded places n) :
    isDigit c = true := by
  rcases List.mem_append.1 h with h | h
  · rw [List.eq_of_mem_replicate h]
    decide
  · exact Integer.isDigit_of_mem_digits h

theorem length_padded {places n : Nat} (hpos : 0 < places) (hn : n < 10 ^ places) :
    (padded places n).length = places := by
  have hle : (digits n).length ≤ places := (Nat.length_toDigits_le_iff (by decide) hpos).2 hn
  rw [padded, List.length_append, List.length_replicate]
  exact Nat.sub_add_cancel hle

theorem length_padded_pos (places n : Nat) : 0 < (padded places n).length := by
  rw [padded, List.length_append]
  exact Nat.add_pos_right _ (Integer.length_digits_pos n)

theorem ofDigits?_padded (places n : Nat) : ofDigits? (padded places n) = some n := by
  have hne : (padded places n).isEmpty = false :=
    List.isEmpty_eq_false_iff.2 (List.ne_nil_of_length_pos (length_padded_pos places n))
  rw [ofDigits?, hne, if_neg Bool.false_ne_true,
    Integer.accumulate_eq fun c => isDigit_of_mem_padded, padded, Nat.ofDigitChars_append,
    Nat.ofDigitChars_replicate_zero, Nat.mul_zero]
  exact congrArg some (Nat.ofDigitChars_toDigits (by decide) (by decide))

/-! ## Reading numbers -/

/-- Digits are read as their number if there are not too few, and either no more may be read or
something else follows. -/
theorem number_append {least most : Nat} {ds r : List Char}
    (hdigit : ∀ c ∈ ds, isDigit c = true) (hleast : least ≤ ds.length) (hmost : ds.length ≤ most)
    (hend : ds.length = most ∨ ∀ c ∈ r.head?, isDigit c = false) :
    number least most (ds ++ r) = (ofDigits? ds).map fun n => (n, r) := by
  have hrest : (r.take (most - ds.length)).takeWhile isDigit = [] := by
    rcases hend with hend | hend
    · rw [hend, Nat.sub_self]
      rfl
    · cases r with
      | nil => simp
      | cons c r =>
        cases most - ds.length with
        | zero => rfl
        | succ k =>
          rw [List.take_succ_cons, List.takeWhile_cons_of_neg]
          simp [hend c rfl]
  have hread : ((ds ++ r).take most).takeWhile isDigit = ds := by
    rw [List.take_append, List.take_of_length_le hmost, List.takeWhile_append_of_pos hdigit, hrest,
      List.append_nil]
  simp only [number, hread, if_neg (Nat.not_lt.2 hleast), List.drop_left]

theorem number_padded {places n : Nat} (hpos : 0 < places) (hn : n < 10 ^ places)
    (r : List Char) : number places places (padded places n ++ r) = some (n, r) := by
  have hlength := length_padded hpos hn
  rw [number_append (fun c => isDigit_of_mem_padded) hlength.ge hlength.le (.inl hlength),
    ofDigits?_padded]
  rfl

/-- There is no blank before the digits. -/
theorem loose_padded {places n : Nat} (hpos : 0 < places) (hn : n < 10 ^ places)
    (r : List Char) : loose places (padded places n ++ r) = some (n, r) := by
  have hlength := length_padded hpos hn
  have hblank : (padded places n ++ r).dropWhile isBlank = padded places n ++ r := by
    cases hds : padded places n with
    | nil => simp [hds] at hlength; omega
    | cons c cs =>
      have hc : isBlank c = false :=
        Text.isBlank_eq_false_of_isDigit (isDigit_of_mem_padded (hds ▸ List.mem_cons_self))
      rw [List.cons_append, List.dropWhile_cons_of_neg]
      simp [hc]
  rw [loose, hblank, number_append (fun c => isDigit_of_mem_padded) (by omega) hlength.le
    (.inl hlength), ofDigits?_padded]
  rfl

/-- Three digits are all of the milliseconds. -/
theorem fraction_padded {millis : Nat} (h : millis < 1000) {r : List Char}
    (hend : ∀ c ∈ r.head?, isDigit c = false) :
    fraction ('.' :: (padded 3 millis ++ r)) = some (millis, r) := by
  have hlength : (padded 3 millis).length = 3 := length_padded (by decide) h
  have hdigit : ∀ c ∈ padded 3 millis, isDigit c = true := fun c => isDigit_of_mem_padded
  have hne : (padded 3 millis).isEmpty = false :=
    List.isEmpty_eq_false_iff.2 (List.ne_nil_of_length_pos (length_padded_pos 3 millis))
  have hstop : r.takeWhile isDigit = [] ∧ r.dropWhile isDigit = r := by
    cases r with
    | nil => exact ⟨rfl, rfl⟩
    | cons c r => simp [hend c rfl]
  simp only [fraction, List.takeWhile_append_of_pos hdigit, List.dropWhile_append_of_pos hdigit,
    hstop, List.append_nil, hne]
  rw [List.take_append_of_le_length hlength.ge, List.take_of_length_le hlength.le,
    ofDigits?_padded]
  rfl

/-! ## Local times -/

/-- The text of a local time that is universal time. -/
def Clock.text (c : Clock) : List Char :=
  renderYear c.date.year ++ '-' :: padded 2 c.date.month ++ '-' :: padded 2 c.date.day ++
    'T' :: padded 2 c.hour ++ ':' :: padded 2 c.minute ++ ':' :: padded 2 c.second ++
    '.' :: padded 3 c.millis ++ "+00:00".toList

/-- Universal time of which every number except the year fits the places it has in a text. -/
structure Clock.IsShort (c : Clock) : Prop where
  month : c.date.month < 100
  day : c.date.day < 100
  hour : c.hour < 100
  minute : c.minute < 100
  second : c.second < 100
  millis : c.millis < 1000
  offset : c.offset = 0

theorem Clock.text_eq (c : Clock) :
    c.text = renderYear c.date.year ++ ('-' :: (padded 2 c.date.month ++ ('-' ::
      (padded 2 c.date.day ++ ('T' :: (padded 2 c.hour ++ (':' :: (padded 2 c.minute ++ (':' ::
        (padded 2 c.second ++ ('.' :: (padded 3 c.millis ++ "+00:00".toList)))))))))))) := by
  simp only [Clock.text, List.append_assoc, List.cons_append]

/-- The offset does not go on with the milliseconds. -/
theorem isDigit_of_mem_offset : ∀ c ∈ "+00:00".toList.head?, isDigit c = false := by
  intro c hc
  obtain rfl : '+' = c := Option.some.inj hc
  decide

/-- What follows a part that was read goes on with its value and the rest of the text. -/
theorem bind_of_eq {α β : Type} {x : Option α} {a : α} {f : α → Option β} {y : Option β}
    (h : x = some a) (hrest : f a = y) : (x >>= f) = y := by
  rw [h]
  exact hrest

theorem literal_cons (c : Char) (r : List Char) : literal c (c :: r) = some ((), r) :=
  if_pos rfl

theorem strictClock_text {c : Clock} (h : c.IsShort) (hlow : 0 ≤ c.date.year)
    (hhigh : c.date.year ≤ 9999) : strictClock c.text = some (c, []) := by
  have hyear : renderYear c.date.year = padded 4 c.date.year.natAbs := if_pos ⟨hlow, hhigh⟩
  have hfour : c.date.year.natAbs < 10 ^ 4 := by omega
  have htwo : ∀ {n : Nat}, n < 100 → ∀ r, number 2 2 (padded 2 n ++ r) = some (n, r) :=
    fun hn => number_padded (by decide) hn
  rw [Clock.text_eq, hyear]
  refine bind_of_eq (number_padded (by decide) hfour _) ?_
  refine bind_of_eq (literal_cons '-' _) ?_
  refine bind_of_eq (htwo h.month _) ?_
  refine bind_of_eq (literal_cons '-' _) ?_
  refine bind_of_eq (htwo h.day _) ?_
  refine bind_of_eq (a := ((), _)) rfl ?_
  refine bind_of_eq (htwo h.hour _) ?_
  refine bind_of_eq (literal_cons ':' _) ?_
  refine bind_of_eq (htwo h.minute _) ?_
  refine bind_of_eq (literal_cons ':' _) ?_
  refine bind_of_eq (htwo h.second _) ?_
  refine bind_of_eq (fraction_padded h.millis isDigit_of_mem_offset) ?_
  refine bind_of_eq (a := (0, [])) rfl ?_
  simp only [Int.natAbs_of_nonneg hlow]
  rw [← h.offset]

/-- A year that does not have at most four digits is written with a sign. -/
theorem exists_renderYear_eq {year : Int} (h : year < 0 ∨ 9999 < year) :
    ∃ sign, isDigit sign = false ∧ renderYear year = sign :: padded 4 year.natAbs := by
  refine ⟨if year < 0 then '-' else '+', ?_, if_neg (by omega)⟩
  split <;> decide

/-- A year with a sign does not have a fixed width. -/
theorem strictClock_text_signed {c : Clock} (h : c.date.year < 0 ∨ 9999 < c.date.year) :
    strictClock c.text = none := by
  obtain ⟨sign, hsign, hyear⟩ := exists_renderYear_eq h
  have hread : ∀ r, number 4 4 (sign :: r) = none := by
    intro r
    rw [number, List.take_succ_cons, List.takeWhile_cons_of_neg (by simp [hsign])]
    rfl
  rw [Clock.text_eq, hyear, List.cons_append, strictClock, hread]
  rfl

/-- A year with a sign is read to its last digit. -/
theorem number_year {n : Nat} {r : List Char} (hend : ∀ c ∈ r.head?, isDigit c = false) :
    number 1 (padded 4 n ++ r).length (padded 4 n ++ r) = some (n, r) := by
  rw [number_append (fun c => isDigit_of_mem_padded) (length_padded_pos 4 n) (by simp)
    (.inr hend), ofDigits?_padded]
  rfl

theorem looseYear_renderYear {year : Int} (h : year < 0 ∨ 9999 < year) {r : List Char}
    (hend : ∀ c ∈ r.head?, isDigit c = false) :
    looseYear (renderYear year ++ r) = some (year, r) := by
  rw [renderYear, if_neg (by omega)]
  by_cases hneg : year < 0
  · have hblank : isBlank '-' = false := by decide
    have habs : -(year.natAbs : Int) = year := by omega
    rw [if_pos hneg, List.cons_append, looseYear,
      List.dropWhile_cons_of_neg (by simp [hblank])]
    simp only [number_year hend, Option.map_some, habs]
  · have hblank : isBlank '+' = false := by decide
    have habs : (year.natAbs : Int) = year := by omega
    rw [if_neg hneg, List.cons_append, looseYear,
      List.dropWhile_cons_of_neg (by simp [hblank])]
    simp only [number_year hend, Option.map_some, habs]

theorem looseClock_text {c : Clock} (h : c.IsShort)
    (hyear : c.date.year < 0 ∨ 9999 < c.date.year) : looseClock true c.text = some (c, []) := by
  have htwo : ∀ {n : Nat}, n < 100 → ∀ r, loose 2 (padded 2 n ++ r) = some (n, r) :=
    fun hn => loose_padded (by decide) hn
  rw [Clock.text_eq]
  refine bind_of_eq (looseYear_renderYear hyear (by simp [isDigit])) ?_
  refine bind_of_eq (literal_cons '-' _) ?_
  refine bind_of_eq (htwo h.month _) ?_
  refine bind_of_eq (literal_cons '-' _) ?_
  refine bind_of_eq (htwo h.day _) ?_
  refine bind_of_eq (literal_cons 'T' _) ?_
  refine bind_of_eq (htwo h.hour _) ?_
  refine bind_of_eq (literal_cons ':' _) ?_
  refine bind_of_eq (htwo h.minute _) ?_
  refine bind_of_eq (literal_cons ':' _) ?_
  refine bind_of_eq (htwo h.second _) ?_
  refine bind_of_eq (fraction_padded h.millis isDigit_of_mem_offset) ?_
  refine bind_of_eq (a := (0, [])) (by decide) ?_
  rw [← h.offset]

/-! ## Moments -/

/-- The universal time of a moment. -/
def clock (moment : Int) : Clock :=
  let rest := (moment % 86400000).toNat
  { date := Calendar.date (moment / 86400000)
    hour := rest / 3600000
    minute := rest / 60000 % 60
    second := rest / 1000 % 60
    millis := rest % 1000
    offset := 0 }

theorem render?_eq (moment : Int) :
    render? moment =
      if inRange (moment / 86400000) then some (String.ofList (clock moment).text) else none :=
  rfl

theorem isShort_clock (moment : Int) : (clock moment).IsShort := by
  obtain ⟨hmonth, hday⟩ :=
    Calendar.Date.le_of_isValid (Calendar.isValid_date (moment / 86400000))
  exact
    { month := lt_of_le_of_lt hmonth (by decide)
      day := lt_of_le_of_lt hday (by decide)
      hour := by simp only [clock]; omega
      minute := by simp only [clock]; omega
      second := by simp only [clock]; omega
      millis := by simp only [clock]; omega
      offset := rfl }

/-- The universal time of a moment is a local time of that moment. -/
theorem moment?_clock {moment : Int} (h : inRange (moment / 86400000) = true) :
    (clock moment).moment? = some moment := by
  obtain ⟨rest, hrest⟩ : ∃ rest : Nat, (moment % 86400000).toNat = rest := ⟨_, rfl⟩
  have hday : rest < 86400000 := by omega
  have hvalid : (Calendar.date (moment / 86400000)).isValid = true := Calendar.isValid_date _
  have hrange := h
  simp only [inRange, Bool.and_eq_true, decide_eq_true_eq] at hrange
  have hparts : rest / 3600000 ≤ 23 ∧ rest / 60000 % 60 ≤ 59 ∧ rest / 1000 % 60 ≤ 59 := by omega
  have hseconds : moment / 86400000 * 86400 +
      ((rest : Int) / 3600000 * 3600 + rest / 60000 % 60 * 60 + rest / 1000 % 60) =
        moment / 1000 := by
    omega
  have hdays : moment / 1000 / 86400 = moment / 86400000 := by omega
  have hmillis : moment / 1000 * 1000 + (rest : Int) % 1000 = moment := by omega
  have hleap : rest / 1000 % 60 ≠ 60 := by omega
  simp [Clock.moment?, clock, hrest, hvalid, hrange, hparts, hparts.2.2.trans (by decide : 59 ≤ 60),
    Calendar.dayNumber_date, hseconds, hdays, h, hleap, hmillis]

/-- The text of a moment is read as that moment. -/
theorem read?_render {moment : Int} {text : String} (h : render? moment = some text) :
    read? text = some moment := by
  rw [render?_eq] at h
  split at h
  case isFalse => simp at h
  case isTrue hrange =>
    obtain rfl := Option.some.inj h
    have hshort := isShort_clock moment
    have hmoment := moment?_clock hrange
    by_cases hyear : 0 ≤ (clock moment).date.year ∧ (clock moment).date.year ≤ 9999
    · have hread := strictClock_text hshort hyear.1 hyear.2
      simp only [read?, complete, String.toList_ofList, hread, hmoment, Option.orElse_some]
    · have hyear' : (clock moment).date.year < 0 ∨ 9999 < (clock moment).date.year := by omega
      have hread := looseClock_text hshort hyear'
      have hstrict := strictClock_text_signed hyear'
      simp only [read?, complete, String.toList_ofList, hread, hstrict, hmoment,
        Option.orElse_none]

/-! ## The shape of a date value -/

theorem fits_append {ps cs : List Char} (h : fits ps cs = true) (ps' cs' : List Char) :
    fits (ps ++ ps') (cs ++ cs') = fits ps' cs' := by
  induction ps generalizing cs with
  | nil =>
    cases cs with
    | nil => rfl
    | cons c cs => cases h
  | cons p ps ih =>
    cases cs with
    | nil => cases h
    | cons c cs =>
      rw [fits, Bool.and_eq_true] at h
      rw [List.cons_append, List.cons_append, fits, h.1, Bool.true_and, ih h.2]

theorem fits_literal {c : Char} (hc : c ≠ '0') (ps cs : List Char) :
    fits (c :: ps) (c :: cs) = fits ps cs := by
  rw [fits, if_neg hc, beq_self_eq_true, Bool.true_and]

theorem fits_digits {ds : List Char} (hds : ∀ c ∈ ds, isDigit c = true) :
    fits (List.replicate ds.length '0') ds = true := by
  induction ds with
  | nil => rfl
  | cons c ds ih =>
    obtain ⟨hc, hrest⟩ := List.forall_mem_cons.1 hds
    rw [List.length_cons, List.replicate_succ, fits, if_pos rfl, hc, ih hrest]
    rfl

theorem fits_padded {places n : Nat} (hpos : 0 < places) (hn : n < 10 ^ places)
    (ps cs : List Char) :
    fits (List.replicate places '0' ++ ps) (padded places n ++ cs) = fits ps cs := by
  have hdigit : ∀ c ∈ padded places n, isDigit c = true := fun c => isDigit_of_mem_padded
  have hfits := fits_digits hdigit
  rw [length_padded hpos hn] at hfits
  exact fits_append hfits ps cs

theorem length_eq_of_fits {ps cs : List Char} (h : fits ps cs = true) : cs.length = ps.length := by
  induction ps generalizing cs with
  | nil =>
    cases cs with
    | nil => rfl
    | cons c cs => cases h
  | cons p ps ih =>
    cases cs with
    | nil => cases h
    | cons c cs =>
      rw [fits, Bool.and_eq_true] at h
      rw [List.length_cons, List.length_cons, ih h.2]

/-- The text of a local time before the offset. -/
def Clock.front (c : Clock) : List Char :=
  renderYear c.date.year ++ '-' :: padded 2 c.date.month ++ '-' :: padded 2 c.date.day ++
    'T' :: padded 2 c.hour ++ ':' :: padded 2 c.minute ++ ':' :: padded 2 c.second ++
    '.' :: padded 3 c.millis

theorem fits_front {c : Clock} (h : c.IsShort) (hlow : 0 ≤ c.date.year)
    (hhigh : c.date.year ≤ 9999) : fits datePlaces c.front = true := by
  have hyear : renderYear c.date.year = padded 4 c.date.year.natAbs := if_pos ⟨hlow, hhigh⟩
  have hfour : c.date.year.natAbs < 10 ^ 4 := by omega
  have htwo : ∀ {n : Nat}, n < 10 ^ 2 → ∀ ps cs,
      fits (List.replicate 2 '0' ++ ps) (padded 2 n ++ cs) = fits ps cs :=
    fun hn => fits_padded (by decide) hn
  have hfront : c.front = padded 4 c.date.year.natAbs ++ ('-' :: (padded 2 c.date.month ++ ('-' ::
      (padded 2 c.date.day ++ ('T' :: (padded 2 c.hour ++ (':' :: (padded 2 c.minute ++ (':' ::
        (padded 2 c.second ++ ('.' :: (padded 3 c.millis ++ [])))))))))))) := by
    rw [Clock.front, hyear, List.append_nil]
    simp only [List.append_assoc, List.cons_append]
  rw [hfront]
  refine (fits_padded (by decide) hfour _ _).trans ?_
  refine (fits_literal (by decide) _ _).trans ((htwo h.month _ _).trans ?_)
  refine (fits_literal (by decide) _ _).trans ((htwo h.day _ _).trans ?_)
  refine (fits_literal (by decide) _ _).trans ((htwo h.hour _ _).trans ?_)
  refine (fits_literal (by decide) _ _).trans ((htwo h.minute _ _).trans ?_)
  refine (fits_literal (by decide) _ _).trans ((htwo h.second _ _).trans ?_)
  refine (fits_literal (by decide) _ _).trans ?_
  have hthree : fits (List.replicate 3 '0' ++ []) (padded 3 c.millis ++ []) = fits [] [] :=
    fits_padded (by decide) h.millis [] []
  exact hthree

/-- A sign stands where a date value has a digit. -/
theorem isDateText_text_signed {c : Clock} (h : c.date.year < 0 ∨ 9999 < c.date.year) :
    isDateText (String.ofList c.text) = false := by
  obtain ⟨sign, hsign, hyear⟩ := exists_renderYear_eq h
  have hfits : ∀ r, fits datePlaces (sign :: r) = false :=
    fun r => congrArg (· && fits datePlaces.tail r) hsign
  rw [isDateText, String.toList_ofList, Clock.text_eq, hyear, List.cons_append,
    List.take_succ_cons, hfits, Bool.false_and]

/-- The year of a moment is written without a sign. -/
def HasPlainYear (moment : Int) : Prop :=
  0 ≤ (clock moment).date.year ∧ (clock moment).date.year ≤ 9999

instance (moment : Int) : Decidable (HasPlainYear moment) := inferInstanceAs (Decidable (_ ∧ _))

/-- **The text of a moment is a date value just if the year is written without a sign.** -/
theorem isDateText_of_render? {moment : Int} {text : String} (h : render? moment = some text) :
    isDateText text = true ↔ HasPlainYear moment := by
  rw [render?_eq] at h
  split at h
  case isFalse => cases h
  case isTrue =>
    obtain rfl := Option.some.inj h
    by_cases hyear : HasPlainYear moment
    · refine iff_of_true ?_ hyear
      have hfits := fits_front (isShort_clock moment) hyear.1 hyear.2
      have hlength : (clock moment).front.length = 23 := length_eq_of_fits hfits
      have htext : (clock moment).text = (clock moment).front ++ "+00:00".toList := rfl
      rw [isDateText, String.toList_ofList, htext, List.take_left' hlength,
        List.drop_left' hlength, hfits]
      decide
    · have hsigned : (clock moment).date.year < 0 ∨ 9999 < (clock moment).date.year := by
        rwa [HasPlainYear, not_and_or, not_le, not_le] at hyear
      rw [isDateText_text_signed hsigned]
      exact iff_of_false Bool.false_ne_true hyear

example : render? 253402300800000 = some "+10000-01-01T00:00:00.000+00:00" := by decide +kernel

end ContentImport.Timestamp
