import ContentImport.Proofs.Number.Shortest

/-!
# The text of a number is read back

* `IsNumeral` are the texts of digits with a point and an exponent, together with the decimal that
  they write. They are read as the number nearest to it (`read?_of_isNumeral`).
* In either notation a decimal is written as a numeral with its value
  (`writes_positional`, `writes_scientific`).
* So the text of a number is read as that number, in whatever layout it is written (`read?_render`).
-/

namespace ContentImport.Decimal

open Binary64

variable {n : Nat} {e k : Int} {cs ds r : List Char}

/-! ## Digits -/

/-- Only digits. -/
def AllDigits (cs : List Char) : Prop := ∀ c ∈ cs, Text.isDigit c = true

theorem AllDigits.append (hcs : AllDigits cs) (hds : AllDigits ds) : AllDigits (cs ++ ds) :=
  List.forall_mem_append.2 ⟨hcs, hds⟩

theorem allDigits_replicate (n : Nat) : AllDigits (List.replicate n '0') := by
  intro c hc
  rw [List.eq_of_mem_replicate hc]
  decide

theorem allDigits_digits (n : Nat) : AllDigits (Integer.digits n) :=
  fun _ => Integer.isDigit_of_mem_digits

theorem AllDigits.isBlank_eq_false (h : AllDigits cs) : ∀ c ∈ cs, Text.isBlank c = false :=
  fun c hc => Text.isBlank_eq_false_of_isDigit (h c hc)

/-- Digits are read up to the first character that is none. -/
theorem AllDigits.takeWhile_append (hds : AllDigits ds)
    (hr : ∀ c ∈ r.head?, Text.isDigit c = false) :
    (ds ++ r).takeWhile Text.isDigit = ds ∧ (ds ++ r).dropWhile Text.isDigit = r := by
  rw [List.takeWhile_append_of_pos hds, List.dropWhile_append_of_pos hds]
  cases r with
  | nil => simp
  | cons c r => simp [hr c rfl]

theorem AllDigits.ofDigits?_eq (hds : AllDigits ds) (hne : ds ≠ []) :
    Integer.ofDigits? ds = some (Nat.ofDigitChars 10 ds 0) :=
  Integer.ofDigits?_eq_some_iff.2 ⟨hne, hds, rfl⟩

/-! ## Exponents -/

/-- What can stand at the end of a number: nothing, or an exponent with a sign. -/
inductive IsExponent : List Char → Int → Prop
  | absent : IsExponent [] 0
  | signed {e : Int} (he : e.natAbs ≤ 65536) :
      IsExponent ('e' :: (if e < 0 then '-' else '+') :: Integer.digits e.natAbs) e

theorem IsExponent.isDigit_head (h : IsExponent r e) : ∀ c ∈ r.head?, Text.isDigit c = false := by
  cases h with
  | absent => simp
  | signed => simp; decide

theorem IsExponent.isBlank_eq_false (h : IsExponent r e) : ∀ c ∈ r, Text.isBlank c = false := by
  cases h with
  | absent => simp
  | signed =>
    have hdigits := (allDigits_digits e.natAbs).isBlank_eq_false
    refine List.forall_mem_cons.2 ⟨by decide, List.forall_mem_cons.2 ⟨?_, hdigits⟩⟩
    split <;> decide

/-- The exponent at the end of a number. -/
def lastExponent? : List Char → Option Int
  | [] => some 0
  | c :: r => if c == 'e' || c == 'E' then readExponent? r else none

theorem IsExponent.lastExponent?_eq (h : IsExponent r e) : lastExponent? r = some e := by
  cases h with
  | absent => rfl
  | signed he =>
    have hsigned : Integer.signed? ((if e < 0 then '-' else '+') :: Integer.digits e.natAbs) =
        some e := by
      split
      · rw [Integer.signed?_minus, Integer.ofDigits?_digits, Option.map_some]
        exact congrArg some (show -(e.natAbs : Int) = e by omega)
      · rw [Integer.signed?_plus, Integer.ofDigits?_digits, Option.map_some]
        exact congrArg some (show (e.natAbs : Int) = e by omega)
    change readExponent? _ = some e
    rw [readExponent?, hsigned, Option.map_some]
    exact congrArg some (by omega)

/-! ## Numerals -/

/-- Digits, with digits behind a point or without a point, and an exponent; they write the decimal
`n * 10 ^ k`. -/
inductive IsNumeral : List Char → Nat → Int → Prop
  | whole {ds r : List Char} {e : Int} (hne : ds ≠ []) (hds : AllDigits ds) (he : IsExponent r e) :
      IsNumeral (ds ++ r) (Nat.ofDigitChars 10 ds 0) e
  | fraction {ds ps r : List Char} {e : Int} (hne : ds ≠ []) (hds : AllDigits ds)
      (hps : AllDigits ps) (he : IsExponent r e) :
      IsNumeral (ds ++ '.' :: (ps ++ r)) (Nat.ofDigitChars 10 (ds ++ ps) 0) (e - ps.length)

theorem IsNumeral.exists_head (h : IsNumeral cs n k) :
    ∃ c r, cs = c :: r ∧ Text.isDigit c = true := by
  cases h with
  | @whole ds _ _ hne hds | @fraction ds _ _ _ hne hds =>
    cases ds with
    | nil => exact absurd rfl hne
    | cons c ds => exact ⟨c, _, rfl, hds c List.mem_cons_self⟩

theorem IsNumeral.isBlank_eq_false (h : IsNumeral cs n k) : ∀ c ∈ cs, Text.isBlank c = false := by
  cases h with
  | whole _ hds he => exact List.forall_mem_append.2 ⟨hds.isBlank_eq_false, he.isBlank_eq_false⟩
  | fraction _ hds hps he =>
    have htail := List.forall_mem_append.2 ⟨hps.isBlank_eq_false, he.isBlank_eq_false⟩
    exact List.forall_mem_append.2
      ⟨hds.isBlank_eq_false, List.forall_mem_cons.2 ⟨by decide, htail⟩⟩

/-- The digits behind a point, and what follows them. -/
def cutPlaces : List Char → List Char × List Char
  | '.' :: r => (r.takeWhile Text.isDigit, r.dropWhile Text.isDigit)
  | r => ([], r)

theorem IsExponent.cutPlaces (h : IsExponent r e) : cutPlaces r = ([], r) := by
  cases h <;> rfl

theorem readDecimal?_eq_some {ps : List Char} (negative : Bool)
    (hcut : cutPlaces (cs.dropWhile Text.isDigit) = (ps, r))
    (hn : Integer.ofDigits? (cs.takeWhile Text.isDigit ++ ps) = some n)
    (he : lastExponent? r = some e) :
    readDecimal? negative cs = some (ofDecimal negative n (e - ps.length)) := by
  obtain ⟨rfl, rfl⟩ : (cutPlaces (cs.dropWhile Text.isDigit)).1 = ps ∧
      (cutPlaces (cs.dropWhile Text.isDigit)).2 = r := by simp [hcut]
  rw [readDecimal?]
  dsimp only
  split
  · next hnone => cases hnone.symm.trans hn
  · next m hm =>
    obtain rfl := Option.some.inj (hm.symm.trans hn)
    exact congrArg (Option.map _) he

theorem IsNumeral.readDecimal?_eq (h : IsNumeral cs n k) (negative : Bool) :
    readDecimal? negative cs = some (ofDecimal negative n k) := by
  cases h with
  | @whole ds r e hne hds he =>
    obtain ⟨htake, hdrop⟩ := hds.takeWhile_append he.isDigit_head
    have hcut : Decimal.cutPlaces ((ds ++ r).dropWhile Text.isDigit) = ([], r) := by
      rw [hdrop, he.cutPlaces]
    have hread := readDecimal?_eq_some negative hcut
      (by rw [htake, List.append_nil, hds.ofDigits?_eq hne]) he.lastExponent?_eq
    rwa [List.length_nil, Nat.cast_zero, sub_zero] at hread
  | @fraction ds ps r e hne hds hps he =>
    obtain ⟨htake, hdrop⟩ := hds.takeWhile_append (r := '.' :: (ps ++ r)) (by simp; decide)
    obtain ⟨htake', hdrop'⟩ := hps.takeWhile_append he.isDigit_head
    refine readDecimal?_eq_some negative ?_ ?_ he.lastExponent?_eq
    · rw [hdrop, Decimal.cutPlaces, htake', hdrop']
    · rw [htake, (hds.append hps).ofDigits?_eq (by simp [hne])]

/-- A number does not begin like the names of the numbers that are not finite. -/
theorem IsNumeral.readUnsigned?_eq (h : IsNumeral cs n k) (negative : Bool) :
    readUnsigned? negative cs = some (ofDecimal negative n k) := by
  rw [← h.readDecimal?_eq negative]
  obtain ⟨c, r, rfl, hc⟩ := h.exists_head
  have hother : ∀ d : Char, Text.isDigit d = false → c ≠ d := by
    rintro d hd rfl
    rw [hc] at hd
    cases hd
  have hi := hother 'i' (by decide)
  have hn := hother 'n' (by decide)
  unfold readUnsigned?
  rw [List.map_cons, Text.lowerChar_of_isDigit hc]
  simp [hi, hn]

/-- **A numeral is read as the number nearest to its decimal.** -/
theorem read?_of_isNumeral (h : IsNumeral cs n k) (negative : Bool) :
    read? (Text.trim (String.ofList (if negative then '-' :: cs else cs))) =
      some (ofDecimal negative n k) := by
  have hblank := h.isBlank_eq_false
  obtain ⟨c, r, rfl, hc⟩ := h.exists_head
  cases negative with
  | true =>
    rw [if_pos rfl, Text.trim_eq_self, read?, String.toList_ofList]
    · exact h.readUnsigned?_eq _
    · rw [String.toList_ofList]
      exact List.forall_mem_cons.2 ⟨by decide, hblank⟩
  | false =>
    rw [if_neg (by decide), Text.trim_eq_self, read?, String.toList_ofList]
    · split
      · next heq =>
        cases heq
        exact absurd hc (by decide)
      · next heq =>
        cases heq
        exact absurd hc (by decide)
      · exact h.readUnsigned?_eq _
    · rw [String.toList_ofList]
      exact hblank

/-! ## Notations -/

variable {d : Decimal} {x : Binary64}

/-- Zeros in front of digits do not count. -/
theorem ofDigitChars_zeros_append (a : Nat) (ds : List Char) :
    Nat.ofDigitChars 10 (List.replicate a '0' ++ ds) 0 = Nat.ofDigitChars 10 ds 0 := by
  rw [Nat.ofDigitChars_append, Nat.ofDigitChars_replicate_zero, Nat.mul_zero]

/-- Zeros behind digits multiply their number. -/
theorem ofDigitChars_append_zeros (ds : List Char) (a : Nat) :
    Nat.ofDigitChars 10 (ds ++ List.replicate a '0') 0 = 10 ^ a * Nat.ofDigitChars 10 ds 0 := by
  rw [Nat.ofDigitChars_append, Nat.ofDigitChars_replicate_zero]

/-- A text is a numeral with the value of a decimal. -/
def Writes (cs : List Char) (d : Decimal) : Prop :=
  ∃ (n : Nat) (k : Int), IsNumeral cs n k ∧ n * 10 ^ k = d.value

/-- The point stands before all digits. -/
theorem writes_of_point_le (hd : AllDigits d.digits) (hpoint : d.point ≤ 0) :
    Writes ('0' :: '.' :: List.replicate (-d.point).toNat '0' ++ d.digits) d := by
  have hplaces := (allDigits_replicate (-d.point).toNat).append hd
  have h := IsNumeral.fraction (List.cons_ne_nil '0' []) (allDigits_replicate 1) hplaces .absent
  rw [List.append_nil] at h
  have hexponent : (0 : Int) - (List.replicate (-d.point).toNat '0' ++ d.digits).length =
      d.point - d.digits.length := by
    rw [List.length_append, List.length_replicate]
    omega
  refine ⟨_, _, h, ?_⟩
  rw [← List.append_assoc, List.singleton_append, ← List.replicate_succ,
    ofDigitChars_zeros_append, hexponent, value]

/-- The point stands behind all digits, or is left out there. -/
theorem writes_of_length_le (hd : AllDigits d.digits) (hpoint : 0 < d.point)
    (hlength : d.digits.length ≤ d.point.toNat) (keepPoint : Bool) :
    Writes (d.digits ++ List.replicate (d.point.toNat - d.digits.length) '0' ++
      (if keepPoint then ['.', '0'] else [])) d := by
  have hdigits := hd.append (allDigits_replicate (d.point.toNat - d.digits.length))
  have hne : d.digits ++ List.replicate (d.point.toNat - d.digits.length) '0' ≠ [] := by
    apply List.ne_nil_of_length_pos
    rw [List.length_append, List.length_replicate]
    omega
  have hvalue : d.value =
      10 ^ (d.point.toNat - d.digits.length) * Nat.ofDigitChars 10 d.digits 0 := by
    have hexponent : d.point - d.digits.length = (d.point.toNat - d.digits.length : Nat) := by
      omega
    rw [value, hexponent, zpow_natCast, mul_comm]
  cases keepPoint with
  | true =>
    refine ⟨_, _, .fraction hne hdigits (allDigits_replicate 1) .absent, ?_⟩
    have hone : (0 : Int) - (List.replicate 1 '0').length = -1 := rfl
    rw [ofDigitChars_append_zeros, ofDigitChars_append_zeros, hvalue, hone, zpow_neg_one]
    push_cast
    ring
  | false =>
    refine ⟨_, _, .whole hne hdigits .absent, ?_⟩
    rw [ofDigitChars_append_zeros, hvalue, zpow_zero, mul_one]
    push_cast
    rfl

/-- The point stands between digits. -/
theorem writes_of_lt_length (hd : AllDigits d.digits) (hpoint : 0 < d.point)
    (hlength : d.point.toNat < d.digits.length) :
    Writes (d.digits.take d.point.toNat ++ '.' :: d.digits.drop d.point.toNat) d := by
  have hne : d.digits.take d.point.toNat ≠ [] := by
    apply List.ne_nil_of_length_pos
    rw [List.length_take]
    omega
  have hwhole : AllDigits (d.digits.take d.point.toNat) :=
    fun c hc => hd c (List.mem_of_mem_take hc)
  have hplaces : AllDigits (d.digits.drop d.point.toNat) :=
    fun c hc => hd c (List.mem_of_mem_drop hc)
  have h := IsNumeral.fraction hne hwhole hplaces .absent
  rw [List.append_nil] at h
  have hexponent : (0 : Int) - (d.digits.drop d.point.toNat).length =
      d.point - d.digits.length := by
    rw [List.length_drop]
    omega
  refine ⟨_, _, h, ?_⟩
  rw [List.take_append_drop, hexponent, value]

theorem writes_positional (hd : AllDigits d.digits) (keepPoint : Bool) :
    Writes (positional keepPoint d) d := by
  unfold positional
  split
  · next hpoint => exact writes_of_point_le hd hpoint
  · next hpoint =>
    dsimp only
    split
    · next hlength => exact writes_of_length_le hd (by omega) hlength keepPoint
    · next hlength => exact writes_of_lt_length hd (by omega) (by omega)

theorem writes_scientific (hd : AllDigits d.digits) (hne : d.digits ≠ [])
    (hpoint : (d.point - 1).natAbs ≤ 65536) : Writes (scientific d) d := by
  have hexponent := IsExponent.signed hpoint
  unfold scientific
  dsimp only
  split
  · next c a r heq =>
    rw [heq] at hd
    obtain ⟨hc, hr⟩ := List.forall_mem_cons.1 hd
    have hlead : AllDigits [c] := List.forall_mem_singleton.2 hc
    have h := IsNumeral.fraction (List.cons_ne_nil c []) hlead hr hexponent
    refine ⟨_, _, h, ?_⟩
    rw [value, heq, List.singleton_append]
    congr 2
    simp only [List.length_cons]
    push_cast
    ring
  · next hshort =>
    have hlength : d.digits.length = 1 := by
      rcases hdigits : d.digits with _ | ⟨c, _ | ⟨a, r⟩⟩
      · exact absurd hdigits hne
      · rfl
      · exact absurd hdigits (hshort c a r)
    refine ⟨_, _, .whole hne hd hexponent, ?_⟩
    rw [value, hlength, Nat.cast_one]

/-- The text of a number is a numeral behind its sign, whose decimal is nearest to the number. -/
theorem exists_isNumeral_render (f : Layout) (hx : x.isNaN = false) :
    ∃ cs n k, f.render x = String.ofList (if x.isNegative then '-' :: cs else cs) ∧
      IsNumeral cs n k ∧ ofDecimal x.isNegative n k = x := by
  by_cases hzero : x.significand = 0
  · have hread : ∀ k, ofDecimal x.isNegative 0 k = x := by
      intro k
      rw [ofDecimal, if_pos rfl, zero_eq hzero]
    refine ⟨if f.keepPoint then ['0', '.', '0'] else ['0'], 0, if f.keepPoint then -1 else 0, ?_,
      ?_, hread _⟩
    · rw [Layout.render, if_pos hzero]
    · split
      · exact .fraction (List.cons_ne_nil '0' []) (allDigits_replicate 1) (allDigits_replicate 1)
          .absent
      · exact .whole (List.cons_ne_nil '0' []) (allDigits_replicate 1) .absent
  · have hdigits : AllDigits (shortest f.tieUp x).digits := fun _ => isDigit_of_mem_shortest
    have hnear := isNear_shortest f.tieUp hzero
    obtain ⟨hlow, hhigh⟩ := point_shortest f.tieUp hzero
    obtain ⟨n, k, hcs, hvalue⟩ : Writes
        (if f.isPositional ((shortest f.tieUp x).point - 1) then
          positional f.keepPoint (shortest f.tieUp x)
        else scientific (shortest f.tieUp x)) (shortest f.tieUp x) := by
      split
      · exact writes_positional hdigits f.keepPoint
      · exact writes_scientific hdigits (digits_shortest_ne_nil f.tieUp hzero) (by omega)
    refine ⟨_, n, k, ?_, hcs, ofDecimal_eq_of_isNear hx hzero (by rwa [hvalue])⟩
    rw [Layout.render, if_neg hzero]

/-- **The text of a number is read as the number.** -/
theorem read?_render (f : Layout) (hx : x.isNaN = false) :
    read? (Text.trim (f.render x)) = some x := by
  obtain ⟨cs, n, k, htext, hcs, hnearest⟩ := exists_isNumeral_render f hx
  rw [htext, read?_of_isNumeral hcs, hnearest]

end ContentImport.Decimal
