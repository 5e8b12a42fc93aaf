import ContentImport.Text.Utf8
import Mathlib.Data.List.Basic

/-!
# Texts that are read back from their bytes

The bytes of a character are read as that character (`scan_utf8EncodeChar`), one case for each
length that they can have. So the bytes of a text have no faults, and they are read as the text
(`decodeLossy_encode`).
-/

namespace ContentImport.Utf8

variable {b next : UInt8} {r : Bytes}

/-! ## First bytes -/

/-- The reading of a first byte in terms of its number. -/
theorem start_eq (b : UInt8) : start b =
    if b.toNat ≤ 0x7F then .char (Char.ofNat b.toNat)
    else if b.toNat < 0xC2 then .fault
    else if b.toNat ≤ 0xDF then .opened ⟨0, 0x80, 0xBF, b.toNat % 32⟩
    else if b.toNat ≤ 0xEF then
      .opened ⟨1, if b.toNat = 0xE0 then 0xA0 else 0x80, if b.toNat = 0xED then 0x9F else 0xBF,
        b.toNat % 16⟩
    else if b.toNat ≤ 0xF4 then
      .opened ⟨2, if b.toNat = 0xF0 then 0x90 else 0x80, if b.toNat = 0xF4 then 0x8F else 0xBF,
        b.toNat % 8⟩
    else .fault := by
  simp only [start, UInt8.le_iff_toNat_le, UInt8.lt_iff_toNat_lt, ← UInt8.toNat_inj]
  rfl

theorem scan_opened {o : Opened} (h : start b = .opened o) :
    scan none (b :: r) = scan (some o) r := by
  rw [scan, h]

/-! ## Bytes that continue a character -/

/-- The byte is the last one of its character. -/
theorem scan_last {low high : UInt8} {bits : Nat} (hlow : low.toNat ≤ b.toNat)
    (hhigh : b.toNat ≤ high.toNat) :
    scan (some ⟨0, low, high, bits⟩) (b :: r) =
      some (Char.ofNat (bits * 64 + b.toNat % 64)) :: scan none r := by
  have hrange : (low ≤ b && b ≤ high) = true := by
    simp [UInt8.le_iff_toNat_le, hlow, hhigh]
  rw [scan]
  dsimp only
  rw [if_pos hrange]

/-- Others follow the byte. -/
theorem scan_next {owed : Nat} {low high : UInt8} {bits : Nat} (hlow : low.toNat ≤ b.toNat)
    (hhigh : b.toNat ≤ high.toNat) :
    scan (some ⟨owed + 1, low, high, bits⟩) (b :: r) =
      scan (some ⟨owed, 0x80, 0xBF, bits * 64 + b.toNat % 64⟩) r := by
  have hrange : (low ≤ b && b ≤ high) = true := by
    simp [UInt8.le_iff_toNat_le, hlow, hhigh]
  rw [scan]
  dsimp only
  rw [if_pos hrange]

/-! ## Characters -/

theorem toNat_byte {n : Nat} (h : n < 256) : (UInt8.ofNat n).toNat = n :=
  UInt8.toNat_ofNat_of_lt' h

/-- A byte that is not the first one of its character has six bits of it. -/
theorem toNat_continuation (n : Nat) : (UInt8.ofNat (n % 64 + 128)).toNat = n % 64 + 128 :=
  toNat_byte (by omega)

theorem le_continuation (n : Nat) : (0x80 : UInt8).toNat ≤ (UInt8.ofNat (n % 64 + 128)).toNat ∧
    (UInt8.ofNat (n % 64 + 128)).toNat ≤ (0xBF : UInt8).toNat := by
  rw [toNat_continuation]
  change 128 ≤ _ ∧ _ ≤ 191
  omega

theorem scan_two {v : Nat} (hlow : 0x7F < v) (hhigh : v ≤ 0x7FF) :
    scan none (UInt8.ofNat (v / 64 % 32 + 192) :: UInt8.ofNat (v % 64 + 128) :: r) =
      some (Char.ofNat v) :: scan none r := by
  have hfirst : (UInt8.ofNat (v / 64 % 32 + 192)).toNat = v / 64 % 32 + 192 :=
    toNat_byte (by omega)
  have hstart := start_eq (UInt8.ofNat (v / 64 % 32 + 192))
  rw [hfirst, if_neg (by omega), if_neg (by omega), if_pos (by omega)] at hstart
  obtain ⟨hleast, hmost⟩ := le_continuation v
  rw [scan_opened hstart, scan_last hleast hmost, toNat_continuation]
  congr 3
  omega

/-- The second byte tells the characters from longer notations and from surrogates. -/
theorem scan_three {v : Nat} (hlow : 0x7FF < v) (hhigh : v ≤ 0xFFFF)
    (hvalid : v < 0xD800 ∨ 0xDFFF < v) :
    scan none (UInt8.ofNat (v / 4096 % 16 + 224) :: UInt8.ofNat (v / 64 % 64 + 128) ::
        UInt8.ofNat (v % 64 + 128) :: r) =
      some (Char.ofNat v) :: scan none r := by
  have hfirst : (UInt8.ofNat (v / 4096 % 16 + 224)).toNat = v / 4096 % 16 + 224 :=
    toNat_byte (by omega)
  have hstart := start_eq (UInt8.ofNat (v / 4096 % 16 + 224))
  rw [hfirst, if_neg (by omega), if_neg (by omega), if_neg (by omega), if_pos (by omega)] at hstart
  have hsecond : (if v / 4096 % 16 + 224 = 0xE0 then 0xA0 else 0x80 : UInt8).toNat ≤
      (UInt8.ofNat (v / 64 % 64 + 128)).toNat := by
    rw [toNat_continuation]
    split
    · change 160 ≤ _
      omega
    · change 128 ≤ _
      omega
  have hsecond' : (UInt8.ofNat (v / 64 % 64 + 128)).toNat ≤
      (if v / 4096 % 16 + 224 = 0xED then 0x9F else 0xBF : UInt8).toNat := by
    rw [toNat_continuation]
    split
    · change _ ≤ 159
      omega
    · change _ ≤ 191
      omega
  obtain ⟨hleast, hmost⟩ := le_continuation v
  rw [scan_opened hstart, scan_next hsecond hsecond', scan_last hleast hmost,
    toNat_continuation, toNat_continuation]
  congr 3
  omega

/-- The second byte tells the characters from longer notations and from what is no character. -/
theorem scan_four {v : Nat} (hlow : 0xFFFF < v) (hhigh : v < 0x110000) :
    scan none (UInt8.ofNat (v / 262144 % 8 + 240) :: UInt8.ofNat (v / 4096 % 64 + 128) ::
        UInt8.ofNat (v / 64 % 64 + 128) :: UInt8.ofNat (v % 64 + 128) :: r) =
      some (Char.ofNat v) :: scan none r := by
  have hfirst : (UInt8.ofNat (v / 262144 % 8 + 240)).toNat = v / 262144 % 8 + 240 :=
    toNat_byte (by omega)
  have hstart := start_eq (UInt8.ofNat (v / 262144 % 8 + 240))
  rw [hfirst, if_neg (by omega), if_neg (by omega), if_neg (by omega), if_neg (by omega),
    if_pos (by omega)] at hstart
  have hsecond : (if v / 262144 % 8 + 240 = 0xF0 then 0x90 else 0x80 : UInt8).toNat ≤
      (UInt8.ofNat (v / 4096 % 64 + 128)).toNat := by
    rw [toNat_continuation]
    split
    · change 144 ≤ _
      omega
    · change 128 ≤ _
      omega
  have hsecond' : (UInt8.ofNat (v / 4096 % 64 + 128)).toNat ≤
      (if v / 262144 % 8 + 240 = 0xF4 then 0x8F else 0xBF : UInt8).toNat := by
    rw [toNat_continuation]
    split
    · change _ ≤ 143
      omega
    · change _ ≤ 191
      omega
  obtain ⟨hthird, hthird'⟩ := le_continuation (v / 64)
  obtain ⟨hleast, hmost⟩ := le_continuation v
  rw [scan_opened hstart, scan_next hsecond hsecond', scan_next hthird hthird',
    scan_last hleast hmost, toNat_continuation, toNat_continuation, toNat_continuation]
  congr 3
  omega

/-- **The bytes of a character are read as that character.** -/
theorem scan_utf8EncodeChar (c : Char) (r : Bytes) :
    scan none (String.utf8EncodeChar c ++ r) = some c :: scan none r := by
  obtain ⟨v, hv⟩ : ∃ v, c.val.toNat = v := ⟨_, rfl⟩
  have hvalid : v < 0xD800 ∨ 0xDFFF < v ∧ v < 0x110000 := hv ▸ c.valid
  have hc : Char.ofNat v = c := by rw [← hv]; exact Char.ofNat_toNat c
  unfold String.utf8EncodeChar
  dsimp only
  rw [hv]
  split
  · next h1 =>
    have hbyte : (UInt8.ofNat v).toNat = v := toNat_byte (by omega)
    have hstart : start (UInt8.ofNat v) = .char c := by
      rw [start_eq, hbyte, if_pos h1, hc]
    rw [List.singleton_append, scan, hstart]
  split
  · exact hc ▸ scan_two (by omega) (by omega)
  split
  · exact hc ▸ scan_three (by omega) (by omega) (by omega)
  · exact hc ▸ scan_four (by omega) (by omega)

/-- The bytes of a text have no faults. -/
theorem scan_encode (s : String) : scan none (encode s) = s.toList.map some := by
  rw [encode]
  induction s.toList with
  | nil => rfl
  | cons c cs ih => rw [List.flatMap_cons, scan_utf8EncodeChar, ih, List.map_cons]

/-- **The bytes of a text are read as the text.** -/
theorem decodeLossy_encode (s : String) : decodeLossy (encode s) = s := by
  rw [decodeLossy, scan_encode, List.map_map]
  change String.ofList (s.toList.map id) = s
  rw [List.map_id, String.ofList_toList]

end ContentImport.Utf8
