import ContentImport.Proofs.Number.Integer
import ContentImport.Proofs.Text.Utf8
import ContentImport.Value

/-!
# Values that are read back

Reading a text drops the blanks around numbers and truth values, the case of letters, plus signs and
leading zeros; what is written for the value has none of these. It is read as the value again
(`parse?_text`), whatever the text was that the value was read from. Doubles are left out: what is
not a number is written without its sign.
-/

namespace ContentImport

namespace Value

variable {type : ValueType} {s : String} {v : Value}

/-! ## The text of a value -/

theorem parse?_long_iff {n : Int64} :
    parse? .long s = some (.long n) ↔ Integer.IsDecimal (Text.trim s).toList n.toInt := by
  rw [parse?, Option.map_eq_some_iff, ← Integer.long?_eq_some_iff]
  simp

theorem parse?_text_long (n : Int64) : parse? .long (text (.long n)) = some (.long n) := by
  rw [parse?_long_iff, text, Integer.trim_render, ← Integer.signed?_eq_some_iff]
  exact Integer.signed?_render n.toInt

theorem parse?_text_boolean (b : Bool) :
    parse? .boolean (text (.boolean b)) = some (.boolean b) := by
  cases b <;> decide +kernel

/-- **A value is read back from its text,** if it is no double. -/
theorem parse?_text (htype : type ≠ .double) (hv : parse? type s = some v) :
    parse? v.type v.text = some v := by
  cases type <;> rw [parse?] at hv
  case double => exact absurd rfl htype
  case long =>
    obtain ⟨n, -, rfl⟩ := Option.map_eq_some_iff.1 hv
    exact parse?_text_long n
  case boolean =>
    obtain ⟨b, -, rfl⟩ := Option.map_eq_some_iff.1 hv
    exact parse?_text_boolean b
  case date =>
    split at hv
    · next hdate =>
      obtain rfl := Option.some.inj hv
      exact if_pos hdate
    · cases hv
  case binary =>
    obtain rfl := Option.some.inj hv
    rw [type, text, parse?, Utf8.decodeLossy_encode]
  all_goals
    obtain rfl := Option.some.inj hv
    rfl

/-- **What is read once is read again from its text,** as the same value, if it is no double. In
particular that holds of every signed 64-bit integer, in any decimal notation of it and with any
blanks around it. -/
theorem parse_text :
    (∀ (type : ValueType) (s : String) (v : Value), type ≠ .double → parse type s = .ok v →
      v.type = (if type = .undefined then .string else type) ∧ parse v.type v.text = .ok v) ∧
    ∀ (n : Int64) (before digits after : List Char), (∀ c ∈ before, Text.isBlank c = true) →
      Integer.IsDecimal digits n.toInt → (∀ c ∈ after, Text.isBlank c = true) →
      parse .long (String.ofList (before ++ digits ++ after)) = .ok (.long n) ∧
        parse .long (text (.long n)) = .ok (.long n) := by
  constructor
  · intro type s v htype hv
    rw [parse_eq_ok_iff] at hv ⊢
    exact ⟨type_of_parse? hv, parse?_text htype hv⟩
  · intro n before digits after hbefore hdecimal hafter
    rw [parse_eq_ok_iff, parse_eq_ok_iff, parse?_long_iff]
    refine ⟨?_, parse?_text_long n⟩
    have htrim := Text.trim_between hbefore hdecimal.ne_nil hdecimal.isBlank_eq_false hafter
    rwa [htrim, String.toList_ofList]

/-- The greatest long with a plus sign between blanks, and bytes that are a letter. -/
theorem parse_text_padded :
    ((∀ c ∈ [' ', '\t'], Text.isBlank c = true) ∧
      Integer.IsDecimal "+9223372036854775807".toList (9223372036854775807 : Int64).toInt ∧
      (∀ c ∈ ['\n'], Text.isBlank c = true) ∧
      parse .long (String.ofList ([' ', '\t'] ++ "+9223372036854775807".toList ++ ['\n'])) =
        .ok (.long 9223372036854775807) ∧
      parse .long (text (.long 9223372036854775807)) = .ok (.long 9223372036854775807)) ∧
    (ValueType.binary ≠ .double ∧ parse .binary "é" = .ok (.binary [0xC3, 0xA9]) ∧
      (Value.binary [0xC3, 0xA9]).type = .binary ∧
      parse .binary (text (.binary [0xC3, 0xA9])) = .ok (.binary [0xC3, 0xA9])) := by
  have hbefore : ∀ c ∈ [' ', '\t'], Text.isBlank c = true := List.all_eq_true.1 (by decide)
  have hafter : ∀ c ∈ ['\n'], Text.isBlank c = true := List.all_eq_true.1 (by decide)
  have hdecimal : Integer.IsDecimal "+9223372036854775807".toList
      (9223372036854775807 : Int64).toInt := Integer.signed?_eq_some_iff.1 (by decide +kernel)
  have hbinary : parse .binary "é" = .ok (.binary [0xC3, 0xA9]) := by decide +kernel
  obtain ⟨hread, hprinted⟩ := parse_text.2 _ _ _ _ hbefore hdecimal hafter
  obtain ⟨htype, htext⟩ := parse_text.1 _ _ _ (by decide) hbinary
  exact ⟨⟨hbefore, hdecimal, hafter, hread, hprinted⟩, by decide, hbinary, htype, htext⟩

end Value

end ContentImport
