/-!
# Text

Operations on text that the formats of an import share. A text is read as its list of
characters.

* `Text.trim` removes blanks, the characters with the Unicode property `White_Space`, at both
  ends.
* `Text.split` cuts at every occurrence of a character and `Text.cutLast` at the last one, where
  nothing is lost (`append_of_cutLast`).
* `Text.lower` and `Text.sameLetters` fold the ASCII letters and leave all others alone.
-/

namespace ContentImport.Text

/-! ## Character classes -/

/-- The characters with the Unicode property `White_Space`. -/
def isBlank (c : Char) : Bool :=
  let n := c.toNat
  (9 ≤ n && n ≤ 13) || n == 0x20 || n == 0x85 || n == 0xA0 || n == 0x1680 ||
    (0x2000 ≤ n && n ≤ 0x200A) || n == 0x2028 || n == 0x2029 || n == 0x202F || n == 0x205F ||
    n == 0x3000

/-- The ten ASCII digits. -/
def isDigit (c : Char) : Bool := '0' ≤ c && c ≤ '9'

/-- The value of an ASCII digit. -/
def digitValue (c : Char) : Nat := c.toNat - '0'.toNat

/-- The value of a hexadecimal digit of either case. -/
def hexValue? (c : Char) : Option Nat :=
  if isDigit c then some (digitValue c)
  else if 'a' ≤ c && c ≤ 'f' then some (c.toNat - 'a'.toNat + 10)
  else if 'A' ≤ c && c ≤ 'F' then some (c.toNat - 'A'.toNat + 10)
  else none

/-- The lower-case hexadecimal digit of a number below sixteen. -/
def hexDigit (n : Nat) : Char :=
  if n < 10 then Char.ofNat ('0'.toNat + n) else Char.ofNat ('a'.toNat + n - 10)

/-! ## Letter case -/

/-- The small form of an ASCII capital. -/
def lowerChar (c : Char) : Char :=
  if 'A' ≤ c && c ≤ 'Z' then Char.ofNat (c.toNat + 32) else c

/-- The text with its ASCII capitals in small letters. -/
def lower (s : String) : String := String.ofList (s.toList.map lowerChar)

/-- Two texts that differ at most in the case of ASCII letters. -/
def sameLetters (s t : String) : Bool := s.toList.map lowerChar == t.toList.map lowerChar

/-! ## Blanks -/

/-- The text without the blanks at its end. -/
def trimEnd (cs : List Char) : List Char := (cs.reverse.dropWhile isBlank).reverse

/-- The text without the blanks at both ends. -/
def trim (s : String) : String := String.ofList (trimEnd (s.toList.dropWhile isBlank))

/-! ## Cutting -/

/-- The pieces between the occurrences of a character, always at least one. -/
def pieces (sep : Char) : List Char → List (List Char)
  | [] => [[]]
  | c :: r =>
    if c = sep then [] :: pieces sep r
    else match pieces sep r with
      | [] => [[c]]
      | p :: ps => (c :: p) :: ps

theorem pieces_ne_nil (sep : Char) (cs : List Char) : pieces sep cs ≠ [] := by
  cases cs with
  | nil => simp [pieces]
  | cons c r =>
    unfold pieces
    split
    · simp
    · split <;> simp

/-- The pieces of a text between the occurrences of a character. -/
def split (sep : Char) (s : String) : List String := (pieces sep s.toList).map String.ofList

/-- What stands before and after the last occurrence of a character. -/
def cutLast (sep : Char) : List Char → Option (List Char × List Char)
  | [] => none
  | c :: r =>
    match cutLast sep r with
    | some (a, b) => some (c :: a, b)
    | none => if c = sep then some ([], r) else none

theorem append_of_cutLast {sep : Char} {cs a b : List Char} (h : cutLast sep cs = some (a, b)) :
    cs = a ++ sep :: b := by
  induction cs generalizing a b with
  | nil => simp [cutLast] at h
  | cons c r ih =>
    unfold cutLast at h
    split at h
    · next a' b' h' =>
      obtain ⟨rfl, rfl⟩ : c :: a' = a ∧ b' = b := by simpa using h
      rw [ih h']; rfl
    · split at h
      · next hc =>
        obtain ⟨rfl, rfl⟩ : [] = a ∧ r = b := by simpa using h
        rw [hc]; rfl
      · simp at h

theorem cutLast_eq_none_iff {sep : Char} {cs : List Char} :
    cutLast sep cs = none ↔ sep ∉ cs := by
  induction cs with
  | nil => simp [cutLast]
  | cons c r ih =>
    unfold cutLast
    cases h : cutLast sep r with
    | some p =>
      have := append_of_cutLast (a := p.1) (b := p.2) (by rw [h])
      simp [this]
    | none =>
      have := ih.1 h
      by_cases hc : c = sep
      · simp [hc]
      · simp [hc, this, Ne.symm hc]

/-- What follows `lead` in a text that begins with it. -/
def after? (lead s : String) : Option String :=
  (lead.toList.isPrefixOf? s.toList).map String.ofList

/-- Whether a text begins with `lead`. -/
def startsWith (lead s : String) : Bool := lead.toList.isPrefixOf s.toList

/-- The text without the leading occurrences of a character. -/
def dropStart (c : Char) (s : String) : String := String.ofList (s.toList.dropWhile (· == c))

/-- The text without the trailing occurrences of a character. -/
def dropEnd (c : Char) (s : String) : String :=
  String.ofList (s.toList.reverse.dropWhile (· == c)).reverse

/-- What follows the last occurrence of a character, or the whole text. -/
def afterLast (sep : Char) (s : String) : String :=
  match cutLast sep s.toList with
  | some (_, b) => String.ofList b
  | none => s

/-- The texts joined with `sep` between them. -/
def join (sep : String) : List String → String
  | [] => ""
  | [s] => s
  | s :: r => s ++ sep ++ join sep r

end ContentImport.Text
