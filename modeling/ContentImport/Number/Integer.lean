import ContentImport.Text.Basic

/-!
# Integers as decimal text

* `Integer.digits` writes a natural number and `Integer.ofDigits?` reads one from ASCII digits.
* `Integer.signed?` reads an optional sign and digits; `Integer.long?` adds the range of signed
  64-bit integers.

Powers with natural exponents are those of the core library, whatever else is imported (`natPower`).
-/

namespace ContentImport

@[default_instance 20000]
instance (priority := 20000) natPower {α : Type} [NatPow α] : Pow α Nat := instPowNat

namespace Integer

/-- The decimal digits of a natural number. -/
def digits (n : Nat) : List Char := Nat.toDigits 10 n

/-- The number with a non-empty list of ASCII digits, after the digits of `acc`. -/
def accumulate (acc : Nat) : List Char → Option Nat
  | [] => some acc
  | c :: r => if Text.isDigit c then accumulate (acc * 10 + Text.digitValue c) r else none

/-- The number that one or more ASCII digits write. -/
def ofDigits? (cs : List Char) : Option Nat := if cs.isEmpty then none else accumulate 0 cs

/-- The integer that an optional sign and one or more ASCII digits write. -/
def signed? : List Char → Option Int
  | '-' :: r => (ofDigits? r).map fun n => -(n : Int)
  | '+' :: r => (ofDigits? r).map Int.ofNat
  | r => (ofDigits? r).map Int.ofNat

/-- The number that an optional plus sign and one or more ASCII digits write. -/
def unsigned? : List Char → Option Nat
  | '+' :: r => ofDigits? r
  | r => ofDigits? r

/-- The integer as a signed 64-bit word, if it is one. -/
def toLong? (n : Int) : Option Int64 :=
  if -2 ^ 63 ≤ n ∧ n < 2 ^ 63 then some (Int64.ofInt n) else none

/-- The signed 64-bit integer that a text writes. -/
def long? (s : String) : Option Int64 := (signed? s.toList).bind toLong?

/-- The decimal text of an integer. -/
def render (n : Int) : String :=
  String.ofList (if n < 0 then '-' :: digits n.natAbs else digits n.natAbs)

end Integer

end ContentImport
