import ContentImport.Number.Integer

/-!
# Binary floating point with 64 bits

A `Binary64` is a bit pattern. A finite one stands for `significand * 2 ^ exponent` with a sign.

* `Binary64.round` is the nearest number to a quotient of natural numbers, a half going to the
  even neighbour; all arithmetic is done on exact quotients and rounded once.
* `Binary64.read?` reads decimal text, the names of the infinities and `nan`.
-/

namespace ContentImport

/-- A double-precision number, given by its bits. Two numbers are equal if their bits are. -/
structure Binary64 where
  bits : UInt64
  deriving DecidableEq, Inhabited

namespace Binary64

/-! ## Parts -/

/-- The sign bit. -/
def isNegative (x : Binary64) : Bool := 2 ^ 63 ≤ x.bits.toNat

/-- The eleven exponent bits. -/
def exponentBits (x : Binary64) : Nat := x.bits.toNat / 2 ^ 52 % 2 ^ 11

/-- The fraction bits. -/
def fractionBits (x : Binary64) : Nat := x.bits.toNat % 2 ^ 52

/-- The exponent bits of the infinities and of what is not a number. -/
def reserved : Nat := 2 ^ 11 - 1

def isNaN (x : Binary64) : Bool := x.exponentBits == reserved && x.fractionBits != 0

def isInfinite (x : Binary64) : Bool := x.exponentBits == reserved && x.fractionBits == 0

def isFinite (x : Binary64) : Bool := x.exponentBits != reserved

/-- The number of units of a finite number. -/
def significand (x : Binary64) : Nat :=
  if x.exponentBits = 0 then x.fractionBits else 2 ^ 52 + x.fractionBits

/-- The power of two that is the unit of a finite number. -/
def exponent (x : Binary64) : Int :=
  if x.exponentBits = 0 then -1074 else (x.exponentBits : Int) - 1075

/-- The number with a sign and the remaining bits. -/
def ofMagnitude (negative : Bool) (magnitude : Nat) : Binary64 :=
  ⟨UInt64.ofNat (if negative then 2 ^ 63 + magnitude else magnitude)⟩

def zero (negative : Bool) : Binary64 := ofMagnitude negative 0

def infinity (negative : Bool) : Binary64 := ofMagnitude negative (reserved * 2 ^ 52)

/-- The quiet pattern that is not a number. -/
def nan (negative : Bool) : Binary64 := ofMagnitude negative (reserved * 2 ^ 52 + 2 ^ 51)

/-! ## Rounding -/

/-- The natural number nearest to a quotient, a half going to the even neighbour. -/
def nearest (num den : Nat) : Nat :=
  let q := num / den
  let twice := 2 * (num % den)
  if den < twice || (twice == den && q % 2 == 1) then q + 1 else q

/-- The greatest `k` with `2 ^ k ≤ num / den`, for positive numbers. -/
def floorLog2 (num den : Nat) : Int :=
  let k : Int := (num.log2 : Int) - den.log2
  if num * 2 ^ (-k).toNat < den * 2 ^ k.toNat then k - 1 else k

/-- The number nearest to `num / den`, a half going to the even neighbour and what is too large
to infinity. -/
def round (negative : Bool) (num den : Nat) : Binary64 :=
  if num = 0 then zero negative
  else
    let e : Int := max (floorLog2 num den - 52) (-1074)
    let units := nearest (num * 2 ^ (-e).toNat) (den * 2 ^ e.toNat)
    -- the implicit leading bit of `units` carries into the exponent bits
    ofMagnitude negative (min ((e + 1074).toNat * 2 ^ 52 + units) (reserved * 2 ^ 52))

/-- The number nearest to a natural number. -/
def ofNat (n : Nat) : Binary64 := round false n 1

/-- The numerator of a finite number's magnitude. -/
def num (x : Binary64) : Nat := x.significand * 2 ^ x.exponent.toNat

/-- The denominator of a finite number's magnitude. -/
def den (x : Binary64) : Nat := 2 ^ (-x.exponent).toNat

/-- The number with the other sign. -/
def neg (x : Binary64) : Binary64 := ⟨x.bits ^^^ 0x8000000000000000⟩

/-- The product of two finite numbers. -/
def mul (x y : Binary64) : Binary64 :=
  round (x.isNegative != y.isNegative) (x.num * y.num) (x.den * y.den)

/-- The quotient of two finite numbers, the second not zero. -/
def div (x y : Binary64) : Binary64 :=
  round (x.isNegative != y.isNegative) (x.num * y.den) (x.den * y.num)

/-- The bits as an integer that grows with the number. -/
def rank (x : Binary64) : Int :=
  if x.isNegative then -((x.bits.toNat % 2 ^ 63 : Nat) : Int) else (x.bits.toNat : Int)

/-- Whether the first number is below the second; never if one is not a number. -/
def lt (x y : Binary64) : Bool := !x.isNaN && !y.isNaN && x.rank < y.rank

/-! ## Decimal text -/

/-- The number nearest to `digits * 10 ^ exponent`. -/
def ofDecimal (negative : Bool) (digits : Nat) (exponent : Int) : Binary64 :=
  if digits = 0 then zero negative
  else
    -- the value lies in `[10 ^ (size - 1), 10 ^ size)`
    let size := ((Integer.digits digits).length : Int) + exponent
    if 310 < size then infinity negative
    else if size < -330 then zero negative
    else round negative (digits * 10 ^ exponent.toNat) (10 ^ (-exponent).toNat)

/-- The exponent that a text after its mark writes; it stops growing where it no longer
matters. -/
def readExponent? (cs : List Char) : Option Int :=
  (Integer.signed? cs).map fun e => max (-65536) (min 65536 e)

/-- The number that digits with an optional point and an optional exponent write. -/
def readDecimal? (negative : Bool) (cs : List Char) : Option Binary64 :=
  let whole := cs.takeWhile Text.isDigit
  let r := cs.dropWhile Text.isDigit
  let (places, r) := match r with
    | '.' :: r => (r.takeWhile Text.isDigit, r.dropWhile Text.isDigit)
    | r => ([], r)
  match Integer.ofDigits? (whole ++ places) with
  | none => none
  | some n =>
    let exponent? := match r with
      | [] => some 0
      | c :: r => if c == 'e' || c == 'E' then readExponent? r else none
    exponent?.map fun e => ofDecimal negative n (e - places.length)

/-- The magnitude that a text without a sign writes. -/
def readUnsigned? (negative : Bool) (cs : List Char) : Option Binary64 :=
  let name := cs.map Text.lowerChar
  if name == "inf".toList || name == "infinity".toList then some (infinity negative)
  else if name == "nan".toList then some (nan negative)
  else readDecimal? negative cs

/-- The number that a text writes: an optional sign, and a decimal number, `inf`, `infinity` or
`nan` in letters of any case. -/
def read? (s : String) : Option Binary64 :=
  match s.toList with
  | '-' :: r => readUnsigned? true r
  | '+' :: r => readUnsigned? false r
  | r => readUnsigned? false r

end Binary64

end ContentImport
