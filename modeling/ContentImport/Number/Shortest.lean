import ContentImport.Number.Binary64

/-!
# Shortest decimal text

A positive finite number is written with the fewest decimal digits that read back to it, and of
those the decimal nearest to it.

* `Decimal.shortest` finds the digits: on the grids with 1, 2, … 17 digits it tests the two
  neighbours of the number.
* `Decimal.Layout` holds what a format decides: where positional notation ends and which way a
  tie goes. `Layout.render` writes a number with it.
-/

namespace ContentImport

/-- A positive decimal number `0.d₁d₂… * 10 ^ point`. -/
structure Decimal where
  digits : List Char
  point : Int

namespace Decimal

/-! ## Digits -/

/-- The reals that round to a number, as a range of multiples of a unit: `low / den` to
`high / den` around `mid / den`, with the ends if `closed`. -/
structure Interval where
  low : Nat
  mid : Nat
  high : Nat
  den : Nat
  closed : Bool

/-- The reals that round to a positive finite number. Below a power of two the spacing is
halved. -/
def interval (x : Binary64) : Interval :=
  let m := x.significand
  let e := x.exponent
  let up := 2 ^ e.toNat
  let below := if m = 2 ^ 52 ∧ 1 < x.exponentBits then 1 else 2
  { low := (4 * m - below) * up
    mid := 4 * m * up
    high := (4 * m + 2) * up
    den := 4 * 2 ^ (-e).toNat
    closed := m % 2 == 0 }

/-- Whether `n * 10 ^ g` lies in an interval. -/
def Interval.holds (i : Interval) (n : Nat) (g : Int) : Bool :=
  let v := n * 10 ^ g.toNat * i.den
  let s := 10 ^ (-g).toNat
  if i.closed then i.low * s ≤ v && v ≤ i.high * s else i.low * s < v && v < i.high * s

/-- The multiple of `10 ^ g` in the interval that is nearest to its middle, if one of the two
neighbours of the middle is in the interval; at a tie the upper one if `up`, else the even one. -/
def Interval.pick (i : Interval) (up : Bool) (g : Int) : Option Nat :=
  let num := i.mid * 10 ^ (-g).toNat
  let den := i.den * 10 ^ g.toNat
  let n := num / den
  match i.holds n g, i.holds (n + 1) g with
  | false, false => none
  | true, false => some n
  | false, true => some (n + 1)
  | true, true =>
    let twice := 2 * (num % den)
    if twice < den then some n
    else if den < twice then some (n + 1)
    else if up || n % 2 == 1 then some (n + 1) else some n

/-- The first grid with a hit, from the one with `size` digits on. -/
def Interval.search (i : Interval) (up : Bool) (point : Int) : Nat → Nat → Nat × Int
  | 0, size => (i.mid / i.den, point - size)
  | fuel + 1, size =>
    match i.pick up (point - size) with
    | some n => (n, point - size)
    | none => i.search up point fuel (size + 1)

/-- The `k` with `10 ^ (k - 1) ≤ num / den < 10 ^ k`, near the estimate `k`. -/
def decimalPoint (num den : Nat) : Nat → Int → Int
  | 0, k => k
  | fuel + 1, k =>
    if num * 10 ^ (-k).toNat ≥ den * 10 ^ k.toNat then decimalPoint num den fuel (k + 1)
    else if num * 10 ^ (1 - k).toNat < den * 10 ^ (k - 1).toNat then
      decimalPoint num den fuel (k - 1)
    else k

/-- The digits without the zeros at their end. -/
def dropZeros (cs : List Char) : List Char := (cs.reverse.dropWhile (· == '0')).reverse

/-- The shortest decimal that reads back to a positive finite number, and of those the nearest. -/
def shortest (up : Bool) (x : Binary64) : Decimal :=
  let i := interval x
  let estimate : Int := Binary64.floorLog2 i.mid i.den * 30103 / 100000
  let point := decimalPoint i.mid i.den 4 estimate
  let (n, g) := i.search up point 18 1
  let ds := Integer.digits n
  { digits := dropZeros ds, point := g + ds.length }

/-! ## Layout -/

/-- What a format decides about the text of a number: the least and the greatest exponent of
scientific notation that is written positionally, whether a whole number keeps `.0`, whether a
positive exponent has a sign, and where a tie goes. -/
structure Layout where
  isPositional : Int → Bool
  keepPoint : Bool
  tieUp : Bool

/-- Positional text of a decimal. -/
def positional (keepPoint : Bool) (d : Decimal) : List Char :=
  if d.point ≤ 0 then '0' :: '.' :: List.replicate (-d.point).toNat '0' ++ d.digits
  else
    let n := d.point.toNat
    if d.digits.length ≤ n then
      d.digits ++ List.replicate (n - d.digits.length) '0' ++ (if keepPoint then ['.', '0'] else [])
    else d.digits.take n ++ '.' :: d.digits.drop n

/-- One digit, the others behind a point, and a signed exponent. -/
def scientific (d : Decimal) : List Char :=
  let e := d.point - 1
  let mantissa := match d.digits with
    | c :: r@(_ :: _) => c :: '.' :: r
    | cs => cs
  mantissa ++ 'e' :: (if e < 0 then '-' else '+') :: Integer.digits e.natAbs

/-- The text of a finite number. -/
def Layout.render (f : Layout) (x : Binary64) : String :=
  let magnitude :=
    if x.significand = 0 then (if f.keepPoint then ['0', '.', '0'] else ['0'])
    else
      let d := shortest f.tieUp x
      if f.isPositional (d.point - 1) then positional f.keepPoint d else scientific d
  String.ofList (if x.isNegative then '-' :: magnitude else magnitude)

/-- Positional notation for every number, whole numbers without a point. -/
def plain : Layout := { isPositional := fun _ => true, keepPoint := false, tieUp := true }

/-- The text of any number in positional notation, with names for what is not finite. -/
def renderPlain (x : Binary64) : String :=
  if x.isNaN then "NaN"
  else if x.isInfinite then (if x.isNegative then "-inf" else "inf")
  else plain.render x

end Decimal

end ContentImport
