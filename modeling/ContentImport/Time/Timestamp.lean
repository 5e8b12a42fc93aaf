import ContentImport.Number.Integer
import ContentImport.Time.Calendar

/-!
# Moments as text

A moment is a number of milliseconds since the beginning of 1970 in universal time.

* `Timestamp.isDateText` is the shape that the text of a date value has.
* `Timestamp.render?` writes a moment, and `Timestamp.read?` reads date texts and what
  `render?` writes.
* `Timestamp.readSeconds?` reads the looser form without fractions of a second, in which numbers
  may be short and blanks may stand before them.
-/

namespace ContentImport.Timestamp

/-! ## Moments -/

/-- Local time as a text gives it: seconds run to 60 for a leap second, the offset from universal
time is in seconds. -/
structure Clock where
  date : Calendar.Date
  hour : Nat
  minute : Nat
  second : Nat
  millis : Nat
  offset : Int

/-- Whether the year is one in which a moment can lie. -/
def inRange (days : Int) : Bool :=
  let year := (Calendar.date days).year
  Calendar.firstYear ≤ year && year ≤ Calendar.lastYear

/-- The moment of a local time, if it is one. -/
def Clock.moment? (c : Clock) : Option Int :=
  if c.date.isValid && c.hour ≤ 23 && c.minute ≤ 59 && c.second ≤ 60 && c.offset.natAbs < 86400 &&
      Calendar.firstYear ≤ c.date.year && c.date.year ≤ Calendar.lastYear then
    let seconds : Int :=
      Calendar.dayNumber c.date * 86400 + (c.hour * 3600 + c.minute * 60 + min c.second 59 : Nat)
        - c.offset
    if inRange (seconds / 86400) then
      some (seconds * 1000 + (c.millis + (if c.second = 60 then 1000 else 0) : Nat))
    else none
  else none

/-! ## Writing -/

/-- The last digits of a number, as many as there are places. -/
def padded (places n : Nat) : List Char :=
  let ds := Integer.digits n
  List.replicate (places - ds.length) '0' ++ ds

/-- A year, with four digits if it has no more and else with a sign. -/
def renderYear (year : Int) : List Char :=
  if 0 ≤ year ∧ year ≤ 9999 then padded 4 year.natAbs
  else (if year < 0 then '-' else '+') :: padded 4 year.natAbs

/-- The text of a moment in universal time with milliseconds, if its year is in range. -/
def render? (moment : Int) : Option String :=
  let days := moment / 86400000
  let rest := (moment % 86400000).toNat
  if inRange days then
    let d := Calendar.date days
    some (String.ofList (renderYear d.year ++ '-' :: padded 2 d.month ++ '-' :: padded 2 d.day ++
      'T' :: padded 2 (rest / 3600000) ++ ':' :: padded 2 (rest / 60000 % 60) ++
      ':' :: padded 2 (rest / 1000 % 60) ++ '.' :: padded 3 (rest % 1000) ++ "+00:00".toList))
  else none

/-! ## Reading -/

/-- Reads one part of a text and leaves the rest. -/
abbrev Reader (α : Type) := List Char → Option (α × List Char)

/-- Reads a character. -/
def literal (c : Char) : Reader Unit
  | [] => none
  | x :: r => if x = c then some ((), r) else none

/-- Reads at least `least` and at most `most` digits, as many as there are. -/
def number (least most : Nat) : Reader Nat := fun cs =>
  let ds := (cs.take most).takeWhile Text.isDigit
  if ds.length < least then none
  else (Integer.ofDigits? ds).map fun n => (n, cs.drop ds.length)

/-- Reads a number of at most `most` digits after blanks. -/
def loose (most : Nat) : Reader Nat := fun cs => number 1 most (cs.dropWhile Text.isBlank)

/-- Reads a year after blanks: any number of digits behind a sign, else at most four. -/
def looseYear : Reader Int := fun cs =>
  match cs.dropWhile Text.isBlank with
  | '-' :: r => (number 1 r.length r).map fun (n, r) => (-(n : Int), r)
  | '+' :: r => (number 1 r.length r).map fun (n, r) => ((n : Int), r)
  | r => (number 1 4 r).map fun (n, r) => ((n : Int), r)

/-- Reads an optional fraction of a second, of which the milliseconds count. -/
def fraction : Reader Nat
  | '.' :: r =>
    let ds := r.takeWhile Text.isDigit
    let ms := (ds ++ ['0', '0']).take 3
    if ds.isEmpty then none
    else (Integer.ofDigits? ms).map fun n => (n, r.dropWhile Text.isDigit)
  | r => some (0, r)

/-- Reads an offset from universal time: a sign, two digits of hours, a separator, and two digits
of minutes. -/
def offset (separator : List Char → Option (List Char)) : Reader Int
  | [] => none
  | sign :: r =>
    if sign == '+' || sign == '-' || sign == '\u2212' then do
      let (hours, r) ← number 2 2 r
      let (minutes, r) ← number 2 2 (← separator r)
      if 59 < minutes then none
      let seconds : Int := ((hours * 3600 + minutes * 60 : Nat) : Int)
      some (if sign == '+' then seconds else -seconds, r)
    else none

/-- A separator of any colons and blanks. -/
def looseSeparator (cs : List Char) : Option (List Char) :=
  some (cs.dropWhile fun c => c == ':' || Text.isBlank c)

/-- A separator of one colon. -/
def colon (cs : List Char) : Option (List Char) := (literal ':' cs).map (·.2)

/-- Reads an offset that may also be the letter for universal time. -/
def offsetOrZulu : Reader Int
  | 'Z' :: r => some (0, r)
  | 'z' :: r => some (0, r)
  | r => offset colon r

/-- Reads the letter between a date and a time. -/
def dateEnd : Reader Unit
  | c :: r => if c == 'T' || c == 't' || c == ' ' then some ((), r) else none
  | [] => none

/-- Reads a local time with fixed widths. -/
def strictClock : Reader Clock := fun cs => do
  let (year, cs) ← number 4 4 cs
  let (_, cs) ← literal '-' cs
  let (month, cs) ← number 2 2 cs
  let (_, cs) ← literal '-' cs
  let (day, cs) ← number 2 2 cs
  let (_, cs) ← dateEnd cs
  let (hour, cs) ← number 2 2 cs
  let (_, cs) ← literal ':' cs
  let (minute, cs) ← number 2 2 cs
  let (_, cs) ← literal ':' cs
  let (second, cs) ← number 2 2 cs
  let (millis, cs) ← fraction cs
  let (offset, cs) ← offsetOrZulu cs
  some (⟨⟨year, month, day⟩, hour, minute, second, millis, offset⟩, cs)

/-- Reads a local time with loose widths, with a fraction of a second if `fractions`. -/
def looseClock (fractions : Bool) : Reader Clock := fun cs => do
  let (year, cs) ← looseYear cs
  let (_, cs) ← literal '-' cs
  let (month, cs) ← loose 2 cs
  let (_, cs) ← literal '-' cs
  let (day, cs) ← loose 2 cs
  let (_, cs) ← literal 'T' cs
  let (hour, cs) ← loose 2 cs
  let (_, cs) ← literal ':' cs
  let (minute, cs) ← loose 2 cs
  let (_, cs) ← literal ':' cs
  let (second, cs) ← loose 2 cs
  let (millis, cs) ← if fractions then fraction cs else some (0, cs)
  let (offset, cs) ← offset looseSeparator (cs.dropWhile Text.isBlank)
  some (⟨⟨year, month, day⟩, hour, minute, second, millis, offset⟩, cs)

/-- The moment of a text that a reader uses up. -/
def complete (reader : Reader Clock) (s : String) : Option Int :=
  match reader s.toList with
  | some (c, []) => c.moment?
  | _ => none

/-- The moment of a text in the form with fixed widths, or else in the loose form. -/
def read? (s : String) : Option Int :=
  (complete strictClock s).orElse fun _ => complete (looseClock true) s

/-- The moment of a text in the loose form without fractions of a second. -/
def readSeconds? (s : String) : Option Int := complete (looseClock false) s

/-! ## The shape of a date value -/

/-- Four digits, a dash and so on: the places of a date text before the offset. -/
def datePlaces : List Char := "0000-00-00T00:00:00.000".toList

/-- Whether a text has a digit wherever the places have one and is equal to them elsewhere. -/
def fits : List Char → List Char → Bool
  | [], [] => true
  | p :: ps, c :: cs => (if p = '0' then Text.isDigit c else p == c) && fits ps cs
  | _, _ => false

/-- Whether a text is a date with milliseconds and an offset, the colon in the offset being
optional. The numbers are not checked. -/
def isDateText (s : String) : Bool :=
  let cs := s.toList
  fits datePlaces (cs.take 23) &&
    match cs.drop 23 with
    | sign :: r => (sign == '-' || sign == '+') && (fits "00:00".toList r || fits "0000".toList r)
    | [] => false

end ContentImport.Timestamp
