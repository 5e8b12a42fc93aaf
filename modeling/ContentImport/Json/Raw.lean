import ContentImport.Json.Basic

/-!
# The grammar of JSON text

`Raw` is a JSON text as it is written: objects may repeat a name, numbers are digits, and a string
may hold escapes that are no text. What is skipped by a reader need only be `Raw`; what it uses
has to have a value.

* `Raw.parse?` reads a whole text.
* `Raw.value?` is the value of what was read: nesting is limited, a number must be finite as a
  double, and the last of the members with one name counts, in the place of the first.
-/

namespace ContentImport.Json

/-! ## Written numbers -/

/-- A number as written: sign, digits before and after the point, and the exponent's sign and
digits. -/
structure NumberText where
  negative : Bool
  whole : List Char
  places : List Char
  exponent : Option (Bool × List Char)

namespace NumberText

/-- Takes digits into a number as long as it stays below `2 ^ 64`, and returns what is left. -/
def absorb (n : Nat) : List Char → Nat × List Char
  | [] => (n, [])
  | c :: r =>
    let m := n * 10 + Text.digitValue c
    if m < 2 ^ 64 then absorb m r else (n, c :: r)

/-- The double of `significand * 10 ^ exponent`, with one rounding for the significand, one for
the power and one for their product or quotient. -/
def scale (x : Binary64) : Nat → Int → Option Binary64
  | 0, _ => some (Binary64.zero false)
  | fuel + 1, e =>
    if e.natAbs ≤ 308 then
      let power := Binary64.ofDecimal false 1 e.natAbs
      if 0 ≤ e then
        let y := x.mul power
        if y.isInfinite then none else some y
      else some (x.div power)
    else if x.significand = 0 then some x
    else if 0 ≤ e then none
    else scale (x.div (Binary64.ofDecimal false 1 308)) fuel (e + 308)

/-- A double with a sign, from its significand and its exponent. -/
def double? (negative : Bool) (significand : Nat) (exponent : Int) : Option Number :=
  (scale (Binary64.ofNat significand) 4 exponent).map fun x =>
    .double (if negative then x.neg else x)

/-- The value of a written number. Digits beyond 64 bits count as zeros before the point and are
dropped behind it. -/
def value? (t : NumberText) : Option Number :=
  let (n, dropped) := absorb 0 t.whole
  let isWhole := t.places.isEmpty && t.exponent.isNone
  if dropped.isEmpty && isWhole then
    if !t.negative then some (.integer n)
    else if 1 ≤ n && n ≤ 2 ^ 63 then some (.integer (-(n : Int)))
    else some (.double (Binary64.ofNat n).neg)
  else
    let (n, unread) := absorb n t.places
    let e : Int := (dropped.length : Int) - ((t.places.length - unread.length : Nat) : Int)
    match t.exponent with
    | none => double? t.negative n e
    | some (down, ds) =>
      match Integer.ofDigits? ds with
      | none => none
      | some shift =>
        if 2 ^ 31 ≤ shift then
          if n = 0 || down then some (.double (Binary64.zero t.negative)) else none
        else double? t.negative n (if down then e - shift else e + shift)

end NumberText

/-! ## Written strings -/

/-- A part of a written string: a character, or a UTF-16 unit given by four hexadecimal digits. -/
inductive Piece
  | char (c : Char)
  | unit (n : Nat)

/-- Joins a character to the text that follows it. -/
def consChar (n : Nat) (text : Option (List Char)) : Option (List Char) :=
  text.map (Char.ofNat n :: ·)

/-- The text of written parts; units of a surrogate pair must stand together. -/
def assemble : List Piece → Option (List Char)
  | [] => some []
  | .char c :: r => (assemble r).map (c :: ·)
  | .unit n :: r =>
    if n < 0xD800 || 0xDFFF < n then consChar n (assemble r)
    else match r with
      | .unit m :: r =>
        if n < 0xDC00 && 0xDC00 ≤ m && m ≤ 0xDFFF then
          consChar (0x10000 + (n - 0xD800) * 0x400 + (m - 0xDC00)) (assemble r)
        else none
      | _ => none

/-- The character that a short escape stands for. -/
def shortEscape? (c : Char) : Option Char :=
  if c == '"' || c == '\\' || c == '/' then some c
  else if c == 'b' then some (Char.ofNat 8)
  else if c == 'f' then some (Char.ofNat 12)
  else if c == 'n' then some '\n'
  else if c == 'r' then some '\r'
  else if c == 't' then some '\t'
  else none

/-- The number of four hexadecimal digits. -/
def hex4? (a b c d : Char) : Option Nat := do
  let a ← Text.hexValue? a
  let b ← Text.hexValue? b
  let c ← Text.hexValue? c
  let d ← Text.hexValue? d
  some (((a * 16 + b) * 16 + c) * 16 + d)

/-- Reads the parts of a string up to its closing quote. -/
def scanString : List Char → Option (List Piece × List Char)
  | [] => none
  | '"' :: r => some ([], r)
  | '\\' :: 'u' :: a :: b :: c :: d :: r => do
    let n ← hex4? a b c d
    let (pieces, r) ← scanString r
    some (.unit n :: pieces, r)
  | '\\' :: c :: r => do
    let c ← shortEscape? c
    let (pieces, r) ← scanString r
    some (.char c :: pieces, r)
  | c :: r =>
    if c.toNat < 32 || c == '\\' then none
    else do
      let (pieces, r) ← scanString r
      some (.char c :: pieces, r)

/-- Reads a number after its sign: no leading zeros, and digits on both sides of a point and
behind the mark of an exponent. -/
def scanNumber (negative : Bool) (cs : List Char) : Option (NumberText × List Char) :=
  let whole := cs.takeWhile Text.isDigit
  let r := cs.dropWhile Text.isDigit
  if whole.isEmpty || (whole.head? == some '0' && 1 < whole.length) then none
  else
    let places? := match r with
      | '.' :: r => if (r.takeWhile Text.isDigit).isEmpty then none
        else some (r.takeWhile Text.isDigit, r.dropWhile Text.isDigit)
      | r => some ([], r)
    match places? with
    | none => none
    | some (places, r) =>
      match r with
      | [] => some (⟨negative, whole, places, none⟩, [])
      | mark :: s =>
        if mark == 'e' || mark == 'E' then
          let (down, s) := match s with
            | '-' :: s => (true, s)
            | '+' :: s => (false, s)
            | s => (false, s)
          let ds := s.takeWhile Text.isDigit
          if ds.isEmpty then none
          else some (⟨negative, whole, places, some (down, ds)⟩, s.dropWhile Text.isDigit)
        else some (⟨negative, whole, places, none⟩, r)

/-! ## Written values -/

/-- A JSON text. A string or a name is `none` if its escapes are no text. -/
inductive Raw
  | null
  | bool (b : Bool)
  | number (n : NumberText)
  | string (s : Option String)
  | array (items : List Raw)
  | object (members : List (Option String × Raw))

/-- The blanks of JSON. -/
def isSpace (c : Char) : Bool := c == ' ' || c == '\n' || c == '\t' || c == '\r'

/-- What follows the blanks. -/
def skipSpace (cs : List Char) : List Char := cs.dropWhile isSpace

/-- Reads a string after its opening quote. -/
def scanText (cs : List Char) : Option (Option String × List Char) :=
  (scanString cs).map fun (pieces, r) => ((assemble pieces).map String.ofList, r)

namespace Raw

mutual

/-- Reads a value after blanks. -/
def scan : Nat → List Char → Option (Raw × List Char)
  | 0, _ => none
  | fuel + 1, cs =>
    match skipSpace cs with
    | 'n' :: 'u' :: 'l' :: 'l' :: r => some (.null, r)
    | 't' :: 'r' :: 'u' :: 'e' :: r => some (.bool true, r)
    | 'f' :: 'a' :: 'l' :: 's' :: 'e' :: r => some (.bool false, r)
    | '"' :: r => (scanText r).map fun (s, r) => (.string s, r)
    | '-' :: r => (scanNumber true r).map fun (n, r) => (.number n, r)
    | '[' :: r =>
      match skipSpace r with
      | ']' :: r => some (.array [], r)
      | r => (scanItems fuel r).map fun (items, r) => (.array items, r)
    | '\x7b' :: r =>
      match skipSpace r with
      | '\x7d' :: r => some (.object [], r)
      | r => (scanMembers fuel r).map fun (members, r) => (.object members, r)
    | r => (scanNumber false r).map fun (n, r) => (.number n, r)

/-- Reads the items of an array up to its closing bracket. -/
def scanItems : Nat → List Char → Option (List Raw × List Char)
  | 0, _ => none
  | fuel + 1, cs =>
    match scan fuel cs with
    | none => none
    | some (item, r) =>
      match skipSpace r with
      | ',' :: r => (scanItems fuel r).map fun (items, r) => (item :: items, r)
      | ']' :: r => some ([item], r)
      | _ => none

/-- Reads the members of an object up to its closing brace. -/
def scanMembers : Nat → List Char → Option (List (Option String × Raw) × List Char)
  | 0, _ => none
  | fuel + 1, cs =>
    match skipSpace cs with
    | '"' :: r =>
      match scanText r with
      | none => none
      | some (name, r) =>
        match skipSpace r with
        | ':' :: r =>
          match scan fuel r with
          | none => none
          | some (value, r) =>
            match skipSpace r with
            | ',' :: r =>
              (scanMembers fuel r).map fun (members, r) => ((name, value) :: members, r)
            | '\x7d' :: r => some ([(name, value)], r)
            | _ => none
        | _ => none
    | _ => none

end

/-- The JSON text that a text is, blanks aside. Every call of `scan` and its companions on the way
to a character leaves fewer characters to a second one. -/
def parse? (s : String) : Option Raw :=
  let cs := s.toList
  match scan (2 * cs.length + 2) cs with
  | some (raw, r) => if (skipSpace r).isEmpty then some raw else none
  | none => none

/-- How deep arrays and objects may be nested, plus one. -/
def depthLimit : Nat := 128

mutual

/-- The value of a JSON text, if it is nested less than `depth` deep. -/
def value? (depth : Nat) : Raw → Option Json
  | .null => some .null
  | .bool b => some (.bool b)
  | .number n => n.value?.map .number
  | .string s => s.map .string
  | .array items => if depth < 2 then none else (values? (depth - 1) items).map .array
  | .object members => if depth < 2 then none else (members? (depth - 1) [] members).map .object

/-- The values of items. -/
def values? (depth : Nat) : List Raw → Option (List Json)
  | [] => some []
  | raw :: r => do
    let item ← value? depth raw
    let items ← values? depth r
    some (item :: items)

/-- The members of an object after those that were read. -/
def members? (depth : Nat) (done : List (String × Json)) :
    List (Option String × Raw) → Option (List (String × Json))
  | [] => some done
  | (name, raw) :: r => do
    let name ← name
    let value ← value? depth raw
    members? depth (Table.put name value done) r

end

end Raw

/-- The value of a JSON text. -/
def parse? (s : String) : Option Json := (Raw.parse? s).bind (Raw.value? Raw.depthLimit)

end ContentImport.Json
