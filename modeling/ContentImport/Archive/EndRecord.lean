import ContentImport.Archive.EntryRecord

/-!
# The end of an archive

An archive is read from its end: a record there tells where its directory is.

* `EndRecord.at?` reads the end record that begins at a position, with the extended one that may
  stand before it.
-/

namespace ContentImport

/-- Where the directory of an archive is. -/
structure EndRecord where
  /-- How many bytes stand before the archive proper. -/
  offset : Nat
  /-- The position of the directory. -/
  start : Nat
  /-- The number of entries. -/
  count : Nat
  deriving DecidableEq

namespace EndRecord

/-- Whether an extended end record at a position fits its locator, which tells the disk of the
directory. It ends where the locator begins, and the directory stands before it. -/
def fitsLocator (record : Bytes) (disk locator position : Nat) : Bool :=
  record.number 20 4 == disk && record.number 4 8 + 12 == locator - position &&
    decide (44 ≤ record.number 4 8) &&
    decide (record.number 32 8 * 46 + record.number 48 8 ≤ position)

/-- What an extended end record says: no more entries than there are in all, on the disk on which
the record itself is. -/
def ofExtended? (record : Bytes) (shift : Nat) : Option EndRecord :=
  if record.number 32 8 < record.number 24 8 ∨ record.number 12 2 < record.number 14 2 ∨
      record.number 16 4 ≠ record.number 20 4 then none
  else some ⟨shift, record.number 48 8 + shift, record.number 32 8⟩

/-- The extended end record that a locator before the end record tells, or `none` if there is no
locator. The first record that fits the locator counts. -/
def located? (bs : Bytes) (position : Nat) : Option (Option EndRecord) := do
  if position < 20 then none
  let locator := position - 20
  let record ← recordAt? bs locator (recordMark 6 7) 20
  let expected := record.number 8 8
  let fitting (p : Nat) : Option (Bytes × Nat) := do
    let extended ← recordAt? bs p (recordMark 6 6) 56
    if fitsLocator extended (record.number 4 4) locator p then some (extended, p - expected)
    else none
  if locator ≤ expected ∨ 1 < record.number 16 4 then some none
  else
    some do
      let (extended, shift) ←
        (candidates (recordMark 6 6) bs expected locator).findSome? fitting
      ofExtended? extended shift

/-- The end record that begins at a position. The first record of the directory tells how many bytes
stand before the archive proper. -/
def at? (bs : Bytes) (position : Nat) : Option EndRecord := do
  let record ← recordAt? bs position (recordMark 5 6) 22
  if record.length < 22 + record.number 20 2 then none
  let disk := record.number 4 2
  let count := record.number 10 2
  let start := record.number 16 4
  let isExtended := count = 2 ^ 16 - 1 ∨ start = 2 ^ 32 - 1
  match if isExtended then located? bs position else none with
  | some extended => extended
  | none =>
    if disk ≠ record.number 6 2 then none
    else if count = 0 then some ⟨position - start, start + (position - start), record.number 8 2⟩
    else
      let first ← (candidates EntryRecord.mark bs start position).head?
      some ⟨first - start, first, record.number 8 2⟩

end EndRecord

end ContentImport
