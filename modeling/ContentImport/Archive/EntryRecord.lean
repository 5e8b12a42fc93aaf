import ContentImport.Archive.Record

/-!
# Entries in the directory of an archive

A record of the directory describes an entry. Extra fields at its end may say more than its numbers
can hold.

* `EntryRecord.read?` reads a record without its extra fields.
* `EntryRecord.packed?` finds the data of an entry.
-/

namespace ContentImport

/-- What the directory says about an entry. -/
structure EntryRecord where
  /-- The name as it is written. -/
  rawName : Bytes
  name : String
  comment : String
  isEncrypted : Bool
  /-- Whether it is told how strongly the data are encrypted. -/
  hasStrength : Bool
  method : Nat
  checksum : UInt32
  /-- The size of the data. -/
  size : Nat
  /-- The size of the compressed data. -/
  packedSize : Nat
  /-- The position of the entry. -/
  position : Nat
  deriving DecidableEq

/-- A record of the directory with its extra fields and what follows it. -/
structure EntryHeader where
  entry : EntryRecord
  extra : Bytes
  rest : Bytes

namespace EntryRecord

/-- The mark of a record of the directory. -/
def mark : Bytes := recordMark 1 2

/-- The record at the beginning of bytes. -/
def read? (bs : Bytes) : Option EntryHeader := do
  let record ← recordAt? bs 0 mark 46
  let nameSize := record.number 28 2
  let extraSize := record.number 30 2
  let commentSize := record.number 32 2
  if record.length < 46 + nameSize + extraSize + commentSize then none
  let (rawName, rest) := (record.drop 46).splitAt nameSize
  let (extra, rest) := rest.splitAt extraSize
  let (rawComment, rest) := rest.splitAt commentSize
  let flags := record.number 8 2
  let isUtf8 := flags / 2 ^ 11 % 2 == 1
  let entry : EntryRecord :=
    { rawName
      name := EntryName.decode isUtf8 rawName
      comment := EntryName.decode isUtf8 rawComment
      isEncrypted := flags % 2 == 1
      hasStrength := false
      method := record.number 10 2
      checksum := UInt32.ofNat (record.number 16 4)
      size := record.number 24 4
      packedSize := record.number 20 4
      position := record.number 42 4 }
  some ⟨entry, extra, rest⟩

/-- The data of an entry as they are stored, which begin behind a record of their own. -/
def packed? (bs : Bytes) (e : EntryRecord) : Option Bytes :=
  (recordAt? bs e.position (recordMark 3 4) 30).map fun record =>
    (record.drop (30 + record.number 26 2 + record.number 28 2)).take e.packedSize

end EntryRecord

end ContentImport
