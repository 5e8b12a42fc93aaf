import ContentImport.Archive.EndRecord
import ContentImport.Archive.ExtraField
import ContentImport.Archive.Inflate
import ContentImport.Table

/-!
# Archives

An archive holds entries in the order of its directory. Of the entries with one name the first
gives the place and the last counts. The directory is a sequence of records, one for each entry, of
which the end record tells the place and the number.

* `Directory.read?` reads the entries that the records describe together with their extra fields.
* `Content.ofRecord` unpacks the data of an entry.
* `Archive.ofBytes?` finds the directory of an archive and its entries.
-/

namespace ContentImport

/-! ## The directory -/

namespace Directory

/-- The method that stands for strong encryption. -/
def encryptedMethod : Nat := 99

/-- The entry of a record: it does not begin behind the directory. -/
def entry? (place : EndRecord) (h : EntryHeader) : Option EntryRecord := do
  let e ← ExtraField.amend? h.extra h.entry
  let position := e.position + place.offset
  if (e.method = encryptedMethod ∧ !e.hasStrength) ∨ place.start < position then none
  else some { e with position }

/-- So many entries at the beginning of bytes. -/
def entries? (place : EndRecord) : Nat → Bytes → Option (List EntryRecord)
  | 0, _ => some []
  | n + 1, bs => do
    let h ← EntryRecord.read? bs
    let e ← entry? place h
    return e :: (← entries? place n h.rest)

/-- The entries of the directory that an end record tells. -/
def read? (bs : Bytes) (place : EndRecord) : Option (List EntryRecord) :=
  entries? place place.count (bs.drop place.start)

end Directory

/-! ## Entries -/

/-- The data of an entry as they come out of the archive. -/
inductive Content
  | whole (data : Bytes)
  /-- The data end in a fault. -/
  | broken (data : Bytes)
  /-- There are no data that can be read. -/
  | locked
  deriving DecidableEq

namespace Content

/-- Data up to a fault or to their end; they have to fit their checksum. -/
def checked (checksum : UInt32) (data : Bytes) (isFaulty : Bool) : Content :=
  if isFaulty || Checksum.ofBytes data != checksum then .broken data else .whole data

/-- The data of an entry: stored as they are, or compressed. -/
def ofRecord (bs : Bytes) (e : EntryRecord) : Content :=
  if e.isEncrypted || e.hasStrength then .locked
  else
    match e.packed? bs, e.method with
    | some packed, 0 => checked e.checksum packed false
    | some packed, 8 =>
      let (data, isFaulty) := Inflate.run packed
      checked e.checksum data isFaulty
    | _, _ => .locked

end Content

/-- An entry of an archive. -/
structure ArchiveEntry where
  name : String
  /-- The size of the compressed data. -/
  packedSize : Nat
  content : Content
  deriving DecidableEq

/-- Whether an entry is a folder. -/
def ArchiveEntry.isFolder (e : ArchiveEntry) : Bool := EntryName.isFolder e.name

/-- The entries of an archive in order. -/
abbrev Archive := List ArchiveEntry

namespace Archive

/-- The archive whose end record begins at a position. -/
def at? (bs : Bytes) (position : Nat) : Option Archive := do
  let records ← Directory.read? bs (← EndRecord.at? bs position)
  let named := Table.ofList (records.map fun r => (r.name, r))
  return named.values.map fun r => ⟨r.name, r.packedSize, Content.ofRecord bs r⟩

/-- The archive that bytes hold: the last end record with a directory counts. -/
def ofBytes? (bs : Bytes) : Option Archive :=
  (positions (recordMark 5 6) 0 bs).reverse.findSome? (at? bs)

end Archive

end ContentImport
