import ContentImport.Archive.EntryRecord

/-!
# Extra fields

An extra field begins with two numbers, its kind and its size. Some kinds replace what the record
of an entry says. Fields that end too early end the reading, and what they said up to there counts.

* `ExtraField.Reader` takes numbers from the front of extra fields and changes an entry.
* `ExtraField.read` reads one field, by its kind.
* `ExtraField.amend?` reads all of them into an entry.
-/

namespace ContentImport.ExtraField

/-! ## Reading -/

/-- Why the reading of extra fields stops. -/
inductive Stop
  /-- The fields end too early, which is no fault. -/
  | cutOff
  | invalid
  deriving DecidableEq

/-- The bytes that are not read yet, and the entry as it is known so far. -/
structure State where
  rest : Bytes
  entry : EntryRecord

/-- Reads extra fields. What was changed before a stop stays changed. -/
abbrev Reader := ExceptT Stop (StateM State)

/-- Takes so many bytes. -/
def take (n : Nat) : Reader Bytes := do
  let s ← get
  if s.rest.length < n then throw .cutOff
  set { s with rest := s.rest.drop n }
  return s.rest.take n

/-- Takes a number of so many bytes. -/
def number (size : Nat) : Reader Nat := return Bytes.toNat (← take size)

/-- Skips so many bytes. -/
def skip (n : Nat) : Reader Unit := discard <| take n

/-- Refuses a field that does not meet a condition. -/
def require (condition : Bool) : Reader Unit := if condition then pure () else throw .invalid

/-- Changes what is known of the entry. -/
def change (f : EntryRecord → EntryRecord) : Reader Unit := modify fun s =>
  { s with entry := f s.entry }

/-! ## Kinds -/

/-- The size from which on a field with wide numbers holds all of them. -/
def allWide : Nat := 24

/-- Replaces a number by a wide one, if it has all its bits set or the field is large enough for all
of them; returns how many bytes were taken. -/
def widen (size : Nat) (current : EntryRecord → Nat) (put : Nat → EntryRecord → EntryRecord) :
    Reader Nat := do
  if allWide ≤ size ∨ current (← get).entry = 2 ^ 32 - 1 then
    let n ← number 8
    change (put n)
    return 8
  else return 0

/-- A field with wide numbers: sizes and the position of the entry. -/
def wideNumbers (size : Nat) : Reader Unit := do
  let a ← widen size (·.size) fun n e => { e with size := n }
  let b ← widen size (·.packedSize) fun n e => { e with packedSize := n }
  let c ← widen size (·.position) fun n e => { e with position := n }
  require (a + b + c ≤ size)
  skip (size - (a + b + c))

/-- A field with times of a file, as one kind of file system keeps them. -/
def fileTimes (size : Nat) : Reader Unit := do
  require (size == 32)
  skip 4
  require ((← number 2) == 1)
  require ((← number 2) == 24)
  skip 24

/-- A field that tells how strongly the data are encrypted, and their method. -/
def strength (size : Nat) : Reader Unit := do
  require (size == 7)
  let version ← number 2
  let vendor ← take 2
  let key ← number 1
  let method ← number 2
  require (vendor == [Bytes.char 'A', Bytes.char 'E'])
  require (version == 1 || version == 2)
  require (1 ≤ key && key ≤ 3)
  change fun e => { e with method, hasStrength := true }

/-- A field with moments. Each of the three lowest bits of its first byte tells of one, and no
other bit is set. A field of five bytes holds the first moment. -/
def moments (size : Nat) : Reader Unit := do
  let kinds ← number 1
  let has (i : Nat) : Nat := kinds / 2 ^ i % 2
  require (kinds < 8)
  require (size == 5 || size == 1 + 4 * (has 0 + has 1 + has 2))
  if size = 5 then skip 4 else skip (4 * (has 0 + has 1 + has 2))

/-- The text of a field that replaces another one, with the checksum of which it begins. -/
def replacement (size : Nat) (replaced : Bytes) : Reader (Bytes × String) := do
  skip 1
  let checksum ← number 4
  require (5 ≤ size)
  let raw ← take (size - 5)
  require (UInt32.ofNat checksum == Checksum.ofBytes replaced)
  match Utf8.decode? raw with
  | some text => return (raw, text)
  | none => throw .invalid

/-- Reads the rest of a field of a kind and size. Unknown kinds do not count. -/
def read (kind size : Nat) : Reader Unit := do
  match kind with
  | 0x0001 => wideNumbers size
  | 0x000A => fileTimes size
  | 0x9901 => strength size
  | 0x5455 => moments size
  | 0x6375 =>
    let (_, comment) ← replacement size (Utf8.encode (← get).entry.comment)
    change fun e => { e with comment }
  | 0x7075 =>
    let (rawName, name) ← replacement size (← get).entry.rawName
    change fun e => { e with rawName, name }
  | _ => skip size

/-! ## All fields -/

/-- Reads fields as long as there are bytes, at most as many as there is fuel for. -/
def readAll : Nat → Reader Unit
  | 0 => pure ()
  | fuel + 1 => do
    if (← get).rest.isEmpty then return
    let kind ← number 2
    let size ← number 2
    read kind size
    readAll fuel

/-- The entry with what its extra fields say, unless one of them is invalid. -/
def amend? (extra : Bytes) (e : EntryRecord) : Option EntryRecord :=
  match (readAll extra.length).run ⟨extra, e⟩ with
  | (.error .invalid, _) => none
  | (_, s) => some s.entry

end ContentImport.ExtraField
