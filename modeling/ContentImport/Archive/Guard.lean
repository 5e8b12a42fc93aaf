import ContentImport.Archive.Basic
import ContentImport.Files.Basic
import ContentImport.Import.Error
import ContentImport.Number.Binary64

/-!
# Guarded unpacking

A guard hands over the files of an archive one after the other as long as the archive stays within
thresholds for the number of its entries, the total size of its files and the ratio to which a file
is compressed.

* `Guard.ofBytes` begins to unpack an archive.
* `Guard.copy` copies the data of an entry to the scratch file, chunk by chunk.
* `Guard.visit` visits one entry and `Guard.next` goes on to the next file.
* `Guard.forEach` hands over all files up to the first error.
-/

namespace ContentImport

/-- The limits for an archive. -/
structure Thresholds where
  /-- The most entries, folders included. -/
  maxEntries : Nat := 10000
  /-- The greatest size of all files together. -/
  maxTotalSize : Nat := 1000000000
  /-- The greatest ratio of the size of a file to that of its compressed data. -/
  maxRatio : Binary64 := Binary64.ofNat 10
  deriving DecidableEq

namespace Thresholds

/-- The bytes that an entry may take in an archive beside its data. -/
def overhead : Nat := 1024

/-- The greatest size of an archive itself. -/
def maxArchiveSize (t : Thresholds) : Nat := t.maxTotalSize + t.maxEntries * overhead

/-- Whether so many bytes are too many for the size of their compressed data. -/
def exceedsRatio (t : Thresholds) (packedSize size : Nat) : Bool :=
  t.maxRatio.lt (Binary64.div (Binary64.ofNat size) (Binary64.ofNat (max packedSize 1)))

end Thresholds

/-- A file that was unpacked. -/
structure UnpackedFile where
  name : String
  data : Bytes
  deriving DecidableEq

/-- The state of unpacking. -/
structure Guard where
  thresholds : Thresholds
  /-- The entries that are not visited yet. -/
  pending : Archive
  /-- How many entries were visited. -/
  visited : Nat := 0
  /-- The size of the files that were unpacked completely. -/
  totalSize : Nat := 0
  /-- The chunks in the scratch file, the last one first. -/
  scratch : List Bytes := []

namespace Guard

/-- Begins to unpack the archive that bytes hold, if they are not too many. -/
def ofBytes (t : Thresholds) (bs : Bytes) : Except ArchiveError Guard :=
  if t.maxArchiveSize < bs.length then .error .totalSizeExceeded
  else
    match Archive.ofBytes? bs with
    | some archive => .ok { thresholds := t, pending := archive }
    | none => .error .malformed

/-- Whether a folder for temporary files is there. The empty name is that of the working folder. -/
def scratchFolder (files : Files) : Option String → Except ArchiveError Unit
  | none => .ok ()
  | some folder =>
    if folder = "" then .ok ()
    else
      match files.find folder with
      | .ok (.folder _) => .ok ()
      | .ok (.file _) => .error (.scratch .notFolder)
      | .error e => .error (.scratch e)

/-- The most bytes that are read at once. -/
def chunkSize : Nat := 2048

/-- Data as they are read, in at most so many chunks. -/
def cut : Nat → Bytes → List Bytes
  | 0, _ | _ + 1, [] => []
  | n + 1, b :: r => (b :: r).take chunkSize :: cut n ((b :: r).drop chunkSize)

/-- Data as they are read. -/
def chunks (data : Bytes) : List Bytes := cut (data.length / chunkSize + 1) data

/-- Copies chunks to the scratch file, behind so many bytes that are written already, and tells how
many they are then. It ends as soon as they are too many for the size of the compressed data. -/
def copy (packedSize : Nat) : Nat → List Bytes → Guard → Except ArchiveError Nat × Guard
  | written, [], g => (.ok written, g)
  | written, chunk :: r, g =>
    let g := { g with scratch := chunk :: g.scratch }
    let written := written + chunk.length
    if g.thresholds.exceedsRatio packedSize written then (.error .ratioExceeded, g)
    else copy packedSize written r g

/-- The unpacking of data that are not a folder, when the entry is counted. -/
def unpack (g : Guard) (e : ArchiveEntry) : Except ArchiveError UnpackedFile × Guard :=
  match e.content with
  | .locked => (.error .malformed, g)
  | .broken data =>
    let (result, g) := copy e.packedSize 0 (chunks data) { g with scratch := [] }
    (result.bind fun _ => .error (.unreadable none), g)
  | .whole data =>
    match copy e.packedSize 0 (chunks data) { g with scratch := [] } with
    | (.error error, g) => (.error error, g)
    | (.ok size, g) =>
      let g := { g with totalSize := g.totalSize + size }
      if g.thresholds.maxTotalSize < g.totalSize then (.error .totalSizeExceeded, g)
      else (.ok ⟨e.name, g.scratch.reverse.flatten⟩, g)

/-- Visits an entry; a folder that can be read gives no file. -/
def visit (g : Guard) (e : ArchiveEntry) : Except ArchiveError (Option UnpackedFile) × Guard :=
  let g := { g with visited := g.visited + 1 }
  if g.thresholds.maxEntries < g.visited then (.error .tooManyEntries, g)
  else if e.content = .locked then (.error .malformed, g)
  else if e.isFolder then (.ok none, g)
  else
    let (result, g) := unpack g e
    (result.map some, g)

/-- Visits the entries of an archive up to the next file or error. -/
def nextOf (g : Guard) : Archive → Except ArchiveError (Option UnpackedFile) × Guard
  | [] => (.ok none, { g with pending := [] })
  | e :: r =>
    match visit { g with pending := r } e with
    | (.ok none, g) => nextOf g r
    | outcome => outcome

/-- Goes on to the next file, if there is one. An error does not end the unpacking. -/
def next (g : Guard) : Except ArchiveError (Option UnpackedFile) × Guard := nextOf g g.pending

/-- Hands the files of an archive to an action, one after the other and behind so many others, and
tells how many they are then. The first error ends it. -/
def forEachOf {m : Type → Type} [Monad m] (fail : ArchiveError → m Nat)
    (f : UnpackedFile → m Unit) : Nat → Guard → Archive → m Nat
  | count, _, [] => pure count
  | count, g, e :: r =>
    match visit { g with pending := r } e with
    | (.error error, _) => fail error
    | (.ok none, g) => forEachOf fail f count g r
    | (.ok (some file), g) => do
      f file
      forEachOf fail f (count + 1) g r

/-- Hands all files to an action, one after the other, and tells how many they are. -/
def forEach {m : Type → Type} [Monad m] (fail : ArchiveError → m Nat) (f : UnpackedFile → m Unit)
    (g : Guard) : m Nat :=
  forEachOf fail f 0 g g.pending

end Guard

end ContentImport
