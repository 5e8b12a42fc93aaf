import ContentImport.Archive.Guard
import ContentImport.Import.Call

/-!
# Archives as documents

An archive is imported as a folder: every file in it becomes a file node in the folders that its
name tells.

* `ArchiveReader.file` is the script of one file.
* `ArchiveReader.script` reads a whole archive.
-/

namespace ContentImport.ArchiveReader

/-- The type of folders. -/
def folderType : String := "nt:folder"

/-- What stands before the last slash of a name. -/
def folder? (name : String) : Option String :=
  (Text.cutLast '/' name.toList).map fun p => String.ofList p.1

/-- The script of a file when the folder in which it lies is open. -/
def content (f : UnpackedFile) : Script Unit := do
  Script.call (.openFile f.name (.ok f.data) none 0)
  Script.call .closeNode
  Script.call .closeNode

/-- The script of a file. -/
def file (f : UnpackedFile) : Script Unit :=
  match folder? f.name with
  | none => content f
  | some folder => do
    Script.call (.openPath folder (some folderType))
    content f
    Script.call .closeNode

/-- An error of the archive as one of the import. -/
def ofArchive {α : Type} (r : Except ArchiveError α) : Script α :=
  .ofResult (r.mapError .archive)

/-- The script of an archive, whose temporary files go to a folder if one is told. -/
def script (t : Thresholds) (files : Files) (scratch : Option String)
    (bytes : Except FileError Bytes) : Script Unit := do
  Script.call (.openNode none (some folderType) [])
  ofArchive (Guard.scratchFolder files scratch)
  let bytes ← ofArchive (bytes.mapError fun e => .unreadable (some e))
  let guard ← ofArchive (Guard.ofBytes t bytes)
  discard <| guard.forEach (fun e => .fail (.archive e)) file
  Script.call .closeNode

end ContentImport.ArchiveReader
