import ContentImport.Files.Name
import ContentImport.Table
import ContentImport.Text.Utf8

/-!
# Files

The files that an import can find, by names that are relative to a working folder or begin at the
top.

* `Files.find` follows a file name to a file or a folder. A name that is written like the names of
  files leads to them at once.
* `Files.read` reads a file, and `Files.tree` lists the files below a folder in order.
-/

namespace ContentImport

/-- Why a file cannot be used. -/
inductive FileError
  | missing
  | isFolder
  | notFolder
  | nameTooLong
  | invalidName
  | notText
  deriving DecidableEq

/-- The text of an error. -/
def FileError.message : FileError → String
  | .missing => "No such file or directory (os error 2)"
  | .isFolder => "Is a directory (os error 21)"
  | .notFolder => "Not a directory (os error 20)"
  | .nameTooLong => "File name too long (os error 36)"
  | .invalidName => "file name contained an unexpected NUL byte"
  | .notText => "stream did not contain valid UTF-8"

/-- A file with the moment of its last modification. -/
structure File where
  data : Bytes
  modified : Int
  deriving DecidableEq

/-- Files by their names, whose parts are separated by single slashes. -/
abbrev Files := Table File

/-- What a file name leads to. -/
inductive FileNode
  | file (f : File)
  | folder (parts : List String)

namespace Files

/-- The longest name of a file, in bytes. -/
def nameLimit : Nat := 255

/-- The longest file name with all its parts, in bytes. -/
def pathLimit : Nat := 4095

/-- The parts of the names of the files in a folder, relative to it. -/
def below (fs : Files) (folder : List String) : List (List String × File) :=
  fs.rows.filterMap fun row =>
    (folder.isPrefixOf? (Text.split '/' row.1)).map fun parts => (parts, row.2)

/-- What has a name in a folder. -/
def child (fs : Files) (folder : List String) (name : String) : Except FileError FileNode :=
  if nameLimit < name.utf8ByteSize then .error .nameTooLong
  else
    let here := below fs (folder ++ [name])
    match here.find? fun f => f.1.isEmpty with
    | some f => .ok (.file f.2)
    | none => if here.isEmpty then .error .missing else .ok (.folder (folder ++ [name]))

/-- The folder above a folder. Those above the working folder are known only to be there. -/
def above (folder : List String) : List String :=
  if folder.all (· == "..") then folder ++ [".."] else folder.dropLast

/-- Follows the parts of a file name from a file or a folder. -/
def follow (fs : Files) : FileNode → List String → Except FileError FileNode
  | node, [] => .ok node
  | .file _, _ :: _ => .error .notFolder
  | .folder parts, part :: r =>
    if part = "" ∨ part = "." then follow fs (.folder parts) r
    else if part = ".." then follow fs (.folder (above parts)) r
    else do follow fs (← fs.child parts part) r

/-- What has a name as it is written. -/
def literal? (fs : Files) (name : String) : Option FileNode :=
  let folder := Text.split '/' (Text.dropEnd '/' name)
  match fs.get? name with
  | some f => some (.file f)
  | none => if (below fs folder).all fun f => f.1.isEmpty then none else some (.folder folder)

/-- What a file name leads to. -/
def find (fs : Files) (name : String) : Except FileError FileNode :=
  if name.toList.contains (Char.ofNat 0) then .error .invalidName
  else if name = "" then .error .missing
  else if pathLimit < name.utf8ByteSize then .error .nameTooLong
  else
    match literal? fs name with
    | some node => .ok node
    | none =>
      if name.toList.all (· == '/') then .ok (.folder [""])
      else if FileName.isAbsolute name then .error .missing
      else follow fs (.folder []) (Text.split '/' name)

/-- The content of what a name leads to; the first error is that it cannot be opened, the second
that it cannot be read. -/
def opened (fs : Files) (name : String) : Except FileError (Except FileError Bytes × Option Int) :=
  match fs.find name with
  | .error e => .error e
  | .ok (.file f) => .ok (.ok f.data, some f.modified)
  | .ok (.folder _) => .ok (.error .isFolder, none)

/-- The content of a file. -/
def read (fs : Files) (name : String) : Except FileError Bytes := do
  let (data, _) ← fs.opened name
  data

/-- The text of a file. -/
def readText (fs : Files) (name : String) : Except FileError String := do
  match Utf8.decode? (← fs.read name) with
  | some text => .ok text
  | none => .error .notText

/-- Whether a name leads to a folder. -/
def isFolder (fs : Files) (name : String) : Bool :=
  match fs.find name with
  | .ok (.folder _) => true
  | _ => false

/-- The order of file names part by part, in which a folder stands where its name does. -/
def partsLe : List String → List String → Bool
  | [], _ => true
  | _ :: _, [] => false
  | a :: r, b :: s => if a = b then partsLe r s else decide (a < b)

/-- Inserts the parts of a name behind those that do not come after it. -/
def insertParts (a : List String) : List (List String) → List (List String)
  | [] => [a]
  | b :: r => if partsLe b a then b :: insertParts a r else a :: b :: r

/-- The parts of the names of the files below a folder, sorted by name in every folder. -/
def tree (fs : Files) (name : String) : List (List String) :=
  match fs.find name with
  | .ok (.folder parts) => (below fs parts).foldl (fun sorted f => insertParts f.1 sorted) []
  | _ => []

end Files

end ContentImport
