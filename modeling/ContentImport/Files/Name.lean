import ContentImport.Text.Basic

/-!
# File names

A file is named by a text, whose parts are separated by slashes.

* `FileName.last?` is the name proper, `FileName.stem?` and `FileName.extension?` its parts before
  and after the last dot.
* `FileName.folder` is what stands before it, and `FileName.join` appends a relative name.
-/

namespace ContentImport.FileName

/-- A part of a file name: the folder itself, the folder above, or a name. -/
inductive Part
  | here
  | up
  | named (name : String)
  deriving DecidableEq

/-- A file name without the slashes, and the parts `.`, at its end. -/
def trimEnd (absolute : Bool) : List Char → List Char
  | [] => []
  | '/' :: r => trimEnd absolute r
  | ['.'] => if absolute then [] else ['.']
  | '.' :: '/' :: r => trimEnd absolute r
  | cs => cs

/-- Whether a name begins at the top. -/
def isAbsolute (s : String) : Bool := Text.startsWith "/" s

/-- A name without empty parts and parts `.` at its end, which a leading part `.` is not. -/
def trimmed (s : String) : List Char := (trimEnd (isAbsolute s) s.toList.reverse).reverse

/-- The last part of a name with what stands before it. -/
def cut (s : String) : List Char × List Char :=
  match Text.cutLast '/' (trimmed s) with
  | some (before, name) => (before ++ ['/'], name)
  | none => ([], trimmed s)

/-- The name proper of a file, if the last part is a name. -/
def last? (s : String) : Option String :=
  let name := String.ofList (cut s).2
  if name = "" ∨ name = "." ∨ name = ".." then none else some name

/-- A name as its parts before and behind the last dot. A dot at the beginning is none. -/
def splitDot (name : String) : String × Option String :=
  match Text.cutLast '.' name.toList with
  | some (c :: before, after) => (String.ofList (c :: before), some (String.ofList after))
  | _ => (name, none)

/-- The name of a file without its extension. -/
def stem? (s : String) : Option String := (last? s).map fun name => (splitDot name).1

/-- The extension of a file name. -/
def extension? (s : String) : Option String := (last? s).bind fun name => (splitDot name).2

/-- The folder of a file, empty if the name has none. -/
def folder (s : String) : String :=
  let (before, name) := cut s
  let rest := trimEnd (isAbsolute s) before.reverse
  if name.isEmpty then ""
  else if rest.isEmpty && isAbsolute s then "/"
  else String.ofList rest.reverse

/-- A name in a folder; a name from the top stands for itself. -/
def join (folder name : String) : String :=
  if isAbsolute name || folder = "" then name
  else if (folder.toList.getLast? == some '/') then folder ++ name
  else folder ++ "/" ++ name

end ContentImport.FileName
