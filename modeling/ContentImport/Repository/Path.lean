import ContentImport.Text.Basic

/-!
# Node paths

A path is a text; the root is a single slash. A canonical path is the root, or a sequence of names
each preceded by a slash.

* `Path.join` appends a name, `Path.parent?` and `Path.name` take a path apart at the last slash.
* `Path.isWithin` tests for a subtree.
* `Path.resolve` follows a relative path.
-/

namespace ContentImport.Path

/-- The path of the root. -/
def root : String := "/"

/-- The path of a child. -/
def join (parent name : String) : String :=
  if parent = root then root ++ name else parent ++ "/" ++ name

/-- The path of the parent; none for the root and for a text without a slash. -/
def parent? (path : String) : Option String :=
  if path = root then none
  else match Text.cutLast '/' path.toList with
    | none => none
    | some ([], _) => some root
    | some (before, _) => some (String.ofList before)

/-- The last segment of a path. -/
def name (path : String) : String := Text.afterLast '/' path

/-- Whether a path is another one or lies below it. -/
def isWithin (path ancestor : String) : Bool :=
  if ancestor = root then Text.startsWith root path
  else path == ancestor || Text.startsWith (ancestor ++ "/") path

/-- Follows one segment of a relative path. -/
def step (current segment : String) : String :=
  if segment = "" ∨ segment = "." then current
  else if segment = ".." then (parent? current).getD current
  else join current segment

/-- The path that a text gives relative to a base, or to the root if it begins with a slash. -/
def resolve (base relative : String) : String :=
  (Text.split '/' relative).foldl step (if Text.startsWith root relative then root else base)

/-- Whether a text can name a node. -/
def isName (name : String) : Bool :=
  name != "" && name != "." && name != ".." && !name.toList.contains '/'

end ContentImport.Path
