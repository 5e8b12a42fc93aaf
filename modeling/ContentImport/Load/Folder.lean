import ContentImport.Load.Basic

/-!
# Folders of documents

A folder is loaded document by document, and its subfolders become folders of the repository.

* `Loader.ensureFolders` creates the folders on a path.
* `Loader.loadFolder` loads a folder. A document that cannot be loaded gives a warning.
-/

namespace ContentImport.Loader

/-- What came of loading several documents. -/
structure Report where
  created : List String := []
  /-- Files that could not be loaded, and why. -/
  failed : List (String × ImportError) := []

/-- A change of a repository that may fail where a folder is created. -/
abbrev FolderChange (α : Type) := ExceptT (String × RepositoryError) (StateM Repository) α

/-- Creates the missing folders with names below a path. -/
def ensureBelow : String → List String → FolderChange Unit
  | _, [] => return
  | path, name :: r => do
    let next := Path.join path name
    if !(← get).hasNode next then
      discard <| ExceptT.adapt (fun e => (next, e))
        (Repository.addNode path name ArchiveReader.folderType)
    ensureBelow next r

/-- Creates the missing folders on a path. -/
def ensureFolders (path : String) : FolderChange Unit :=
  ensureBelow "/" ((Text.split '/' path).filter (· != ""))

/-- Whether a file has an extension that is read. -/
def accepts (l : Loader) (file : String) : Bool :=
  match FileName.extension? file with
  | some extension => l.extensions.any fun e => Text.sameLetters e extension
  | none => false

/-- Loads a file, and adds what came of it to a report. -/
def report (load : Change (List String)) (file : String) (soFar : Report) :
    FolderChange Report := fun r =>
  match load.run.run r with
  | (.ok created, r) => (.ok { soFar with created := soFar.created ++ created }, r)
  | (.error e, r) => (.ok { soFar with failed := soFar.failed ++ [(file, e)] }, r)

/-- Loads the files of a folder that are told by the parts of their names. -/
def loadFiles (l : Loader) (clock : Int) (files : Files) (folder target : String) :
    List (List String) → Report → FolderChange Report
  | [], soFar => return soFar
  | parts :: r, soFar => do
    let file := parts.foldl FileName.join folder
    if l.accepts file then
      let place := parts.dropLast.foldl Path.join target
      ensureFolders place
      let soFar ← report (l.loadFile clock files file place) file soFar
      loadFiles l clock files folder target r soFar
    else loadFiles l clock files folder target r soFar

/-- Loads a folder below a target. -/
def loadFolder (l : Loader) (clock : Int) (files : Files) (folder target : String)
    (soFar : Report) : FolderChange Report :=
  loadFiles l clock files folder target (files.tree folder) soFar

end ContentImport.Loader
