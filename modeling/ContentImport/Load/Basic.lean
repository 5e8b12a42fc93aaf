import ContentImport.Import.Basic
import ContentImport.Load.Config
import ContentImport.Reader.Archive
import ContentImport.Reader.Json
import ContentImport.Reader.Xml

/-!
# The loader

A loader reads documents into a repository. It finds out from the extension of a file name how a
document is to be read.

* `Loader.readerFor` finds the reader for an extension.
* `Loader.load` imports one document, and `Loader.loadFile` a file.
-/

namespace ContentImport

/-! ## Readers -/

/-- How a document is written. -/
inductive DocumentFormat
  | json
  | xml
  | archive (thresholds : Thresholds)
  deriving DecidableEq

/-- The file extensions of a format. -/
def DocumentFormat.extensions : DocumentFormat → List String
  | .json => ["json"]
  | .xml => ["xml"]
  | .archive _ => ["zip", "jar"]

/-- A document: its content, and where it comes from. -/
structure Source where
  /-- The content, unless it cannot be read. -/
  bytes : Except FileError Bytes
  origin : XmlReader.Origin
  /-- The folder for temporary files, if one is told. -/
  scratch : Option String := none

/-- The script of a document. -/
def DocumentFormat.script (definitions : List RestrictionDefinition) (s : Source) :
    DocumentFormat → Script Unit
  | .json =>
    match s.bytes with
    | .ok bytes => JsonReader.script definitions bytes
    | .error e => .fail (.content e)
  | .xml =>
    match s.bytes with
    | .ok bytes => XmlReader.script s.origin bytes
    | .error _ => .fail .malformedXml
  | .archive thresholds => ArchiveReader.script thresholds s.origin.files s.scratch s.bytes

/-- A reader of documents. -/
structure DocumentReader where
  extensions : List String
  /-- The format of the documents, unless there is no reader for them after all. -/
  format : Except ImportError DocumentFormat
  /-- Whether documents know where they come from. -/
  isLocated : Bool := true

namespace DocumentReader

/-- The reader of a format. -/
def ofFormat (f : DocumentFormat) : DocumentReader :=
  { extensions := f.extensions, format := .ok f }

/-- A source as a reader sees it. -/
def seen (reader : DocumentReader) (s : Source) : Source :=
  if reader.isLocated then s else { s with origin := { s.origin with location := none } }

/-- The script of a document. -/
def script (reader : DocumentReader) (definitions : List RestrictionDefinition) (s : Source) :
    Script Unit :=
  (Script.ofResult reader.format).bind fun f => f.script definitions (reader.seen s)

end DocumentReader

/-! ## Loaders -/

/-- A loader: its readers, of which the first for an extension counts, and the options of its
imports. -/
structure Loader where
  readers : List DocumentReader
  options : ImportOptions

namespace Loader

/-- The loader of a configuration. -/
def ofConfig (c : LoadConfig) : Loader where
  readers := [.json, .xml, .archive c.thresholds].map .ofFormat
  options := c.options

/-- The loader with one more reader, which comes before the others. -/
def withReader (l : Loader) (reader : DocumentReader) : Loader :=
  { l with readers := reader :: l.readers }

/-- Inserts a text into a sorted list in which it does not stand yet. -/
def insertText (s : String) : List String → List String
  | [] => [s]
  | t :: r => if s = t then t :: r else if s < t then s :: t :: r else t :: insertText s r

/-- The extensions that are read, sorted. -/
def extensions (l : Loader) : List String :=
  ((l.readers.flatMap DocumentReader.extensions).filter fun e => !l.options.ignores e).foldr
    insertText []

/-- The reader for an extension, whose letters may be of any case. -/
def readerFor (l : Loader) (extension : String) : Except ImportError DocumentReader :=
  let extension := Text.lower extension
  if l.options.ignores extension then .error (.noReader extension)
  else
    match l.readers.find? fun reader => reader.extensions.contains extension with
    | some reader => .ok reader
    | none => .error (.noReader extension)

/-- A reader that reads documents with other extensions as a loader reads those with one. -/
def delegate (l : Loader) (extensions : List String) (extension : String) : DocumentReader where
  extensions := extensions
  format := (l.readerFor extension).bind DocumentReader.format
  isLocated := false

/-- A change of a repository that is an import. -/
abbrev Change (α : Type) := ExceptT ImportError (StateM Repository) α

/-- The steps by which a document is imported; returns the nodes that were created. -/
def steps (reader : DocumentReader) (s : Source) (target : String) (name : Option String) :
    Import.Step (List String) := do
  Import.prepare target name
  Import.run (reader.script (← get).repository.restrictions s)
  Import.finish
  return (← get).created

/-- Imports a document below a target at a moment; a document without a name goes to the target
itself. What was written before an error stays. -/
def load (l : Loader) (clock : Int) (reader : DocumentReader) (s : Source) (target : String)
    (name : Option String) : Change (List String) := fun r =>
  let (result, i) :=
    (steps reader s target name).run.run { repository := r, options := l.options, clock }
  (result, i.repository)

/-- An error of the content of a file as one that tells its name. -/
def named (path : String) : ImportError → ImportError
  | .content e => .file path e
  | e => e

/-- Imports a file below a target, where it has its name without the extension. -/
def loadFile (l : Loader) (clock : Int) (files : Files) (path target : String) :
    Change (List String) := do
  let reader ← l.readerFor ((FileName.extension? path).getD "")
  match FileName.stem? path with
  | none => throw (.invalid (.noFileName path))
  | some stem =>
    match files.opened path with
    | .error e => throw (.file path e)
    | .ok (bytes, _) =>
      ExceptT.adapt (named path)
        (l.load clock reader { bytes, origin := ⟨files, some path, clock⟩ } target (some stem))

end Loader

end ContentImport
