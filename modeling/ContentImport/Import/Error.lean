import ContentImport.Files.Basic
import ContentImport.Repository.Basic

/-!
# Errors of an import

* `ContentFault` is what can be wrong with content that is well-formed.
* `ArchiveError` is why an archive is not unpacked.
* `ImportError` is why an import fails.
-/

namespace ContentImport

/-- What is wrong with the content of a document. -/
inductive ContentFault
  | noOpenNode
  | nothingToClose
  | namelessNode
  | momentOutOfRange (moment : Int)
  | unknownEncoding (name : String)
  | notUtf8
  | notArray (field : String)
  | notString (field kind : String)
  | principalKind (kind : String)
  | principalName
  | entryKind (kind : String)
  | entryPrincipal
  | orderKind (kind : String)
  | unknownRestriction (name : String)
  | severalValues (name : String)
  | unexpectedElement (element place : String)
  | misplacedElement (element place : String)
  | namelessProperty (place : String)
  | unknownType (word : String)
  | fileAttributes (place : String)
  | fileDate (place : String)
  | fileSource (place : String)
  | noFileName (path : String)
  deriving DecidableEq

/-- The text of a fault. -/
def ContentFault.message : ContentFault → String
  | .noOpenNode => "no node is open"
  | .nothingToClose => "finish_node without an open node"
  | .namelessNode => "Node needs to have a name."
  | .momentOutOfRange moment => "timestamp out of range: " ++ Integer.render moment
  | .unknownEncoding name => "unsupported content encoding: " ++ name
  | .notUtf8 => "content is not valid UTF-8"
  | .notArray field => "'" ++ field ++ "' must be an array"
  | .notString field kind => "'" ++ field ++ "' must only hold strings, found " ++ kind
  | .principalKind kind => "Unexpected data type in principals array: " ++ kind
  | .principalName => "principal entry requires a string 'name'"
  | .entryKind kind => "Unexpected data type in acl array: " ++ kind
  | .entryPrincipal => "acl entry requires a string 'principal'"
  | .orderKind kind => "Unexpected data type for acl order: " ++ kind
  | .unknownRestriction name => "Invalid or not supported restriction name was supplied: " ++ name
  | .severalValues name =>
    "Unexpected multi value array data found for single-value restriction value for name: " ++ name
  | .unexpectedElement element place =>
    "XML file does not seem to contain valid content xml. Unexpected " ++ element ++
      " element in : " ++ place
  | .misplacedElement element place =>
    "Element is not allowed at this location: " ++ element ++ " in " ++ place
  | .namelessProperty place =>
    "XML file does not seem to contain valid content xml. " ++
      "Expected name element for property in : " ++ place
  | .unknownType word => "Unknown property type: " ++ word
  | .fileAttributes place =>
    "File element must have these attributes: url, mimeType and lastModified: " ++ place
  | .fileDate place => "Error parsing file description: " ++ place
  | .fileSource place => "File element requires a src attribute: " ++ place
  | .noFileName path => "no usable file name: " ++ path

/-- Why an archive is not unpacked. -/
inductive ArchiveError
  | tooManyEntries
  | totalSizeExceeded
  | ratioExceeded
  | scratch (e : FileError)
  | unreadable (e : Option FileError)
  | malformed
  deriving DecidableEq

/-- The text of an error. -/
def ArchiveError.message : ArchiveError → String
  | .tooManyEntries => "The total entries count of the archive exceeded the allowed threshold"
  | .totalSizeExceeded => "The total size of the archive exceeded the allowed threshold"
  | .ratioExceeded => "The compression ratio exceeded the allowed threshold"
  | .scratch e => "failed to create the scratch file: " ++ e.message
  | .unreadable (some e) => "I/O error while extracting: " ++ e.message
  | .unreadable none => "I/O error while extracting: corrupt data"
  | .malformed => "invalid archive: not a Zip archive"

/-- Why an import fails. -/
inductive ImportError
  | malformedJson
  | malformedXml
  | archive (e : ArchiveError)
  | repository (e : RepositoryError)
  | access (e : AccessError)
  /-- The entries of a node are not updated. -/
  | entries (path : String) (e : RepositoryError)
  /-- Content without a name cannot be read. -/
  | content (e : FileError)
  /-- A named file cannot be read. -/
  | file (path : String) (e : FileError)
  | invalid (fault : ContentFault)
  | noReader (extension : String)
  deriving DecidableEq

namespace ImportError

/-- The text of an error. -/
def message : ImportError → String
  | .malformedJson => "malformed JSON"
  | .malformedXml => "malformed XML"
  | .archive e => e.message
  | .repository e => e.message
  | .access e => e.message
  | .entries path e => "Failed to create ace on " ++ path ++ ": " ++ e.message
  | .content e => "failed to read content: " ++ e.message
  | .file path e => "failed to read " ++ path ++ ": " ++ e.message
  | .invalid fault => fault.message
  | .noReader extension => "no content reader registered for extension '" ++ extension ++ "'"

/-- The text of the error that caused an error, if there is one. -/
def cause? : ImportError → Option String
  | .entries _ e => some e.message
  | .content e => some e.message
  | .file _ e => some e.message
  | .archive (.scratch e) => some e.message
  | .archive (.unreadable (some e)) => some e.message
  | _ => none

end ImportError

end ContentImport
