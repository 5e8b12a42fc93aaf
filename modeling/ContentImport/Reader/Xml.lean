import ContentImport.Files.Basic
import ContentImport.Import.Call
import ContentImport.Time.Timestamp
import ContentImport.Xml.Event

/-!
# XML documents

An XML document describes nodes by elements: `node` and `property` contain elements that tell
their names, types and values. An element `file` in the namespace of node types stands for a file
beside the document.

* `XmlReader.Draft` is what is known of the node and the property that are being read. A node is
  opened as soon as something begins in it or it ends, when its name and its types are known.
* `XmlReader.event` is the script of one event.
* `XmlReader.script` reads a whole document, and `XmlReader.sources` tells which files it needs.
-/

namespace ContentImport.XmlReader

open Xml (Event Element Attribute)

/-! ## Drafts -/

/-- What is known of a node that is not opened yet. -/
structure NodeDraft where
  name : Option String := none
  type : Option String := none
  mixins : List String := []

/-- What is known of a property that is not ended yet. -/
structure PropertyDraft where
  name : Option String := none
  type : Option String := none
  texts : List String := []
  isMultiple : Bool := false

/-- What is being read. -/
structure Draft where
  node : Option NodeDraft := none
  property : Option PropertyDraft := none
  /-- The text since the last end of an element. -/
  text : String := ""

/-- Where a document comes from: the files around it, and its own name if it has one. -/
structure Origin where
  files : Files
  location : Option String
  /-- The present moment, at which folders count as modified. -/
  clock : Int

/-- The place that the texts of errors tell. -/
def Origin.place (origin : Origin) : String := origin.location.getD "input"

/-- A fault of the content. -/
def fault {α : Type} (f : ContentFault) : Script α := .fail (.invalid f)

/-! ## Nodes and properties -/

/-- Opens the node that is being read, if there is one. -/
def openNode (d : Draft) : Script Draft :=
  match d.node with
  | none => .done d
  | some n => do
    Script.call (.openNode n.name n.type n.mixins)
    return { d with node := none }

/-- The type of a property, which is a string if no other type is told. -/
def propertyType (p : PropertyDraft) : Script ValueType :=
  match p.type with
  | none => .done .string
  | some word =>
    match ValueType.ofWord? word with
    | some t => .done t
    | none => fault (.unknownType word)

/-- The script of a property. One without values, or with several values where one is expected, is
skipped. -/
def property (origin : Origin) (p : PropertyDraft) : Script Unit :=
  match p.name with
  | none => fault (.namelessProperty origin.place)
  | some name => do
    let type ← propertyType p
    match p.isMultiple, p.texts with
    | true, text :: texts => Script.call (.setProperties name type (text :: texts))
    | false, [text] => Script.call (.setProperty name type text)
    | _, _ => .done ()

/-! ## Files -/

/-- The namespace of node types. -/
def typeSpace : Bytes := Utf8.encode "http://www.jcp.org/jcr/nt/1.0"

/-- The attributes of an element that bind no namespaces, by the local parts of their names. -/
def attributes? (e : Element) : Option (List (String × String)) := do
  let as ← Attribute.all? e.attributes
  (as.filter fun a => a.bound?.isNone).mapM fun a =>
    (Xml.Reference.resolve? a.value).map fun value => (Xml.localName a.name, value)

/-- The value of the last attribute with a name. -/
def last? (as : List (String × String)) (name : String) : Option String :=
  Table.lookup name as.reverse

/-- The moment that an attribute tells, if it is there. -/
def modified (place : String) : Option String → Script (Option Int)
  | none => .done none
  | some s =>
    match Timestamp.readSeconds? s with
    | some moment => .done (some moment)
    | none => fault (.fileDate place)

/-- Whether all moments that attributes tell can be read. -/
def moments (place : String) (as : List (String × String)) : Script Unit :=
  Script.each (fun a => (modified place (some a.2)).bind fun _ => .done ())
    (as.filter fun a => a.1 == "lastModified")

/-- The script of a file that attributes describe. The moment of its last modification is its own
if none is told; that of a folder is the present. -/
def importFile (origin : Origin) (location : String) (as : List (String × String)) :
    Script Unit := do
  if as.length < 2 ∨ 3 < as.length then fault (.fileAttributes location)
  moments location as
  let told ← modified location (last? as "lastModified")
  match last? as "src" with
  | none => fault (.fileSource location)
  | some source =>
    let path := FileName.join (FileName.folder location) source
    match origin.files.opened path with
    | .error e => .fail (.file path e)
    | .ok (data, own) => do
      Script.call (.openFile (Text.afterLast '/' source) data (last? as "mimeType")
        (told.getD (own.getD origin.clock)))
      Script.call .closeNode
      Script.call .closeNode

/-- The script of a file element. It is skipped in a document without a name. -/
def file (origin : Origin) (e : Element) : Script Unit :=
  match origin.location with
  | none => .done ()
  | some location =>
    match attributes? e with
    | none => .fail .malformedXml
    | some as => importFile origin location as

/-! ## Events -/

/-- What is being read after an element begins. -/
def opened (origin : Origin) (d : Draft) (e : Element) : Script Draft :=
  match e.name with
  | "file" =>
    if e.space = some typeSpace then do
      let d ← openNode d
      file origin e
      return d
    else .done d
  | "property" => do return { ← openNode d with property := some {} }
  | "node" => do return { ← openNode d with node := some {} }
  | _ => .done d

/-- A change of the property that is being read. -/
def ofProperty (origin : Origin) (d : Draft) (element : String)
    (f : PropertyDraft → PropertyDraft) : Script Draft :=
  match d.property with
  | some p => .done { d with property := some (f p) }
  | none => fault (.unexpectedElement element origin.place)

/-- A change of the node that is being read. -/
def ofNode (origin : Origin) (d : Draft) (element : String) (f : NodeDraft → NodeDraft) :
    Script Draft :=
  match d.node with
  | some n => .done { d with node := some (f n) }
  | none => fault (.misplacedElement element origin.place)

/-- What is being read after the name of a property or else of a node. -/
def named (origin : Origin) (d : Draft) (name : String) : Script Draft :=
  match d.property, d.node with
  | some p, _ => .done { d with property := some { p with name := some name } }
  | none, some n => .done { d with node := some { n with name := some name } }
  | none, none => fault (.unexpectedElement "name" origin.place)

/-- What is being read after an element ends. -/
def closed (origin : Origin) (d : Draft) (element : String) : Script Draft :=
  let content := Text.trim d.text
  let d := { d with text := "" }
  match element with
  | "property" =>
    match d.property with
    | none => .done d
    | some p => do
      property origin p
      return { d with property := none }
  | "name" => named origin d content
  | "value" => ofProperty origin d element fun p => { p with texts := p.texts ++ [content] }
  | "values" => ofProperty origin d element fun p => { p with isMultiple := true }
  | "type" => ofProperty origin d element fun p => { p with type := some content }
  | "node" => do
    let d ← openNode d
    Script.call .closeNode
    return d
  | "primaryNodeType" => ofNode origin d element fun n => { n with type := some content }
  | "mixinNodeType" => ofNode origin d element fun n => { n with mixins := n.mixins ++ [content] }
  | _ => .done d

/-- The script of an event. -/
def event (origin : Origin) (d : Draft) : Event → Script Draft
  | .opened e => opened origin d e
  | .closed name => closed origin d name
  | .text s => .done { d with text := d.text ++ s }
  | .fault => .fail .malformedXml

/-- The script of events. A node that is still being read at the end is dropped. -/
def events (origin : Origin) : Draft → List Event → Script Unit
  | _, [] => .done ()
  | d, e :: r => (event origin d e).bind fun d => events origin d r

/-- The names that the file elements of a document give, relative to its folder. -/
def sources (bytes : Bytes) : List String :=
  (Event.ofBytes bytes).filterMap fun
    | .opened e =>
      if e.name = "file" ∧ e.space = some typeSpace then
        (attributes? e).bind fun as => last? as "src"
      else none
    | _ => none

/-- The script of a document. -/
def script (origin : Origin) (bytes : Bytes) : Script Unit := events origin {} (Event.ofBytes bytes)

end ContentImport.XmlReader
