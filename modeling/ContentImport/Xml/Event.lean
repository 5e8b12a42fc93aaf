import ContentImport.Xml.Element
import ContentImport.Xml.Reference
import ContentImport.Xml.Token

/-!
# Events of XML

A document as the beginnings and ends of its elements and the text between them.

* `Event.ofTokens` matches end tags with start tags. An element may still be open at the end of the
  document.
* `Event.ofBytes` reads a document. The first fault ends it.
-/

namespace ContentImport.Xml

/-- What a document says in one place. -/
inductive Event
  | opened (e : Element)
  /-- The end of an element with the local part of its name. -/
  | closed (name : String)
  | text (s : String)
  /-- Here the document is not well formed. -/
  | fault
  deriving DecidableEq

namespace Event

/-- An open element: its name, and the bindings that hold inside it. -/
structure Opened where
  name : Bytes
  scope : Scope

/-- The bindings that hold inside the innermost of the open elements. -/
def scopeOf : List Opened → Scope
  | [] => Scope.initial
  | o :: _ => o.scope

/-- The content of a start tag without the slash that stands at the end of an element without
content, and whether there is one. -/
def withoutSlash (content : Bytes) : Bytes × Bool :=
  match content.reverse with
  | b :: r => if b = Bytes.char '/' then (r.reverse, true) else (content, false)
  | [] => ([], false)

/-- The name and the attributes in a start tag. -/
def cutTag (content : Bytes) : Bytes × Bytes := content.span fun b => !Bytes.isBlank b

/-- The beginning of an element, with the element as an open one. -/
def start? (outside : Scope) (content : Bytes) : Option (Element × Opened) :=
  let (name, attributes) := cutTag content
  (outside.declare? (Attribute.ofBytes attributes).1).map fun scope =>
    (⟨localName name, scope.space? (cutName name).1, attributes⟩, ⟨name, scope⟩)

/-- The events of tokens inside the elements that are open, the innermost first. -/
def ofTokens : List Opened → List Token → List Event
  | _, [] => []
  | stack, .text raw :: r =>
    match Reference.resolve? raw with
    | some s => .text s :: ofTokens stack r
    | none => [.fault]
  | stack, .characters raw :: r => .text (Utf8.decodeLossy raw) :: ofTokens stack r
  | stack, .startTag content :: r =>
    let (content, isEmpty) := withoutSlash content
    match start? (scopeOf stack) content with
    | none => [.fault]
    | some (e, o) =>
      .opened e ::
        if isEmpty then .closed e.name :: ofTokens stack r else ofTokens (o :: stack) r
  | [], .endTag _ :: _ => [.fault]
  | o :: stack, .endTag name :: r =>
    if o.name = name then .closed (localName name) :: ofTokens stack r else [.fault]
  | stack, .silent :: r => ofTokens stack r
  | _, .fault :: _ => [.fault]

/-- The events of a document. -/
def ofBytes (bs : Bytes) : List Event := ofTokens [] (Token.ofBytes bs)

end Event

end ContentImport.Xml
