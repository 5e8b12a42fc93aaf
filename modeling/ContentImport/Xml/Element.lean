import ContentImport.Text.Bytes

/-!
# Elements of XML

What stands in a start tag: a name and attributes, some of which bind qualifiers of names to
namespaces.

* `Attribute.scan` reads the attributes of a tag as far as they are well formed.
* `Scope.declare?` adds the bindings of a tag, and `Scope.space?` finds the namespace of a name.
-/

namespace ContentImport.Xml

/-! ## Names -/

/-- The qualifier of a name, if it has one, and its local part. -/
def cutName (name : Bytes) : Option Bytes × Bytes :=
  match Bytes.cutFirst? [Bytes.char ':'] name with
  | some (qualifier, rest) => (some qualifier, rest)
  | none => (none, name)

/-- The local part of a name. -/
def localName (name : Bytes) : String := Utf8.decodeLossy (cutName name).2

/-! ## Attributes -/

/-- An attribute, its value as it is written. -/
structure Attribute where
  name : Bytes
  value : Bytes
  deriving DecidableEq

namespace Attribute

/-- The value in quotes at the beginning of bytes, and what follows it. -/
def value? : Bytes → Option (Bytes × Bytes)
  | q :: r => if q == 34 || q == 39 then Bytes.cutFirst? [q] r else none
  | [] => none

/-- The attribute at the beginning of bytes, and what follows it. The first byte belongs to the
name whatever it is. -/
def first? : Bytes → Option (Attribute × Bytes)
  | [] => none
  | b :: r =>
    let isName (b : UInt8) : Bool := !Bytes.isBlank b && b != Bytes.char '='
    match Bytes.trimStart (r.dropWhile isName) with
    | [] => none
    | e :: rest =>
      if e = Bytes.char '=' then
        (value? (Bytes.trimStart rest)).map fun p => (⟨b :: r.takeWhile isName, p.1⟩, p.2)
      else none

/-- The attributes before the first fault, and whether there is none; as many as there is fuel
for. -/
def scan : Nat → Bytes → List Attribute × Bool
  | 0, _ => ([], true)
  | fuel + 1, bs =>
    match Bytes.trimStart bs with
    | [] => ([], true)
    | b :: r =>
      match first? (b :: r) with
      | none => ([], false)
      | some (a, rest) =>
        let (more, complete) := scan fuel rest
        (a :: more, complete)

/-- The attributes of bytes before the first fault, and whether there is none. -/
def ofBytes (bs : Bytes) : List Attribute × Bool := scan bs.length bs

/-- The attributes of bytes without faults in which no name occurs twice. -/
def all? (bs : Bytes) : Option (List Attribute) :=
  match ofBytes bs with
  | (as, true) => if (as.map name).Nodup then some as else none
  | (_, false) => none

/-- The qualifier that an attribute binds to a namespace, itself `none` for the namespace of names
without a qualifier. -/
def bound? (a : Attribute) : Option (Option Bytes) :=
  match Bytes.after? "xmlns" a.name with
  | some [] => some none
  | some (b :: qualifier) => if b = Bytes.char ':' then some (some qualifier) else none
  | none => none

end Attribute

/-! ## Namespaces -/

/-- The namespaces of qualifiers, the latest binding first. The empty qualifier is that of names
without one. -/
abbrev Scope := List (Bytes × Bytes)

namespace Scope

/-- The namespace of the qualifier `xml`. -/
def xmlSpace : Bytes := Utf8.encode "http://www.w3.org/XML/1998/namespace"

/-- The namespace of declarations of namespaces. -/
def declarationSpace : Bytes := Utf8.encode "http://www.w3.org/2000/xmlns/"

/-- The bindings outside of all elements. -/
def initial : Scope := [(Utf8.encode "xmlns", declarationSpace), (Utf8.encode "xml", xmlSpace)]

/-- The scope with the binding of an attribute, if it has one. The two reserved qualifiers and
their namespaces stay together. -/
def bind? (scope : Scope) (a : Attribute) : Option Scope :=
  match a.bound? with
  | none => some scope
  | some none => some (([], a.value) :: scope)
  | some (some qualifier) =>
    if qualifier = Utf8.encode "xml" then if a.value = xmlSpace then some scope else none
    else if qualifier = Utf8.encode "xmlns" then none
    else if a.value = xmlSpace ∨ a.value = declarationSpace then none
    else some ((qualifier, a.value) :: scope)

/-- The scope inside an element with attributes. -/
def declare? (scope : Scope) (as : List Attribute) : Option Scope := as.foldlM bind? scope

/-- The namespace of a qualifier. An empty namespace is none. -/
def space? (scope : Scope) (qualifier : Option Bytes) : Option Bytes :=
  if qualifier = some [] then none
  else ((scope.find? fun b => b.1 == qualifier.getD []).map (·.2)).filter (· != [])

end Scope

/-- The start of an element. -/
structure Element where
  /-- The local part of its name. -/
  name : String
  /-- The namespace of its name. -/
  space : Option Bytes
  /-- Its attributes as they are written. -/
  attributes : Bytes
  deriving DecidableEq

end ContentImport.Xml
