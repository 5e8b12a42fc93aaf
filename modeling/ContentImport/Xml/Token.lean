import ContentImport.Text.Bytes

/-!
# Tokens of XML

The bytes of a document are cut into tags and what stands between them.

* `Token.markup` reads what begins with an angle bracket.
* `Token.ofBytes` cuts a whole document. A piece that is no token ends it.
-/

namespace ContentImport.Xml

/-- A piece of a document. -/
inductive Token
  /-- Text between tags, in which references stand for characters. -/
  | text (raw : Bytes)
  /-- Text of a character-data section. -/
  | characters (raw : Bytes)
  /-- What stands between the brackets of a start tag. -/
  | startTag (content : Bytes)
  /-- The name in an end tag. -/
  | endTag (name : Bytes)
  /-- A comment, an instruction or a document type. -/
  | silent
  /-- A piece that is no token. -/
  | fault
  deriving DecidableEq

namespace Token

/-! ## Where pieces end -/

/-- Whether a byte is one of the two quotes. -/
def isQuote (b : UInt8) : Bool := b == 34 || b == 39

/-- A tag up to its closing bracket, which does not count inside quotes, and what follows it. The
first argument is the quote that is open. -/
def tag : Option UInt8 → Bytes → Option (Bytes × Bytes)
  | _, [] => none
  | none, b :: r =>
    if b = Bytes.char '>' then some ([], r)
    else (tag (if isQuote b then some b else none) r).map fun p => (b :: p.1, p.2)
  | some q, b :: r => (tag (if b = q then none else some q) r).map fun p => (b :: p.1, p.2)

/-- A document type up to the bracket that closes it, and what follows it. The first argument counts
the brackets that are open inside it. -/
def docType : Nat → Bytes → Option (Bytes × Bytes)
  | _, [] => none
  | depth, b :: r =>
    if b = Bytes.char '>' then
      match depth with
      | 0 => some ([], r)
      | depth + 1 => (docType depth r).map fun p => (b :: p.1, p.2)
    else
      (docType (if b = Bytes.char '<' then depth + 1 else depth) r).map fun p => (b :: p.1, p.2)

/-! ## Markup -/

/-- Whether bytes begin with the keyword of a document type, in letters of any case. -/
def isDocType (bs : Bytes) : Bool :=
  Text.sameLetters (Utf8.decodeLossy (bs.take 7)) "DOCTYPE"

/-- The token that begins with a bracket and an exclamation mark. -/
def declaration (bs : Bytes) : Option (Token × Bytes) :=
  match Bytes.after? "--" bs with
  | some r => (Bytes.cutFirst? (Utf8.encode "-->") r).map fun p => (.silent, p.2)
  | none =>
    match Bytes.after? "[CDATA[" bs with
    | some r => (Bytes.cutFirst? (Utf8.encode "]]>") r).map fun p => (.characters p.1, p.2)
    | none =>
      if isDocType bs then
        (docType 0 (bs.drop 7)).bind fun p =>
          if (Bytes.trimStart p.1).isEmpty then none else some (.silent, p.2)
      else none

/-- The token that begins with a bracket and a question mark. -/
def instruction (bs : Bytes) : Option (Token × Bytes) :=
  if (Bytes.after? ">" bs).isSome then none
  else (Bytes.cutFirst? (Utf8.encode "?>") bs).map fun p => (.silent, p.2)

/-- The name in an end tag, without the blanks behind it. A name of nothing but blanks is kept as it
is. -/
def endName (content : Bytes) : Bytes :=
  if (Bytes.trimEnd content).isEmpty then content else Bytes.trimEnd content

/-- The token of the bytes behind an opening bracket, and what follows it. -/
def markup : Bytes → Option (Token × Bytes)
  | [] => none
  | b :: r =>
    if b = Bytes.char '!' then declaration r
    else if b = Bytes.char '?' then instruction r
    else if b = Bytes.char '/' then (tag none r).map fun p => (.endTag (endName p.1), p.2)
    else (tag none (b :: r)).map fun p => (.startTag p.1, p.2)

/-! ## Documents -/

/-- The tokens of bytes, as many as there is fuel for. -/
def scan : Nat → Bytes → List Token
  | 0, _ => []
  | _ + 1, [] => []
  | fuel + 1, b :: r =>
    if b = Bytes.char '<' then
      match markup r with
      | some (token, rest) => token :: scan fuel rest
      | none => [.fault]
    else
      let isText (b : UInt8) : Bool := b != Bytes.char '<'
      .text (b :: r.takeWhile isText) :: scan fuel (r.dropWhile isText)

/-- The bytes of a document without the mark that may stand at the beginning of UTF-8. -/
def withoutMark : Bytes → Bytes
  | 0xEF :: 0xBB :: 0xBF :: r => r
  | bs => bs

/-- The tokens of a document; every token takes at least one byte. -/
def ofBytes (bs : Bytes) : List Token := scan bs.length (withoutMark bs)

end Token

end ContentImport.Xml
