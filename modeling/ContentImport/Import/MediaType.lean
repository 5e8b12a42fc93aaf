import ContentImport.Files.Name
import ContentImport.Import.MediaType.Application
import ContentImport.Import.MediaType.Media
import ContentImport.Import.MediaType.Vendor

/-!
# Media types

The media type of a file is told by the extension of its name, letters being compared without
regard to case.

* `MediaType.ofExtension?` looks an extension up.
* `MediaType.ofName` is the media type of a file.
-/

namespace ContentImport.MediaType

/-- The type of content of which nothing is known. -/
def unknown : String := "application/octet-stream"

/-- Extensions by the part of a `model` type behind the slash. -/
def model : List (String × List String) :=
  [ ("gltf+json", ["gltf"]),
    ("gltf-binary", ["glb"]),
    ("iges", ["iges", "igs"]),
    ("mesh", ["mesh", "msh", "silo"]),
    ("vnd.collada+xml", ["dae"]),
    ("vnd.gdl", ["gdl"]),
    ("vnd.gtw", ["gtw"]),
    ("vnd.vtu", ["vtu"]),
    ("vrml", ["vrml"]),
    ("x3d+binary", ["x3db", "x3dbz"]),
    ("x3d+vrml", ["x3dv", "x3dvz"]),
    ("x3d+xml", ["x3d", "x3dz"]) ]

/-- Extensions by the part of a `chemical` type behind the slash. -/
def chemical : List (String × List String) :=
  [ ("x-cdx", ["cdx"]), ("x-cif", ["cif"]), ("x-cmdf", ["cmdf"]), ("x-cml", ["cml"]),
    ("x-csml", ["csml"]), ("x-xyz", ["xyz"]) ]

/-- Extensions by the part of a `message` type behind the slash. -/
def message : List (String × List String) :=
  [ ("disposition-notification", ["disposition-notification"]),
    ("global", ["u8msg"]),
    ("global-delivery-status", ["u8dsn"]),
    ("global-disposition-notification", ["u8mdn"]),
    ("global-headers", ["u8hdr"]),
    ("rfc822", ["eml", "mht", "mhtml", "mime", "nws"]) ]

/-- Extensions by media type: the part before the slash, and for each part behind it the
extensions. No extension has two types. -/
def groups : List (String × List (String × List String)) :=
  [ ("text", text), ("image", image), ("audio", audio), ("video", video),
    ("application", standard), ("application", unregistered), ("application", vendor),
    ("chemical", chemical), ("drawing", [("x-dwf", ["dwf"])]),
    ("font", [("collection", ["ttc"]), ("ttf", ["ttf"]), ("woff2", ["woff2"])]),
    ("message", message), ("model", model), ("x-conference", [("x-cooltalk", ["ice"])]),
    ("x-world", [("x-vrml", ["flr", "wrl", "wrz", "xaf", "xof"])]) ]

/-- A letter as it is compared: in small form, the Kelvin sign as `k` and the long s as `s`. -/
def foldChar (c : Char) : Char :=
  if c == '\u212a' then 'k' else if c == '\u017f' then 's' else Text.lowerChar c

/-- The media type of an extension. -/
def ofExtension? (extension : String) : Option String :=
  let folded := String.ofList (extension.toList.map foldChar)
  groups.findSome? fun group =>
    (group.2.find? fun row => row.2.contains folded).map fun row => group.1 ++ "/" ++ row.1

/-- The media type that the name of a file tells. -/
def ofName (name : String) : String :=
  ((FileName.extension? name).bind ofExtension?).getD unknown

end ContentImport.MediaType
