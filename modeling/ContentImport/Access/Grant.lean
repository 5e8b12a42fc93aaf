import ContentImport.Access.Entry
import ContentImport.Access.Privilege

/-!
# Grants

A grant allows and denies one privilege, each under its own restrictions or not at all. `Grants`
collects grants by privilege name in the order of first mention; what is said again about a side
replaces what was said before.
-/

namespace ContentImport

/-- What is allowed and denied of one privilege. The privilege itself is known once it is bound. -/
structure Grant where
  name : String
  allow : Option RestrictionSet := none
  deny : Option RestrictionSet := none
  privilege : Option Privilege := none

namespace Grant

/-- The restrictions of the allowing or of the denying side. -/
def side (g : Grant) (isAllow : Bool) : Option RestrictionSet := if isAllow then g.allow else g.deny

/-- Whether a grant allows or denies anything. -/
def isActive (g : Grant) : Bool := g.allow.isSome || g.deny.isSome

end Grant

/-- Grants by privilege name in the order of first mention. -/
abbrev Grants := Table Grant

namespace Grants

/-- The grant of a name, or a new one. -/
def entry (gs : Grants) (name : String) : Grant := (gs.get? name).getD { name }

/-- Allows a privilege under restrictions. -/
def allow (gs : Grants) (name : String) (restrictions : RestrictionSet) : Grants :=
  gs.insert name { gs.entry name with allow := some restrictions }

/-- Denies a privilege under restrictions. -/
def deny (gs : Grants) (name : String) (restrictions : RestrictionSet) : Grants :=
  gs.insert name { gs.entry name with deny := some restrictions }

end Grants

end ContentImport
