import ContentImport.Value

/-!
# Errors of access control

The causes for which a privilege hierarchy is refused or an access-control list is not updated.
-/

namespace ContentImport

/-- Why access control fails. -/
inductive AccessError
  | principalNotFound (id : String)
  | privilegeNotFound (name : String)
  | unresolvedPrivilege (name : String)
  | orderTargetNotFound (principal : String)
  | orderIndexOutOfRange (n : Int)
  | invalidOrder (text : String)
  | duplicateRestriction (name : String)
  | invalidValue (e : Value.Invalid)
  | unknownAggregate (privilege aggregate : String)
  | privilegeCycle (name : String)
  deriving DecidableEq

/-- The text of an error. -/
def AccessError.message : AccessError → String
  | .principalNotFound id => "No principal found for id: " ++ id
  | .privilegeNotFound name => "privilege '" ++ name ++ "' not found"
  | .unresolvedPrivilege name => "privilege '" ++ name ++ "' has not been resolved"
  | .orderTargetNotFound name => "No ACE was found for the specified principal: " ++ name
  | .orderIndexOutOfRange n => "Index value is too large: " ++ Integer.render n
  | .invalidOrder text => "Illegal value for the order parameter: " ++ text
  | .duplicateRestriction name => "duplicate restriction '" ++ name ++ "'"
  | .invalidValue e => e.message
  | .unknownAggregate privilege aggregate =>
    "privilege '" ++ privilege ++ "' aggregates unknown privilege '" ++ aggregate ++ "'"
  | .privilegeCycle name => "privilege aggregation cycle through '" ++ name ++ "'"

end ContentImport
