import ContentImport.Access.Error

/-!
# Order directives

An order directive says where the entries of a principal go in an access-control list.
`OrderDirective.parse` reads one and `OrderDirective.text` writes it.
-/

namespace ContentImport

/-- A place among the principals of an access-control list. -/
inductive OrderDirective
  | first
  | last
  | before (principal : String)
  | after (principal : String)
  /-- At the place of the principal with a number, counted from zero. -/
  | index (n : Int)
  deriving DecidableEq

namespace OrderDirective

/-- The integer that a text writes, if it has at most 64 bits. -/
def parseIndex? (s : String) : Option Int :=
  (Integer.signed? s.toList).bind fun n => if -2 ^ 63 ≤ n ∧ n < 2 ^ 63 then some n else none

/-- The directive that a text gives. A name is all that follows the blank. -/
def parse? (s : String) : Option OrderDirective :=
  if s = "first" then some .first
  else if s = "last" then some .last
  else match Text.after? "before " s with
    | some name => some (.before name)
    | none =>
      match Text.after? "after " s with
      | some name => some (.after name)
      | none => (parseIndex? s).map .index

/-- The directive that a text gives, or else the text as an error. -/
def parse (s : String) : Except AccessError OrderDirective :=
  match parse? s with
  | some d => .ok d
  | none => .error (.invalidOrder s)

/-- The text of a directive. -/
def text : OrderDirective → String
  | .first => "first"
  | .last => "last"
  | .before name => "before " ++ name
  | .after name => "after " ++ name
  | .index n => Integer.render n

end OrderDirective

end ContentImport
