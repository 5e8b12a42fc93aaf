import ContentImport.Text.Basic

/-!
# Command-line arguments

A command line consists of options and operands. An option has a long name behind two dashes, and
may have a letter behind one dash; several letters may stand behind one dash. The value of an
option follows an equals sign or is the next argument. After two dashes alone all arguments are
operands.

* `Cli.CommandForm` says which options and operands a command knows.
* `CommandForm.scan` reads the arguments of a command up to the name of a command inside it.
-/

namespace ContentImport.Cli

/-- Why a command is not carried out. -/
inductive Refusal
  | usage
  | help
  | version
  deriving DecidableEq

/-- What an option is for. -/
inductive OptionRole
  | flag
  /-- A value that passes a test; it is given once or any number of times. -/
  | value (accepts : String → Bool) (isRepeatable : Bool)
  /-- Instead of the command something else is asked for. -/
  | refusal (r : Refusal)

/-- An option that a command knows. -/
structure OptionForm where
  name : String
  letter : Option Char := none
  role : OptionRole := .flag

/-- The options, the operands and the inner commands of a command. -/
structure CommandForm where
  options : List OptionForm
  /-- The test for operands. -/
  operand : String → Bool := fun _ => false
  commands : List String := []

/-- What was given to a command. -/
structure Given where
  /-- The options in order with their values. -/
  options : List (String × String) := []
  operands : List String := []

namespace Given

/-- Whether an option was given. -/
def has (g : Given) (name : String) : Bool := g.options.any fun o => o.1 == name

/-- The values of an option. -/
def values (g : Given) (name : String) : List String :=
  (g.options.filter fun o => o.1 == name).map (·.2)

/-- The value of an option that is given at most once. -/
def value? (g : Given) (name : String) : Option String := (g.values name).head?

end Given

/-- What a command line says: what is given to the command, and the inner command with the arguments
that follow it. -/
abbrev Scanned := Given × Option (String × List String)

namespace CommandForm

/-- The option with a long name. -/
def long? (s : CommandForm) (name : String) : Option OptionForm :=
  s.options.find? fun o => o.name == name

/-- The option with a letter. -/
def short? (s : CommandForm) (letter : Char) : Option OptionForm :=
  s.options.find? fun o => o.letter == some letter

/-- Adds a flag. -/
def addFlag (g : Given) (o : OptionForm) : Except Refusal Given :=
  match o.role with
  | .refusal r => .error r
  | _ =>
    if g.has o.name then .error .usage
    else .ok { g with options := g.options ++ [(o.name, "")] }

/-- Adds an option with its value. -/
def addValue (g : Given) (o : OptionForm) (value : String) : Except Refusal Given :=
  match o.role with
  | .value accepts isRepeatable =>
    if !accepts value || (!isRepeatable && g.has o.name) then .error .usage
    else .ok { g with options := g.options ++ [(o.name, value)] }
  | _ => .error .usage

/-- Adds an operand. -/
def addOperand (s : CommandForm) (g : Given) (operand : String) : Except Refusal Given :=
  if s.operand operand then .ok { g with operands := g.operands ++ [operand] } else .error .usage

/-- What an argument leads to: what is given then, and the option whose value is to come. -/
abbrev Outcome := Except Refusal (Given × Option OptionForm)

/-- Whether an option has a value. -/
def OptionForm.hasValue (o : OptionForm) : Bool :=
  match o.role with
  | .value _ _ => true
  | _ => false

/-- Reads what stands behind two dashes: a name, and a value if there is an equals sign. -/
def long (s : CommandForm) (g : Given) (body : List Char) : Outcome :=
  let name := String.ofList (body.takeWhile (· != '='))
  match s.long? name, body.dropWhile (· != '=') with
  | none, _ => .error .usage
  | some o, _ :: value => (addValue g o (String.ofList value)).map fun g => (g, none)
  | some o, [] =>
    if OptionForm.hasValue o then .ok (g, some o) else (addFlag g o).map fun g => (g, none)

/-- Reads the letters behind one dash. What follows the letter of an option with a value is the
value; it may begin with an equals sign. -/
def letters (s : CommandForm) (g : Given) : List Char → Outcome
  | [] => .ok (g, none)
  | c :: r =>
    match s.short? c with
    | none => .error .usage
    | some o =>
      if OptionForm.hasValue o then
        match r with
        | [] => .ok (g, some o)
        | '=' :: value => (addValue g o (String.ofList value)).map fun g => (g, none)
        | value => (addValue g o (String.ofList value)).map fun g => (g, none)
      else (addFlag g o).bind fun g => letters s g r

/-- How an argument is written. -/
inductive Shape
  | terminator
  | long (body : List Char)
  | letters (body : List Char)
  | plain

/-- The way an argument is written. One dash alone is an operand. -/
def shape (argument : String) : Shape :=
  match argument.toList with
  | ['-', '-'] => .terminator
  | '-' :: '-' :: body => .long body
  | '-' :: c :: body => .letters (c :: body)
  | _ => .plain

/-- Reads arguments after what is given so far; the option, if any, is one whose value is to
come. -/
def scanFrom (s : CommandForm) : Given → Option OptionForm → List String → Except Refusal Scanned
  | g, none, [] => .ok (g, none)
  | _, some _, [] => .error .usage
  | g, some o, argument :: rest =>
    match shape argument with
    | .plain => (addValue g o argument).bind fun g => scanFrom s g none rest
    | _ => .error .usage
  | g, none, argument :: rest =>
    if argument ∈ s.commands then .ok (g, some (argument, rest))
    else
      match shape argument with
      | .terminator => (rest.foldlM s.addOperand g).map fun g => (g, none)
      | .long body => (s.long g body).bind fun (g, o) => scanFrom s g o rest
      | .letters body => (s.letters g body).bind fun (g, o) => scanFrom s g o rest
      | .plain => (s.addOperand g argument).bind fun g => scanFrom s g none rest

/-- Reads the arguments of a command. -/
def scan (s : CommandForm) (arguments : List String) : Except Refusal Scanned :=
  scanFrom s {} none arguments

end CommandForm

end ContentImport.Cli
