import ContentImport.Cli.Arguments
import ContentImport.Number.Binary64
import ContentImport.Number.Integer
import ContentImport.Repository.Registry

/-!
# The commands

What a command line asks for. Some options that are not given are taken from the environment.

* `Command.parse` reads a command line, and `Command.inputs` are the files that it names.
-/

namespace ContentImport.Cli

/-! ## Values of options -/

/-- A natural number below `2 ^ 64`. -/
def natural? (s : String) : Option Nat :=
  (Integer.unsigned? s.toList).filter fun n => n < 2 ^ 64

/-- Whether a text can name a file. -/
def isFileName (s : String) : Bool := s != ""

/-- An option with a value that is given at most once. -/
def single (name : String) (accepts : String → Bool) (letter : Option Char := none) : OptionForm :=
  ⟨name, letter, .value accepts false⟩

/-- The option that asks for help. -/
def helpOption : OptionForm := ⟨"help", some 'h', .refusal .help⟩

/-- The option that tells the configuration file. -/
def configOption : OptionForm := single "config" isFileName (some 'c')

/-- The options that stand before or behind the name of a command. -/
def globalOptions : List OptionForm :=
  [ configOption, ⟨"json", none, .flag⟩, ⟨"pretty", none, .flag⟩, ⟨"quiet", none, .flag⟩,
    ⟨"verbose", some 'v', .flag⟩, helpOption ]

/-- The options of the program and its commands. -/
def program : CommandForm where
  options := globalOptions ++ [⟨"version", some 'V', .refusal .version⟩]
  commands := ["load", "privileges", "help"]

/-- The options for thresholds. -/
def thresholdOptions : List OptionForm :=
  [ single "max-entries" fun s => (natural? s).isSome,
    single "max-size" fun s => (natural? s).isSome,
    single "max-ratio" fun s => (Binary64.read? s).isSome ]

/-- The options of the command that loads files; its operands are the files. -/
def loadForm : CommandForm where
  options := globalOptions ++ thresholdOptions ++
    [ single "target" (fun _ => true) (some 't'), ⟨"overwrite", none, .flag⟩,
      ⟨"property-overwrite", none, .flag⟩, ⟨"property-merge", none, .flag⟩,
      ⟨"merge", none, .flag⟩, ⟨"ignore", none, .value (fun _ => true) true⟩ ]
  operand := isFileName

/-- The options of the command that lists privileges. -/
def privilegesForm : CommandForm where
  options := globalOptions ++ [single "definitions" isFileName, single "root" fun _ => true]

/-! ## The environment -/

/-- The variables that stand for options. -/
def environmentOptions : List (String × OptionForm) :=
  ("CLOAD_CONFIG", configOption) ::
    ["CLOAD_MAX_ENTRIES", "CLOAD_MAX_SIZE", "CLOAD_MAX_RATIO"].zip thresholdOptions

/-- What is given to a command with the options that only the environment gives, if the command
knows them. -/
def CommandForm.withEnvironment (form : CommandForm) (environment : List (String × String))
    (g : Given) : Except Refusal Given :=
  environmentOptions.foldlM (fun g (variableName, o) =>
    match environment.find? fun e => e.1 == variableName with
    | some (_, value) =>
      if g.has o.name || (form.long? o.name).isNone then .ok g else CommandForm.addValue g o value
    | none => .ok g) g

/-! ## Commands -/

/-- What is to be loaded, and how. -/
structure LoadCommand where
  paths : List String
  target : String
  overwrite : Bool
  propertyOverwrite : Bool
  propertyMerge : Bool
  merge : Bool
  ignored : List String
  maxEntries : Option Nat
  maxSize : Option Nat
  maxRatio : Option Binary64

/-- What a command is about. -/
inductive Action
  | load (c : LoadCommand)
  /-- Lists the privileges of definitions in a file, or the built-in ones. -/
  | privileges (definitions : Option String) (root : String)

/-- A command with the options that all commands have. -/
structure Command where
  config : Option String
  json : Bool
  pretty : Bool
  quiet : Bool
  action : Action

namespace Command

/-- The command that loads files, of which there has to be one. -/
def loadAction (g : Given) : Except Refusal Action :=
  if g.operands.isEmpty then .error .usage
  else .ok <| .load
    { paths := g.operands
      target := (g.value? "target").getD "/"
      overwrite := g.has "overwrite"
      propertyOverwrite := g.has "property-overwrite"
      propertyMerge := g.has "property-merge"
      merge := g.has "merge"
      ignored := g.values "ignore"
      maxEntries := (g.value? "max-entries").bind natural?
      maxSize := (g.value? "max-size").bind natural?
      maxRatio := (g.value? "max-ratio").bind Binary64.read? }

/-- The command that lists privileges. -/
def privilegesAction (g : Given) : Except Refusal Action :=
  .ok (.privileges (g.value? "definitions") ((g.value? "root").getD Registry.standardRoot))

/-- What comes of asking for help with arguments: at most one, the name of a command. -/
def helpRefusal : List String → Refusal
  | [] => .help
  | [name] => if name ∈ program.commands then .help else .usage
  | _ => .usage

/-- Reads what follows the name of a command. -/
def inner (name : String) (arguments : List String) :
    Except Refusal (CommandForm × (Given → Except Refusal Action) × Given) := do
  let (form, action) ← match name with
    | "load" => .ok (loadForm, loadAction)
    | "privileges" => .ok (privilegesForm, privilegesAction)
    | _ => .error (helpRefusal arguments)
  let (g, _) ← form.scan arguments
  return (form, action, g)

/-- The configuration file: what is given behind the name of the command comes before what is given
in front of it, and that before the environment. -/
def config? (outer innerOnly withEnvironment : Given) : Option String :=
  (innerOnly.value? "config").orElse fun _ =>
    (outer.value? "config").orElse fun _ => withEnvironment.value? "config"

/-- Reads a command line. -/
def parse (environment : List (String × String)) (arguments : List String) :
    Except Refusal Command := do
  let (outer, rest) ← program.scan arguments
  let some (name, arguments) := rest | .error .usage
  let (form, action, g) ← inner name arguments
  let complete ← form.withEnvironment environment g
  let action ← action complete
  let outerComplete ← program.withEnvironment environment outer
  let has (flag : String) : Bool := outer.has flag || g.has flag
  return { config := config? outer g outerComplete
           json := has "json"
           pretty := has "pretty"
           quiet := has "quiet"
           action }

/-- The files and folders that a command names. -/
def inputs (c : Command) : List String :=
  c.config.toList ++ match c.action with
    | .load l => l.paths
    | .privileges definitions _ => definitions.toList

end Command

end ContentImport.Cli
