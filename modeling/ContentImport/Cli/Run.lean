import ContentImport.Cli.Command
import ContentImport.Load.Folder
import ContentImport.Repository.Render

/-!
# Running a command

A command gives data that are printed, or an error.

* `Cli.load` loads files into a new repository and shows what it holds then.
* `Cli.privileges` lists privileges with their depths.
* `Cli.run` reads a command line and says what the program prints.
-/

namespace ContentImport.Cli

/-! ## Errors -/

/-- Why a command fails. -/
inductive CommandError
  | config (path : String) (e : ImportError)
  | relativeTarget (target : String)
  | folder (path : String) (e : RepositoryError)
  | document (path : String) (e : ImportError)
  | content (e : RepositoryError)
  | unreadable (path : String) (e : FileError)
  | malformed (path : String)
  | registry (e : AccessError)
  deriving DecidableEq

/-- The texts of an error of an import: its own, and that of its cause. -/
def importTexts (e : ImportError) : List String := e.message :: e.cause?.toList

/-- The texts of an error, from what was tried to the cause. -/
def CommandError.texts : CommandError → List String
  | .config path e => ("load config " ++ path) :: importTexts e
  | .relativeTarget target => ["target must be an absolute path: " ++ target]
  | .folder path e => ["create " ++ path, e.message]
  | .document path e => ("load " ++ path) :: importTexts e
  | .content e => [e.message]
  | .unreadable path e => ["read " ++ path, e.message]
  | .malformed path => ["parse " ++ path, "malformed JSON"]
  | .registry e => [e.message]

/-- The text of an error. -/
def CommandError.message (e : CommandError) : String := Text.join ": " e.texts

/-! ## Loading -/

/-- The configuration of a command. -/
def configuration (files : Files) (c : Command) : Except CommandError LoadConfig :=
  match c.config with
  | none => .ok {}
  | some path => (LoadConfig.read files path).mapError (.config path)

/-- A configuration with what a command changes in it. -/
def LoadCommand.apply (c : LoadCommand) (config : LoadConfig) : LoadConfig where
  thresholds :=
    { maxEntries := c.maxEntries.getD config.thresholds.maxEntries
      maxTotalSize := c.maxSize.getD config.thresholds.maxTotalSize
      maxRatio := c.maxRatio.getD config.thresholds.maxRatio }
  options :=
    { overwrite := config.options.overwrite || c.overwrite
      propertyOverwrite := config.options.propertyOverwrite || c.propertyOverwrite
      propertyMerge := config.options.propertyMerge || c.propertyMerge
      merge := config.options.merge || c.merge
      ignored := config.options.ignored ++ c.ignored }

/-- A change of a repository by a command. -/
abbrev Change (α : Type) := ExceptT CommandError (StateM Repository) α

/-- Loads one path, which may be that of a folder. -/
def loadPath (l : Loader) (clock : Int) (files : Files) (target : String)
    (soFar : Loader.Report) (path : String) : Change Loader.Report :=
  if files.isFolder path then
    ExceptT.adapt (fun e => .folder e.1 e.2) (l.loadFolder clock files path target soFar)
  else do
    let created ← ExceptT.adapt (.document path) (l.loadFile clock files path target)
    return { soFar with created := soFar.created ++ created }

/-- The path of the target without slashes at its end. -/
def targetPath (target : String) : Except CommandError String :=
  if Text.startsWith "/" target then
    let path := Text.dropEnd '/' target
    .ok (if path = "" then Path.root else path)
  else .error (.relativeTarget target)

/-- An authorizable in a listing. -/
def authorizable (a : Authorizable) : Json :=
  .object
    [ ("id", .string a.id), ("group", .bool (a.kind == .group)), ("members", .ofStrings a.members) ]

/-- The data and the warnings of a command. -/
structure Answer where
  data : Json
  warnings : List String := []

/-- A file that could not be loaded, in a warning. -/
def warning (failed : String × ImportError) : String := failed.1 ++ ": " ++ failed.2.message

/-- What a repository holds below a target after loading. -/
def answer (r : Repository) (target : String) (report : Loader.Report) :
    Except CommandError Answer := do
  let content ← (r.toJson target).mapError .content
  return { data := .object
             [ ("created", .ofStrings report.created), ("content", content),
               ("acls", r.aclsToJson target),
               ("authorizables", .array (r.authorizables.values.map authorizable)) ]
           warnings := report.failed.map warning }

/-- Loads files into a repository. -/
def loadInto (c : LoadCommand) (config : LoadConfig) (clock : Int) (files : Files) :
    Change Answer := do
  let target ← targetPath c.target
  ExceptT.adapt (fun e => .folder e.1 e.2) (Loader.ensureFolders target)
  let loader := Loader.ofConfig (c.apply config)
  let report ← c.paths.foldlM (loadPath loader clock files target) {}
  answer (← get) target report

/-- Loads files into a new repository. -/
def load (c : LoadCommand) (config : LoadConfig) (clock : Int) (files : Files) :
    Except CommandError Answer :=
  ((loadInto c config clock files).run.run Repository.new).1

/-! ## Privileges -/

/-- The names of the fields of a definition. -/
def definitionFields : List String := ["name", "aggregates", "abstract"]

/-- A definition from a record. -/
def definition? (raw : Json.Raw) : Option PrivilegeDefinition := do
  match ← raw.fields? definitionFields with
  | [some name, aggregates, isAbstract] =>
    return { name := ← name.text?
             aggregates := ← Json.Raw.orDefault [] (Json.Raw.list? Json.Raw.text?) aggregates
             isAbstract := ← Json.Raw.orDefault false Json.Raw.boolean? isAbstract }
  | _ => none

/-- The registry of definitions in a file, or the built-in one. -/
def registry (files : Files) (root : String) : Option String → Except CommandError Registry
  | none => .ok Registry.standard
  | some path =>
    match files.readText path with
    | .error e => .error (.unreadable path e)
    | .ok s =>
      match (Json.Raw.parse? s).bind (Json.Raw.list? definition?) with
      | none => .error (.malformed path)
      | some definitions => (Registry.ofDefinitions root definitions).mapError .registry

/-- A privilege with its depth as JSON. -/
def privilege (row : Nat × Privilege) : Json :=
  .object
    [ ("name", .string row.2.name), ("depth", .ofNat row.1), ("abstract", .bool row.2.isAbstract),
      ("aggregates", .ofStrings (row.2.aggregates.map Privilege.name)) ]

/-- A privilege with its depth as a line. -/
def privilegeLine (row : Nat × Privilege) : String :=
  Integer.render row.1 ++ "  " ++ row.2.name ++ "\n"

/-! ## Printing -/

/-- What the program prints, and its exit code. -/
structure Output where
  exit : Nat := 0
  out : String := ""
  err : String := ""
  deriving DecidableEq

/-- Texts one after the other. -/
def concat (texts : List String) : String := Text.join "" texts

/-- An answer in print: the data alone, or with the warnings in one object. -/
def Command.print (c : Command) (a : Answer) : Output :=
  let warnings := if c.quiet then [] else a.warnings
  if c.json || c.pretty then
    let whole := Json.object <|
      ("data", a.data) :: if warnings.isEmpty then [] else [("warnings", .ofStrings warnings)]
    { out := (if c.pretty then whole.pretty else whole.compact) ++ "\n" }
  else
    { out := a.data.pretty ++ "\n"
      err := concat (warnings.map fun w => "notice: " ++ w ++ "\n") }

/-- Carries out a command. -/
def Command.perform (c : Command) (clock : Int) (files : Files) : Except CommandError Output :=
  match c.action with
  | .load l => do
    let config ← configuration files c
    return c.print (← load l config clock files)
  | .privileges definitions root => do
    let rows := (← registry files root definitions).depthRows
    if c.json || c.pretty then return c.print { data := .array (rows.map privilege) }
    return { out := concat (rows.map privilegeLine) }

/-- The text that tells the version. -/
def versionText : String := "cload 0.1.0\n"

/-- The text that tells how to use the program. -/
def helpText : String := "Usage: cload [OPTIONS] <COMMAND>\n\nCommands: load, privileges, help\n"

/-- The output of a program that is given arguments in an environment. -/
def run (clock : Int) (environment : List (String × String)) (files : Files)
    (arguments : List String) : Output :=
  match Command.parse environment arguments with
  | .error .usage => { exit := 2, err := helpText }
  | .error .help => { out := helpText }
  | .error .version => { out := versionText }
  | .ok c =>
    match c.perform clock files with
    | .ok output => output
    | .error e => { exit := 1, err := "error: " ++ e.message ++ "\n" }

end ContentImport.Cli
