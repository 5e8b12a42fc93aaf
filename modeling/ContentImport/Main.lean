import ContentImport.Cli.Run
import Std.Time.DateTime.Timestamp

/-!
# The program

The program reads the files that its arguments name, and prints what `Cli.run` makes of them. A
folder is read with all below it, and an XML document with the files that it names.
-/

namespace ContentImport.Cli

/-- The environment, as far as it is of interest. -/
def environment : IO (List (String × String)) :=
  environmentOptions.filterMapM fun v => do
    return (← IO.getEnv v.1).map fun value => (v.1, value)

/-- The present moment. -/
def now : IO Int := do
  return (← Std.Time.Timestamp.now).toMillisecondsSinceUnixEpoch.val

/-- Adds a file, if it can be read. -/
def addFile (files : Files) (name : String) : IO Files := do
  try
    let data ← IO.FS.readBinFile name
    let modified := (← ((← IO.currentDir) / name).metadata).modified
    return files.insert name ⟨data.toList, modified.sec * 1000 + modified.nsec.toNat / 1000000⟩
  catch _ => return files

/-- Adds a document with the files that it names. -/
def addDocument (files : Files) (name : String) : IO Files := do
  let files ← addFile files name
  match files.get? name with
  | some f =>
    if (FileName.extension? name).any (Text.sameLetters "xml") then
      ((XmlReader.sources f.data).map (FileName.join (FileName.folder name))).foldlM addFile files
    else return files
  | none => return files

/-- Adds what has a name. An empty folder is kept by a hidden file. -/
partial def addInput (files : Files) (name : String) : IO Files := do
  let here := (← IO.currentDir) / name
  if ← here.isDir then
    let entries ← here.readDir
    if entries.isEmpty then return files.insert (FileName.join name ".folder") ⟨[], 0⟩
    entries.foldlM (fun files entry => addInput files (FileName.join name entry.fileName)) files
  else addDocument files name

/-- Runs the program. -/
def execute (arguments : List String) : IO UInt32 := do
  let environment ← environment
  let files ← match Command.parse environment arguments with
    | .ok c => c.inputs.foldlM addInput ∅
    | .error _ => pure ∅
  let output := run (← now) environment files arguments
  IO.print output.out
  IO.eprint output.err
  return UInt32.ofNat output.exit

end ContentImport.Cli

def main (arguments : List String) : IO UInt32 := ContentImport.Cli.execute arguments
