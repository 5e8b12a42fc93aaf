import ContentImport.Archive.Guard
import ContentImport.Import.Basic
import ContentImport.Json.Decode
import ContentImport.Json.Printer

/-!
# The configuration of a loader

A configuration is a JSON text with the thresholds for archives and the options of imports. All of
its fields may be missing.

* `LoadConfig.ofText?` reads a configuration, and `LoadConfig.toJson` writes one.
* `LoadConfig.read` reads a file.
-/

namespace ContentImport

/-- What a loader can be told. -/
structure LoadConfig where
  thresholds : Thresholds := {}
  options : ImportOptions := {}
  deriving DecidableEq

namespace LoadConfig

open Json (Raw)

/-! ## Reading -/

/-- The names of the fields of thresholds. -/
def thresholdFields : List String := ["max_entries", "max_total_size", "max_ratio"]

/-- Thresholds from a record. -/
def thresholds? (raw : Raw) : Option Thresholds := do
  let default : Thresholds := {}
  match ← raw.fields? thresholdFields with
  | [entries, size, ratio] =>
    return { maxEntries := ← Raw.orDefault default.maxEntries Raw.natural? entries
             maxTotalSize := ← Raw.orDefault default.maxTotalSize Raw.natural? size
             maxRatio := ← Raw.orDefault default.maxRatio Raw.double? ratio }
  | _ => none

/-- The names of the fields of options. -/
def optionFields : List String :=
  ["overwrite", "property_overwrite", "property_merge", "merge", "ignored_readers"]

/-- Options from a record. -/
def options? (raw : Raw) : Option ImportOptions := do
  match ← raw.fields? optionFields with
  | [overwrite, propertyOverwrite, propertyMerge, merge, ignored] =>
    return { overwrite := ← Raw.orDefault false Raw.boolean? overwrite
             propertyOverwrite := ← Raw.orDefault false Raw.boolean? propertyOverwrite
             propertyMerge := ← Raw.orDefault false Raw.boolean? propertyMerge
             merge := ← Raw.orDefault false Raw.boolean? merge
             ignored := ← Raw.orDefault [] (Raw.list? Raw.text?) ignored }
  | _ => none

/-- A configuration from a record. -/
def ofRaw? (raw : Raw) : Option LoadConfig := do
  match ← raw.fields? ["zip", "import"] with
  | [thresholds, options] =>
    return { thresholds := ← Raw.orDefault {} thresholds? thresholds
             options := ← Raw.orDefault {} options? options }
  | _ => none

/-- A configuration from JSON text. -/
def ofText? (s : String) : Option LoadConfig := (Raw.parse? s).bind ofRaw?

/-- The configuration in a file. -/
def read (files : Files) (path : String) : Except ImportError LoadConfig :=
  match files.readText path with
  | .error e => .error (.file path e)
  | .ok s =>
    match ofText? s with
    | some config => .ok config
    | none => .error .malformedJson

/-! ## Writing -/

/-- A configuration as JSON with all its fields. -/
def toJson (c : LoadConfig) : Json :=
  .object
    [ ("zip", .object
        [ ("max_entries", .ofNat c.thresholds.maxEntries),
          ("max_total_size", .ofNat c.thresholds.maxTotalSize),
          ("max_ratio", .ofDouble c.thresholds.maxRatio) ]),
      ("import", .object
        [ ("overwrite", .bool c.options.overwrite),
          ("property_overwrite", .bool c.options.propertyOverwrite),
          ("property_merge", .bool c.options.propertyMerge),
          ("merge", .bool c.options.merge),
          ("ignored_readers", .ofStrings c.options.ignored) ]) ]

end LoadConfig

end ContentImport
