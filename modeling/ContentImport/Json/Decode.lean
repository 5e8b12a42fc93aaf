import ContentImport.Json.Raw

/-!
# Records in JSON text

A record is an object, or an array of its fields in order. Members with other names are skipped;
a field may not be given twice.

* `Raw.fields?` finds the fields of a record.
* `Raw.natural?`, `Raw.double?`, `Raw.boolean?` and `Raw.text?` read a field.
-/

namespace ContentImport.Json.Raw

/-- The members with a name, or `none` if there are several. -/
def field? (members : List (Option String × Raw)) (name : String) : Option (Option Raw) :=
  match members.filter fun m => m.1 == some name with
  | [] => some none
  | [m] => some (some m.2)
  | _ => none

/-- The items for as many fields as there are names, if there are not more items. -/
def pad : List String → List Raw → Option (List (Option Raw))
  | [], [] => some []
  | [], _ :: _ => none
  | _ :: names, [] => (pad names []).map (none :: ·)
  | _ :: names, item :: items => (pad names items).map (some item :: ·)

/-- The fields of a record with the given names. -/
def fields? (names : List String) : Raw → Option (List (Option Raw))
  | .object members =>
    if members.all fun m => m.1.isSome then names.mapM (field? members) else none
  | .array items => pad names items
  | _ => none

/-- A natural number below `2 ^ 64`. -/
def natural? : Raw → Option Nat
  | .number t =>
    match t.value? with
    | some (.integer n) => if 0 ≤ n then some n.natAbs else none
    | _ => none
  | _ => none

/-- Any number, as a double. -/
def double? : Raw → Option Binary64
  | .number t => t.value?.map Number.toDouble
  | _ => none

/-- A truth value. -/
def boolean? : Raw → Option Bool
  | .bool b => some b
  | _ => none

/-- A string. -/
def text? : Raw → Option String
  | .string s => s
  | _ => none

/-- An array of items that a reader accepts. -/
def list? {α : Type} (read : Raw → Option α) : Raw → Option (List α)
  | .array items => items.mapM read
  | _ => none

/-- A field with a default. -/
def orDefault {α : Type} (default : α) (read : Raw → Option α) : Option Raw → Option α
  | none => some default
  | some raw => read raw

end ContentImport.Json.Raw
