import Exports.Entity
import Exports.Json

namespace Exports.Json

def asString? : Json → Option String
  | .string text => text
  | _ => none

def asBool? : Json → Option Bool
  | .bool b => some b
  | _ => none

/-- Numbers of lines fit into sixty-four bits. -/
def asCount? : Json → Option Nat
  | .natural n => if n < 0x10000000000000000 then some n else none
  | _ => none

/-- Fields of a record by position: what is given, `none` where a field is missing. -/
def fields? (names : List String) : Json → Option (List (Option Json))
  | .object members => do
    let members ← members.mapM fun (key, value) => key.map (·, value)
    names.mapM fun name =>
      match members.filter (·.1 = name) with
      | [] => some none
      | [(_, value)] => some (some value)
      | _ => none
  | .array items =>
    if items.length ≤ names.length then
      some ((List.range names.length).map (items[·]?))
    else none
  | _ => none

/-- A field that may be missing but not be of another type. -/
def fieldOr {α : Type} (read : Json → Option α) (given : α) : Option Json → Option α
  | none => some given
  | some value => read value

/-- A kind is its label, or an object that holds nothing under its label. -/
def asKind? : Json → Option Kind
  | .string (some label) => Kind.ofLabel? label
  | .object [(some label, .null)] => Kind.ofLabel? label
  | _ => none

def asSpan? (json : Json) : Option LineSpan := do
  match ← json.fields? ["startLine", "endLine"] with
  | [some first, some last] => some ⟨← first.asCount?, ← last.asCount?⟩
  | _ => none

def asEntity? (json : Json) : Option Entity := do
  match ← json.fields?
      ["id", "kind", "file", "loc", "rawName", "defaultExport", "codeHash"] with
  | [some id, some kind, some file, some span, some rawName, isDefault, codeHash] =>
    some {
      id := ← id.asString?
      kind := ← kind.asKind?
      file := ← file.asString?
      span := ← span.asSpan?
      rawName := ← rawName.asString?
      isDefault := ← fieldOr asBool? false isDefault
      codeHash := ← fieldOr asString? "" codeHash }
  | _ => none

/-- A value that may be null. -/
def asOptional {α : Type} (read : Json → Option α) : Json → Option (Option α)
  | .null => some none
  | value => (read value).map some

/-- The main file that a package manifest names. Only an array has to name one. -/
def asManifestMain? (json : Json) : Option (Option String) := do
  match json, ← json.fields? ["main"] with
  | .object _, [none] => some none
  | _, [some main] => asOptional asString? main
  | _, _ => none

end Exports.Json

namespace Exports.Entity

def ofJson? (s : String) : Option Entity := do (← Json.parse? s).asEntity?

end Exports.Entity
