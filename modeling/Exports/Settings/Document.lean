import Exports.Settings
import Exports.Toml.Parser

namespace Exports

namespace Toml

def asString? : Toml → Option String
  | .string s => some s
  | _ => none

def asBool? : Toml → Option Bool
  | .boolean b => some b
  | _ => none

/-- Sizes are integers that are not negative. -/
def asSize? : Toml → Option UInt64
  | .integer n => if 0 ≤ n then some n.toNat.toUInt64 else none
  | _ => none

/-- An integer may stand for a share. -/
def asShare? : Toml → Option Float
  | .float x => some x
  | .integer n => some (Float.ofInt n)
  | _ => none

def asStrings? : Toml → Option (List String)
  | .array items => items.mapM asString?
  | _ => none

/-- The fields of a section by position, `none` where one is missing. A section may also list its
fields in order. A date is a section without any of them. -/
def fields? (names : List String) : Toml → Option (List (Option Toml))
  | .table _ _ entries | .braced entries => some (names.map (lookup entries))
  | .array items => some ((List.range names.length).map (items[·]?))
  | .tables items => some ((List.range names.length).map (items.reverse[·]?))
  | .datetime => some (names.map fun _ => none)
  | _ => none

def fieldOr {α : Type} (read : Toml → Option α) (given : α) : Option Toml → Option α
  | none => some given
  | some v => read v

def asCache? (toml : Toml) : Option CacheSettings := do
  match ← toml.fields?
      ["enabled", "max_bytes", "cleanup_threshold", "parsed_file_bytes", "entity_bytes"] with
  | [enabled, maxBytes, cleanupThreshold, parsedFileBytes, entityBytes] =>
    let given : CacheSettings := {}
    some {
      enabled := ← fieldOr asBool? given.enabled enabled
      maxBytes := ← fieldOr asSize? given.maxBytes maxBytes
      cleanupThreshold := ← fieldOr asShare? given.cleanupThreshold cleanupThreshold
      parsedFileBytes := ← fieldOr asSize? given.parsedFileBytes parsedFileBytes
      entityBytes := ← fieldOr asSize? given.entityBytes entityBytes }
  | _ => none

def asLogging? (toml : Toml) : Option LoggingSettings := do
  match ← toml.fields? ["level"] with
  | [level] => some { level := ← fieldOr asString? ({} : LoggingSettings).level level }
  | _ => none

def asResolve? (toml : Toml) : Option ResolveSettings := do
  match ← toml.fields? ["entry_files", "ui_keywords"] with
  | [entryFiles, keywords] =>
    let given : ResolveSettings := {}
    some {
      entryFiles := ← fieldOr asStrings? given.entryFiles entryFiles
      keywords := ← fieldOr asStrings? given.keywords keywords }
  | _ => none

end Toml

namespace Settings

def ofEntries? (entries : Toml.Entries) : Option Settings := do
  some {
    cache := ← Toml.fieldOr Toml.asCache? {} (Toml.lookup entries "cache")
    logging := ← Toml.fieldOr Toml.asLogging? {} (Toml.lookup entries "logging")
    resolve := ← Toml.fieldOr Toml.asResolve? {} (Toml.lookup entries "resolve") }

/-- Settings of a document, if it is well formed to its reader and they are acceptable. -/
def ofDocumentBy (read : String → Option Toml.Entries) (text : String) : Except Error Settings :=
  match (read text).bind ofEntries? with
  | none => .error .malformedSettings
  | some s => s.validate

def ofDocument (text : String) : Except Error Settings := ofDocumentBy Toml.parse? text

end Settings

end Exports
