import Exports.Path

namespace Exports

inductive Error where
  | fileNotFound (path : Path)
  | unsupportedLanguage (extension : String)
  | invalidManifest (path : Path)
  | malformedSettings
  | thresholdOutOfRange (shown : String)
  | noEntryFiles
  | unreadable (missing : Bool)
  deriving DecidableEq, Repr

namespace Error

/-- Wording of the causes that have one of their own. -/
def message? : Error → Option String
  | fileNotFound path => some ("File not found: " ++ path.shown)
  | unsupportedLanguage extension =>
    some ("Unsupported language for extension: " ++ extension)
  | thresholdOutOfRange shown =>
    some ("Invalid configuration: cache.cleanup_threshold must be within 0..=1, got " ++ shown)
  | noEntryFiles => some "Invalid configuration: resolve.entry_files must not be empty"
  | invalidManifest _ | malformedSettings | unreadable _ => none

/-- Whether the file is not there at all, rather than there and unusable. -/
def isMissingFile : Error → Bool
  | fileNotFound _ => true
  | unreadable missing => missing
  | _ => false

end Error

end Exports
