import Exports.Error

namespace Exports

inductive Language where
  | typescript
  | tsx
  | javascript
  | jsx
  | vue
  deriving DecidableEq, Repr

namespace Language

def name : Language → String
  | typescript => "typescript"
  | tsx => "tsx"
  | javascript => "javascript"
  | jsx => "jsx"
  | vue => "vue"

/-- Letter case does not matter. Every extension that is known is ASCII, and no other letter
has an ASCII lower case that occurs in one. -/
def ofExtension (extension : String) : Except Error Language :=
  match Text.lowerAscii extension with
  | "ts" | "mts" | "cts" => .ok typescript
  | "tsx" => .ok tsx
  | "js" | "mjs" | "cjs" => .ok javascript
  | "jsx" => .ok jsx
  | "vue" => .ok vue
  | _ => .error (.unsupportedLanguage extension)

/-- An extension that is no text counts as none. -/
def ofPath (path : Path) : Except Error Language :=
  match path.extension?.bind Text.decode? with
  | some extension => ofExtension extension
  | none => .error (.unsupportedLanguage "none")

/-- Whether files of this format may build markup. -/
def allowsMarkup : Language → Bool
  | tsx | jsx | vue => true
  | typescript | javascript => false

/-- Whether a file of this format is one component. -/
def isComponentFile : Language → Bool
  | vue => true
  | _ => false

end Language

/-- Whether a key ends like a component file, whatever stands before the dot. -/
def isComponentPath (path : String) : Bool := Text.endsIn (Text.lowerAscii path) ".vue"

end Exports
