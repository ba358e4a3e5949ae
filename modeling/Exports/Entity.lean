import Exports.Text

namespace Exports

inductive Kind where
  | function
  | component
  | classDecl
  | binding
  | interface
  | typeAlias
  | enumeration
  deriving DecidableEq, Repr

namespace Kind

/-- The word before the colon of an id. -/
def label : Kind → String
  | function => "Function"
  | component => "Component"
  | classDecl => "Class"
  | binding => "Variable"
  | interface => "Interface"
  | typeAlias => "TypeAlias"
  | enumeration => "Enum"

def lowerLabel : Kind → String
  | function => "function"
  | component => "component"
  | classDecl => "class"
  | binding => "variable"
  | interface => "interface"
  | typeAlias => "type_alias"
  | enumeration => "enum"

def all : List Kind :=
  [function, component, classDecl, binding, interface, typeAlias, enumeration]

def ofLabel? (label : String) : Option Kind := all.find? (·.label = label)

def idFor (kind : Kind) (name : String) : String := kind.label ++ ":" ++ name

end Kind

/-- First and last line, counted from one. -/
structure LineSpan where
  first : Nat
  last : Nat
  deriving DecidableEq, Repr

def LineSpan.shift (span : LineSpan) (lines : Nat) : LineSpan :=
  ⟨span.first + lines, span.last + lines⟩

structure Entity where
  id : String
  kind : Kind
  /-- Key of the file inside its workspace. -/
  file : String
  span : LineSpan
  /-- Declared name or alias, or `default` for a bare default. -/
  rawName : String
  isDefault : Bool := false
  codeHash : String := ""
  deriving DecidableEq, Repr

/-- What follows the first colon of the id. -/
def Entity.idName (e : Entity) : String :=
  match Text.cutFirst ':' e.id.toList with
  | some (_, name) => String.ofList name
  | none => e.id

/-- How an id was found. -/
inductive Confidence where
  | indexed
  | declared
  | inferred
  deriving DecidableEq, Repr

structure Resolved where
  id : String
  kind : Kind
  confidence : Confidence
  deriving DecidableEq, Repr

namespace Resolved

def mint (confidence : Confidence) (kind : Kind) (name : String) : Resolved :=
  ⟨kind.idFor name, kind, confidence⟩

/-- An id taken from the index. Its kind is read off the id, `function` when it names none. -/
def ofIndexed (id : String) : Resolved :=
  let kind := do
    let (label, _) ← Text.cutFirst ':' id.toList
    Kind.ofLabel? (String.ofList label)
  ⟨id, kind.getD .function, .indexed⟩

def isIndexed (r : Resolved) : Bool := r.confidence = .indexed

end Resolved

end Exports
