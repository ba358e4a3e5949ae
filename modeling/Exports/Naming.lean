import Exports.Entity
import Exports.Language

namespace Exports

namespace Naming

/-- Capitals, digits and underscores, not starting with a digit. -/
def isConstant (name : String) : Bool :=
  match name.toList with
  | [] => false
  | c :: cs => (c.isUpper || c = '_') && cs.all fun c => c.isUpper || c.isDigit || c = '_'

/-- A capital, then letters and digits. -/
def isPascal (name : String) : Bool :=
  match name.toList with
  | [] => false
  | c :: cs => c.isUpper && cs.all Char.isAlphanum

def hasKeyword (keywords : List String) (name : String) : Bool :=
  keywords.any fun k => Text.hasPart name k

/-- Parents that make a class a component where markup may be built. -/
def isComponentBase (parent : String) : Bool :=
  ["Component", "PureComponent", "React.Component", "React.PureComponent"].contains parent

/-- Calls whose result is the component that they are given. -/
def isComponentWrapper (callee : String) : Bool :=
  ["memo", "forwardRef", "observer"].contains (Text.lastPiece '.' callee)

def isDefineComponent (callee : String) : Bool :=
  callee = "defineComponent" || Text.endsIn callee ".defineComponent"

end Naming

/-- What classification knows of the file around a declaration. -/
structure Surroundings where
  /-- The file may build markup. -/
  markup : Bool
  /-- The file is one component. -/
  componentFile : Bool
  keywords : List String
  deriving DecidableEq, Repr

namespace Surroundings

def namedLikeComponent (s : Surroundings) (name : String) : Bool :=
  Naming.isPascal name && Naming.hasKeyword s.keywords name

/-- Whether a function or class is a component. Where markup may be built, building it decides;
elsewhere the name does. -/
def callableIsComponent (s : Surroundings) (name : String) (buildsMarkup : Bool) : Bool :=
  if s.markup then buildsMarkup || s.componentFile else s.namedLikeComponent name

end Surroundings

namespace Naming

/-- A thing of which nothing but its name and place is known. -/
structure Clue where
  path : String
  name : String
  markup : Bool
  keywords : List String

/-- The first rule that applies gives the kind. -/
def rules : List ((Clue → Bool) × Kind) :=
  [(fun c => isComponentPath c.path, .component),
    (fun c => isConstant c.name, .binding),
    (fun c => c.markup && isPascal c.name, .component),
    (fun c => isPascal c.name && hasKeyword c.keywords c.name, .component),
    (fun c => isPascal c.name, .classDecl)]

def guess (clue : Clue) : Kind :=
  match rules.find? fun r => r.1 clue with
  | some r => r.2
  | none => .function

end Naming

end Exports
