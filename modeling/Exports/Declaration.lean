import Exports.Entity

namespace Exports

/-- How a declaration leaves its module. -/
inductive ExportForm where
  | unexported
  | named
  | default
  deriving DecidableEq, Repr

structure ClassFacts where
  rendersMarkup : Bool
  superclass : Option String
  isComponentDecorated : Bool
  deriving DecidableEq, Repr

structure CallFacts where
  callee : String
  /-- First argument that is a bare name. -/
  firstName : Option String
  buildsMarkup : Bool
  deriving DecidableEq, Repr

/-- What a value looks like. -/
inductive Shape where
  | absent
  | literal
  | object
  | array
  | function (buildsMarkup : Bool)
  | classLike (facts : ClassFacts)
  | name (target : String)
  | call (facts : CallFacts)
  | other
  deriving DecidableEq, Repr

structure Binding where
  name : String
  value : Shape
  deriving DecidableEq, Repr

/-- A local name, and the name that it is exported under. -/
structure Specifier where
  inner : String
  outer : String
  deriving DecidableEq, Repr

inductive Body where
  | function (name : Option String) (buildsMarkup : Bool)
  | classDecl (name : Option String) (facts : ClassFacts)
  | variables (bindings : List Binding)
  | type (name : String) (kind : Kind)
  /-- A value exported as the default. -/
  | value (shape : Shape)
  | clause (specifiers : List Specifier)
  /-- A statement that is nothing but a call of `defineComponent`. -/
  | defineComponent
  deriving DecidableEq, Repr

structure Declaration where
  form : ExportForm
  span : LineSpan
  codeHash : String
  body : Body
  deriving DecidableEq, Repr

namespace Declaration

def isExported (d : Declaration) : Bool := d.form ≠ .unexported

def isDefault (d : Declaration) : Bool :=
  d.form = .default || match d.body with
    | .clause specifiers => specifiers.any (·.outer = "default")
    | _ => false

/-- The name that the declaration goes by, of several variables the first. -/
def declaredName (d : Declaration) : Option String :=
  match d.body with
  | .function name _ | .classDecl name _ => name
  | .type name _ => some name
  | .variables bindings => bindings.head?.map (·.name)
  | .value (.name target) => some target
  | .value (.call facts) => facts.firstName
  | .value _ => none
  | .clause specifiers => (specifiers.find? (·.outer = "default")).map (·.inner)
  | .defineComponent => none

/-- Whether the declaration binds the name in its module. -/
def binds (d : Declaration) (name : String) : Bool :=
  match d.body with
  | .function n _ | .classDecl n _ => n = some name
  | .type n _ => n = name
  | .variables bindings => bindings.any (·.name = name)
  | .value _ | .clause _ | .defineComponent => false

/-- Whether the declaration exports something under the name. -/
def exportsName (d : Declaration) (name : String) : Bool :=
  match d.body with
  | .clause specifiers => specifiers.any (·.outer = name)
  | _ => d.form = .named && d.binds name

end Declaration

end Exports
