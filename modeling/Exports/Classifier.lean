import Exports.Declaration
import Exports.ModuleName
import Exports.Naming

namespace Exports

structure Classifier where
  declarations : List Declaration
  surroundings : Surroundings
  path : String

namespace Classifier

/-- Names in a chain of names that may be followed. -/
def aliasLimit : Nat := 8

/-- The kind that a name would have if nothing were known of it. -/
def fallback (c : Classifier) (name : String) : Kind :=
  Naming.guess ⟨c.path, name, c.surroundings.markup, c.surroundings.keywords⟩

def callableKind (c : Classifier) (name : String) (buildsMarkup : Bool) : Kind :=
  if c.surroundings.callableIsComponent name buildsMarkup then .component else .function

def classKind (c : Classifier) (name : String) (facts : ClassFacts) : Kind :=
  if facts.isComponentDecorated
      || (c.surroundings.markup && facts.superclass.any Naming.isComponentBase)
      || c.surroundings.callableIsComponent name facts.rendersMarkup
  then .component else .classDecl

/-- Kind of a variable. `known` gives the kind of another name of the file. -/
def bindingKind (c : Classifier) (known : String → Option Kind) (b : Binding) : Kind :=
  if Naming.isConstant b.name then .binding
  else match b.value with
    | .absent | .literal | .object | .array | .other => .binding
    | .function buildsMarkup => c.callableKind b.name buildsMarkup
    | .classLike facts => c.classKind b.name facts
    | .name target => (known target).getD .binding
    | .call facts =>
      if c.surroundings.markup && facts.buildsMarkup then .component
      else if Naming.isComponentWrapper facts.callee then
        (facts.firstName.bind known).getD .binding
      else .binding

/-- Kind of a value exported as the default. -/
def valueKind (c : Classifier) (known : String → Option Kind) (name : String) (shape : Shape) :
    Kind :=
  match shape with
  | .absent | .literal | .object | .array =>
    if c.surroundings.componentFile then .component else .binding
  | .function buildsMarkup => c.callableKind name buildsMarkup
  | .classLike facts => c.classKind name facts
  | .name target => (known target).getD (c.fallback target)
  | .call facts =>
    if Naming.isDefineComponent facts.callee then .component
    else if c.surroundings.markup && facts.buildsMarkup then .component
    else if Naming.isComponentWrapper facts.callee then
      (facts.firstName.bind known).getD .component
    else .function
  | .other => .function

/-- Kind of a declaration under a name, which of several variables selects one. -/
def kindVia (c : Classifier) (known : String → Option Kind) (d : Declaration) (name : String) :
    Kind :=
  match d.body with
  | .function _ buildsMarkup => c.callableKind name buildsMarkup
  | .classDecl _ facts => c.classKind name facts
  | .type _ kind => kind
  | .variables bindings =>
    match (bindings.find? (·.name = name)).or bindings.head? with
    | some b => c.bindingKind known b
    | none => .binding
  | .value shape => c.valueKind known name shape
  | .clause specifiers =>
    let chosen := (specifiers.find? (·.outer = name)).or
      (specifiers.find? (·.outer = "default"))
    (chosen.bind fun s => known s.inner).getD (c.fallback name)
  | .defineComponent => .component

/-- Kind of the first declaration that binds the name, when at most `reach` names are followed. -/
def kindWithin (c : Classifier) : Nat → String → Option Kind
  | 0, _ => none
  | reach + 1, name =>
    (c.declarations.find? (·.binds name)).map fun d => c.kindVia (c.kindWithin reach) d name

/-- Kind of a name of the file, after `depth` names were followed to reach it. -/
def localKind (c : Classifier) (name : String) (depth : Nat) : Option Kind :=
  c.kindWithin (aliasLimit + 1 - depth) name

def kindOf (c : Classifier) (d : Declaration) (name : String) : Kind :=
  c.kindVia (c.kindWithin aliasLimit) d name

/-- Kind and name of a default export. -/
def defaultIdentity (c : Classifier) (entries : List String) (d : Declaration) :
    Kind × String :=
  let name := ModuleName.ofDefault entries c.path d.declaredName
  (c.kindOf d (d.declaredName.getD name), name)

def defaultExport? (c : Classifier) : Option Declaration :=
  c.declarations.find? (·.isDefault)

def namedExport? (c : Classifier) (name : String) : Option Declaration :=
  c.declarations.find? (·.exportsName name)

end Classifier

end Exports
