import Exports.Module

namespace Exports.Module

/-- The entity of a declaration under a name. -/
def entity (m : Module) (d : Declaration) (kind : Kind) (idName rawName : String)
    (isDefault : Bool) : Entity :=
  { id := kind.idFor idName, kind, file := m.path, span := d.span, rawName, isDefault
    codeHash := d.codeHash }

/-- A default export without a name of its own takes the module's if it is a function or class. -/
def rawNameOf (m : Module) : Shape → String
  | .function _ | .classLike _ => m.name
  | _ => "default"

/-- Entity of a function or class. -/
def callableEntities (m : Module) (c : Classifier) (d : Declaration) (name : Option String) :
    List Entity :=
  if d.form = .default then
    let (kind, idName) := c.defaultIdentity m.resolve.entryFiles d
    [m.entity d kind idName (name.getD m.name) true]
  else name.toList.map fun n => m.entity d (c.kindOf d n) n n false

/-- Entity of a type or variable. -/
def namedEntity (m : Module) (d : Declaration) (kind : Kind) (name : String) : Entity :=
  let isDefault := d.form = .default
  m.entity d kind (if isDefault then m.defaultName (some name) else name) name isDefault

/-- Entity of a name in an export clause, if the file declares what it stands for. -/
def specifierEntity? (m : Module) (c : Classifier) (d : Declaration) (s : Specifier) :
    Option Entity :=
  (c.localKind s.inner 0).map fun kind =>
    if s.outer = "default" then m.entity d kind (m.defaultName (some s.inner)) "default" true
    else m.entity d kind s.outer s.outer false

/-- Entities of an exported declaration. -/
def mint (m : Module) (c : Classifier) (d : Declaration) : List Entity :=
  match d.body with
  | .function name _ | .classDecl name _ => m.callableEntities c d name
  | .type name kind => [m.namedEntity d kind name]
  | .variables bindings => bindings.map fun b => m.namedEntity d (c.kindOf d b.name) b.name
  | .value shape =>
    let (kind, idName) := c.defaultIdentity m.resolve.entryFiles d
    [m.entity d kind idName (m.rawNameOf shape) true]
  | .clause specifiers => specifiers.filterMap (m.specifierEntity? c d)
  | .defineComponent => []

/-- Entities in the order of the source. -/
def scriptEntities (m : Module) (markup : Bool) (declarations : List Declaration) :
    List Entity :=
  let c := m.classifier markup false declarations
  (declarations.filter (·.isExported)).flatMap (m.mint c)

end Exports.Module
