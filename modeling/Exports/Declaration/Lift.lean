import Exports.Declaration
import Exports.Digest
import Exports.Naming
import Exports.Script.Syntax
import Exports.Script.Walk

namespace Exports.Script

namespace Tree

/-- Nodes around a value that do not change what it is. -/
def isWrapper : Tag → Bool
  | .phrase p => [.parenthesized, .typeCast, .satisfies, .nonNull, .typeAssertion].contains p
  | .lexeme _ => false

mutual

/-- The value inside its wrappers. A wrapper holds what its first named part is. -/
def unwrapped : Tree → Tree
  | node t r s e ts =>
    if isWrapper t then (firstUnwrapped ts).getD (node t r s e ts) else node t r s e ts

def firstUnwrapped : List Tree → Option Tree
  | [] => none
  | t :: ts => if t.isNamed then some (unwrapped t) else firstUnwrapped ts

end

mutual

/-- Names that a pattern binds. Keys and defaults bind nothing. -/
def boundNames (source : List Char) : Tree → List String
  | node t r s e ts =>
    match t with
    | .lexeme .identifier | .phrase .shorthandPattern => [(node t r s e ts).text source]
    | .phrase .pairPattern => boundNamesOf source (some .value) ts
    | .phrase .defaultPattern | .phrase .objectDefaultPattern =>
      boundNamesOf source (some .left) ts
    | .phrase .objectPattern | .phrase .arrayPattern | .phrase .restPattern =>
      boundNamesOf source none ts
    | _ => []

def boundNamesOf (source : List Char) (role : Option Role) : List Tree → List String
  | [] => []
  | t :: ts =>
    (if role.isNone || t.role = role then boundNames source t else []) ++
      boundNamesOf source role ts

end

def roleText? (source : List Char) (t : Tree) (role : Role) : Option String :=
  (t.child? role).map (·.text source)

/-- The start of what a class extends, up to the first character that no dotted name has. -/
def extendsTarget (source : List Char) (heritage : Tree) : Option String := do
  let text := (heritage.text source).toList.dropWhile Text.Class.isBlank
  let rest ← "extends".toList.isPrefixOf? text
  let target := (rest.dropWhile Text.Class.isBlank).takeWhile fun c =>
    Text.Class.isAlphanumeric c || ['_', '$', '.'].contains c
  if target.isEmpty then none else some (String.ofList target)

/-- Whether a decorator is `@Component`, perhaps of some namespace. -/
def isComponentDecorator (source : List Char) (decorator : Tree) : Bool :=
  let name := String.ofList <| ((decorator.text source).toList.dropWhile (· = '@')).takeWhile
    fun c => Text.Class.isAlphanumeric c || ['_', '.'].contains c
  name = "Component" || Text.endsIn name ".Component"

def hasComponentDecorator (source : List Char) (t : Tree) : Bool :=
  t.children.any fun c => c.tag = .phrase .decorator && c.isComponentDecorator source

/-- Only the body counts as building markup. -/
def classFacts (source : List Char) (decorated : Bool) (t : Tree) : ClassFacts where
  rendersMarkup := (t.child? .body).any buildsMarkup
  superclass := (t.children.find? (·.tag = .phrase .heritage)).bind (extendsTarget source)
  isComponentDecorated := decorated || t.hasComponentDecorator source

def callFacts (source : List Char) (t : Tree) : CallFacts :=
  let arguments := ((t.child? .arguments).map namedChildren).getD []
  { callee := (t.roleText? source .callee).getD ""
    firstName := (arguments.find? (·.tag = .lexeme .identifier)).map (·.text source)
    buildsMarkup := arguments.any buildsMarkup }

def shape (source : List Char) (t : Tree) : Shape :=
  let value := t.unwrapped
  match value.tag with
  | .lexeme .number => .literal
  | .lexeme .identifier => .name (value.text source)
  | .lexeme _ => .other
  | .phrase p =>
    match p with
    | .string | .template | .trueWord | .falseWord | .nullWord | .undefinedWord | .regex =>
      .literal
    | .unary =>
      match value.namedChildren.head?.map tag with
      | some (.lexeme .number) => .literal
      | _ => .other
    | .object => .object
    | .array => .array
    | .arrow | .functionExpression | .generatorExpression => .function value.buildsMarkup
    | .classExpression => .classLike (value.classFacts source false)
    | .call => .call (value.callFacts source)
    | _ => .other

/-- What a declarator binds. A pattern takes its value apart, so nothing is known of the parts. -/
def bindings (source : List Char) (declarator : Tree) : List Binding :=
  match declarator.child? .name with
  | none => []
  | some name =>
    if name.tag = .lexeme .identifier then
      [⟨name.text source, ((declarator.child? .value).map (shape source)).getD .absent⟩]
    else (name.boundNames source).map (⟨·, .other⟩)

def specifiers (source : List Char) (clause : Tree) : List Specifier :=
  clause.namedChildren.filterMap fun t =>
    if t.tag = .phrase .exportSpecifier then
      (t.roleText? source .name).map fun inner =>
        ⟨inner, (t.roleText? source .exportedAs).getD inner⟩
    else none

def typeBody (source : List Char) (kind : Kind) (t : Tree) : Option Body :=
  (t.roleText? source .name).map (.type · kind)

/-- What a declaring statement declares. -/
def declarationBody (source : List Char) (decorated : Bool) (t : Tree) : Option Body :=
  match t.phrase? with
  | some .functionDeclaration | some .generatorDeclaration =>
    some (.function (t.roleText? source .name) t.buildsMarkup)
  | some .classDeclaration | some .abstractClassDeclaration =>
    some (.classDecl (t.roleText? source .name) (t.classFacts source decorated))
  | some .lexicalDeclaration | some .variableDeclaration =>
    let declarators := t.namedChildren.filter (·.tag = .phrase .declarator)
    some (.variables (declarators.flatMap (bindings source)))
  | some .interfaceDeclaration => t.typeBody source .interface
  | some .typeAliasDeclaration => t.typeBody source .typeAlias
  | some .enumDeclaration => t.typeBody source .enumeration
  | _ => none

/-- What an exported value declares. A function or class given directly keeps its name. -/
def valueBody (source : List Char) (decorated : Bool) (t : Tree) : Body :=
  match t.phrase?, t.roleText? source .name with
  | some .functionExpression, some name | some .generatorExpression, some name =>
    .function (some name) t.buildsMarkup
  | some .classExpression, some name => .classDecl (some name) (t.classFacts source decorated)
  | _, _ =>
    match t.shape source with
    | .classLike facts =>
      .value (.classLike { facts with
        isComponentDecorated := facts.isComponentDecorated || decorated })
    | shape => .value shape

/-- The value after an equals sign: the first named part that follows it. -/
def assignedValue? (t : Tree) : Option Tree :=
  (t.children.dropWhile (!·.isWord "=")).find? fun c =>
    c.isNamed && c.tag ≠ .phrase .decorator && c.tag ≠ .phrase .exportClause

def exportBody (source : List Char) (t : Tree) : Option Body :=
  let decorated := t.hasComponentDecorator source
  match t.child? .declaration with
  | some d => d.declarationBody source decorated
  | none =>
    match (t.child? .value).or t.assignedValue? with
    | some value => some (value.valueBody source decorated)
    | none =>
      (t.children.find? (·.tag = .phrase .exportClause)).map fun clause =>
        .clause (clause.specifiers source)

def exportForm (t : Tree) : ExportForm :=
  if t.children.any fun c => c.isWord "default" || c.isWord "=" then .default
  else .named

/-- Whether a statement is a call of `defineComponent`. -/
def isDefineComponentCall (source : List Char) (t : Tree) : Bool :=
  match t.namedChildren.head?.map unwrapped with
  | none => false
  | some e => e.tag = .phrase .call && (e.roleText? source .callee).any Naming.isDefineComponent

/-- What a top-level statement declares, and how it is exported. Names that come from another
file declare nothing here. -/
def declared (source : List Char) (t : Tree) : Option (ExportForm × Body) :=
  match t.phrase? with
  | some .exportStatement =>
    if (t.child? .source).isSome then none
    else (t.exportBody source).map (t.exportForm, ·)
  | some .expressionStatement =>
    if t.isDefineComponentCall source then some (.unexported, .defineComponent) else none
  | _ => (t.declarationBody source false).map (.unexported, ·)

/-- Top-level declarations in the order of the source. -/
def declarations (source : List Char) (t : Tree) : List Declaration :=
  t.namedChildren.filterMap fun statement =>
    (statement.declared source).map fun (form, body) =>
      ⟨form, statement.lines, Digest.ofText (statement.text source), body⟩

end Tree

end Exports.Script
