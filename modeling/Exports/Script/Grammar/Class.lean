import Exports.Script.Grammar.Expression

namespace Exports.Script.Grammar

open Rule Phrase

def functionRule (grade : Grade) (mark : List Rule) (name : Rule) (d : Dialect) : List Rule :=
  [optional "async", "function"] ++ mark ++ [role .name name, signatureOf d, role .body block] ++
    if grade = .declare then [optional Lexeme.lineEnd] else []

/-- A class, with what stands before the word and with the name as given. -/
def classParts (d : Dialect) (mark : List Rule) (name : Rule) : List Rule :=
  [many decorator] ++ mark ++ [word "class", role .name name] ++
    (if d.types then [optional typeParameters] else []) ++
    [optional heritage, role .body classBody]

def className (d : Dialect) : Rule := if d.types then typeName else Lexeme.identifier

/-- Members of classes in sources without types. -/
def plainMembers : Rule :=
  choice [
    sequence [methodDefinition, optional ";"],
    sequence [fieldDefinition, semicolon],
    staticBlock,
    ";"]

/-- A method without a body must not end where its body follows on the next line. -/
def typedMembers : Rule :=
  choice [
    sequence [many decorator, methodDefinition, optional semicolon],
    sequence [methodSignature, choice [Lexeme.signatureEnd, ","]],
    staticBlock,
    sequence [
      choice [abstractMethodSignature, indexSignature, methodSignature, typedField],
      choice [semicolon, ","]],
    ";"]

def accessorMark : Rule := optional (choice ["get", "set", "*"])

/-- The words that may stand before the name of a member with types, in their order. -/
def memberMarks : List Rule := [
  optional accessibility,
  optional "static",
  optional overrideMark,
  optional "readonly"]

def methodRule (d : Dialect) : Rule :=
  if d.types then
    leftward (sequence (memberMarks ++ [
      optional "async", accessorMark, propertyName, optional "?", signature,
      role .body block]))
  else
    sequence [
      many decorator,
      optional (choice ["static", Lexeme.staticGetter]),
      optional "async",
      accessorMark,
      propertyName,
      parameters,
      role .body block]

def typedFieldRule : Rule :=
  sequence [
    many decorator,
    optional (choice [
      sequence ["declare", optional accessibility],
      sequence [accessibility, optional "declare"]]),
    choice [
      sequence [optional "static", optional overrideMark, optional "readonly"],
      sequence [optional "abstract", optional "readonly"],
      sequence [optional "readonly", optional "abstract"],
      optional "accessor"],
    propertyName,
    optional (choice ["?", "!"]),
    optional typeAscription,
    optional initializer]

def decoratorName : Rule := choice [Lexeme.identifier, tagged .member decoratorMember]

def decoratorForms : List Rule := [
  decoratorName,
  tagged .call decoratorCall]

def classRules (d : Dialect) : List (Phrase × Rule) := [
  (classExpression, graded .literal (sequence (classParts d [] (optional (className d))))),
  (classDeclaration,
    let parts := sequence (classParts d [] (className d) ++ [optional Lexeme.lineEnd])
    if d.types then gradedLeft .declare parts else graded .declare parts),
  (heritage,
    if d.types then
      choice [sequence [extendsClause, optional implementsClause], implementsClause]
    else sequence ["extends", expression]),
  (functionExpression, graded .literal
    (sequence (functionRule .literal [] (optional Lexeme.identifier) d))),
  (functionDeclaration, gradedRight .declare
    (sequence (functionRule .declare [] Lexeme.identifier d))),
  (generatorExpression, graded .literal
    (sequence (functionRule .literal ["*"] (optional Lexeme.identifier) d))),
  (generatorDeclaration, gradedRight .declare
    (sequence (functionRule .declare ["*"] Lexeme.identifier d))),
  (decorator, sequence ["@", choice (decoratorForms ++
    if d.types then [tagged .parenthesized decoratorParenthesized] else [])]),
  (decoratorMember, graded .member (sequence [decoratorName, ".", propertyOf])),
  (decoratorCall, graded .call (sequence [
    decoratorName, typedOnly d (optional typeArguments), Phrase.arguments])),
  (classBody, sequence [
    "\x7b", many (if d.types then typedMembers else plainMembers), "\x7d"]),
  (parameters, sequence [
    "(",
    optional (sequence [
      commas1 (if d.types then parameter else choice [pattern, defaultPattern]),
      optional ","]),
    ")"]),
  (staticBlock, sequence ["static", optional Lexeme.lineEnd, block]),
  (methodDefinition, methodRule d)] ++
  if d.types then [
    (signature, sequence [
      optional typeParameters,
      parameters,
      optional (choice [typeAscription, assertsAscription, typePredicateAscription])]),
    (parameter, choice [requiredParameter, optionalParameter]),
    (typedField, typedFieldRule),
    (methodSignature, sequence (memberMarks ++ [
      optional "async", accessorMark, propertyName, optional "?", signature])),
    (abstractMethodSignature, sequence [
      optional accessibility, "abstract", optional overrideMark, accessorMark, propertyName,
      optional "?", signature]),
    (functionSignature, sequence [
      optional "async", "function", role .name Lexeme.identifier, signature,
      choice [semicolon, Lexeme.signatureEnd]]),
    (decoratorParenthesized, sequence ["(", choice decoratorForms, ")"]),
    (extendsClause, sequence ["extends", commas1 extendsTarget]),
    (extendsTarget, graded .extend (sequence [expression, optional typeArguments])),
    (implementsClause, sequence ["implements", commas1 type]),
    (abstractClassDeclaration, graded .declare (sequence
      (classParts d ["abstract"] (className d)))),
    (accessibility, choice ["public", "private", "protected"]),
    (overrideMark, word "override"),
    (requiredParameter, sequence [
      parameterName, optional typeAscription, optional initializer]),
    (optionalParameter, sequence [
      parameterName, "?", optional typeAscription, optional initializer]),
    (parameterName, sequence [
      many decorator,
      optional accessibility,
      optional overrideMark,
      optional "readonly",
      choice [pattern, thisWord]])]
  else [
    (fieldDefinition, sequence [
      many decorator, optional "static", propertyName, optional initializer])]

end Exports.Script.Grammar
