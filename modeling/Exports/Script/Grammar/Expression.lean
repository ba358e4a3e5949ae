import Exports.Script.Grammar.Statement

namespace Exports.Script.Grammar

open Rule Phrase

/-- The word `undefined` is a literal wherever a plain name would do. -/
def plainName : Rule := choice [undefinedWord, Lexeme.identifier]

/-- What may stand on the left of an assignment. -/
def assignable (d : Dialect) : Rule :=
  choice ([
    Rule.phrase member,
    subscript,
    plainName,
    asIdentifier (reservedName d),
    destructuring] ++ if d.types then [Rule.phrase nonNull] else [])

def signatureOf (d : Dialect) : Rule := if d.types then signature else parameters

def expressionChoices (d : Dialect) : List Rule :=
  (if d.types then [
    Rule.phrase typeCast,
    satisfies,
    instantiation,
    namespaceDeclaration] else []) ++
  (if d.types && !d.markup then [Rule.phrase typeAssertion] else []) ++
  [Rule.phrase primary] ++
  (if d.markup then [Rule.phrase markupElement, markupEmpty] else []) ++
  [ Rule.phrase assignment,
    updateAssignment,
    awaitExpression,
    unary,
    binary,
    ternary,
    update,
    newExpression,
    yieldExpression]

def primaryChoices (d : Dialect) : List Rule :=
  [ Rule.phrase subscript,
    member,
    parenthesized,
    plainName,
    asIdentifier (reservedName d),
    thisWord,
    superWord,
    Lexeme.number,
    string,
    template,
    regex,
    trueWord,
    falseWord,
    nullWord,
    object,
    array,
    functionExpression,
    arrow,
    generatorExpression,
    classExpression,
    metaProperty,
    call] ++
  if d.types then [Rule.phrase nonNull] else []

def callRule (d : Dialect) : Rule :=
  let arguments := role .arguments Phrase.arguments
  let types := typedOnly d (optional typeArguments)
  choice [
    graded .call (sequence [
      role .callee (choice [expression, importWord]), types, arguments]),
    graded .templateCall (sequence [
      role .callee (choice [primary, newExpression]), role .arguments template]),
    graded .member (sequence [
      role .callee primary,
      if d.types then "?." else optionalChain,
      types,
      arguments])]

def newRule (d : Dialect) : Rule :=
  if d.types then
    gradedRight .new (sequence [
      "new", primary, optional typeArguments, optional Phrase.arguments])
  else
    gradedRight .new (sequence [
      "new", choice [primary, newExpression], optional (weighted 1 Phrase.arguments)])

/-- Infix signs with what holds their operands together. -/
def operatorSigns : List (String × Grade) := [
  ("&&", .logicalAnd), ("||", .logicalOr), (">>", .shift), (">>>", .shift), ("<<", .shift),
  ("&", .bitAnd), ("^", .bitXor), ("|", .bitOr), ("+", .sum), ("-", .sum), ("*", .product),
  ("/", .product), ("%", .product), ("<", .relation), ("<=", .relation), ("==", .equality),
  ("===", .equality), ("!=", .equality), ("!==", .equality), (">=", .relation),
  (">", .relation), ("??", .ternary), ("instanceof", .relation)]

def binaryRule : Rule :=
  choice (
    (operatorSigns.map fun (sign, grade) =>
      gradedLeft grade (sequence [expression, sign, expression])) ++
    [ gradedRight .power (sequence [expression, "**", expression]),
      gradedLeft .relation (sequence [
        choice [expression, Lexeme.privateName], "in", expression])])

def parenthesizedRule (d : Dialect) : Rule :=
  if d.types then
    sequence [
      "(",
      choice [sequence [expression, optional typeAscription], commaSequence],
      ")"]
  else sequence ["(", expressions, ")"]

def updateTargetRule (d : Dialect) : Rule :=
  choice ([
    Rule.phrase member,
    subscript,
    asIdentifier (reservedName d),
    Lexeme.identifier,
    parenthesized] ++ if d.types then [Rule.phrase nonNull] else [])

def expressionRules (d : Dialect) : List (Phrase × Rule) := [
  (forHeader, forHeaderRule (assignable d)),
  (parenthesized, parenthesizedRule d),
  (expression, choice (expressionChoices d)),
  (primary, choice (primaryChoices d)),
  (yieldExpression, rightward (sequence [
    "yield", choice [sequence ["*", expression], optional expression]])),
  (object, graded .object (sequence [
    "\x7b",
    commas (optional (choice [
      pair,
      spread,
      methodDefinition,
      tagged .shorthandIdentifier (anyName d)])),
    "\x7d"])),
  (objectPattern, graded .object (sequence [
    "\x7b",
    commas (optional (choice [
      pairPattern,
      restPattern,
      objectDefaultPattern,
      tagged .shorthandPattern (anyName d)])),
    "\x7d"])),
  (defaultPattern, sequence [role .left pattern, "=", expression]),
  (objectDefaultPattern, sequence [
    role .left (choice [tagged .shorthandPattern (anyName d), destructuring]),
    "=",
    expression]),
  (array, sequence ["[", commas (optional (choice [expression, spread])), "]"]),
  (arrayPattern, sequence [
    "[", commas (optional (choice [pattern, defaultPattern])), "]"]),
  (arrow, sequence [
    optional "async",
    choice [asIdentifier (anyName d), signatureOf d],
    "=>",
    choice [expression, block]]),
  (optionalChain, word "?."),
  (call, callRule d),
  (newExpression, newRule d),
  (awaitExpression, graded .prefixed (sequence ["await", expression])),
  (member, graded .member (sequence [
    choice [expression, primary, importWord],
    choice [".", optionalChain],
    choice [Lexeme.privateName, propertyOf]])),
  (subscript, gradedRight .member (sequence [
    choice [expression, primary], optional optionalChain, "[", expressions, "]"])),
  (assignment, gradedRight .assign (sequence [
    typedOnly d (optional "using"),
    choice [parenthesized, assignable d],
    "=",
    expression])),
  (updateTarget, updateTargetRule d),
  (updateAssignment, gradedRight .assign (sequence [
    updateTarget,
    choice ["+=", "-=", "*=", "/=", "%=", "^=", "&=", "|=", ">>=", ">>>=", "<<=", "**=",
      "&&=", "||=", "??="],
    expression])),
  (initializer, sequence ["=", role .value expression]),
  (destructuring, choice [objectPattern, arrayPattern]),
  (spread, sequence ["...", expression]),
  (ternary, gradedRight .ternary (sequence [
    expression, Lexeme.questionMark, expression, ":", expression])),
  (binary, binaryRule),
  (unary, gradedLeft .prefixed (sequence [
    choice ["!", "~", "-", "+", "typeof", "void", "delete"], expression])),
  (update, leftward (choice [
    sequence [expression, choice ["++", "--"]],
    sequence [choice ["++", "--"], expression]])),
  (commaSequence, rightward (commas1 expression)),
  (Phrase.arguments, sequence [
    "(", commas (optional (choice [expression, spread])), ")"]),
  (pattern, weighted (-1) (choice [assignable d, restPattern])),
  (restPattern, rightward (sequence ["...", assignable d])),
  (pair, sequence [propertyName, ":", role .value expression]),
  (pairPattern, sequence [
    propertyName, ":", role .value (choice [pattern, defaultPattern])])] ++
  if d.types then [
    (nonNull, gradedLeft .unary (sequence [expression, "!"])),
    (typeAssertion, gradedLeft .unary (sequence [typeArguments, expression])),
    (typeCast, gradedLeft .binary (sequence [expression, "as", choice ["const", type]])),
    (satisfies, gradedLeft .binary (sequence [expression, "satisfies", type])),
    (instantiation, graded .instantiation (sequence [expression, typeArguments]))]
  else []

end Exports.Script.Grammar
