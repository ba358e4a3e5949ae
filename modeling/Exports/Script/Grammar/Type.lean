import Exports.Script.Grammar.Lexical

namespace Exports.Script.Grammar

open Rule Phrase

/-- What a type may be told by: a name, or what a name leads to. -/
def queryTargets : List Rule := [
  Lexeme.identifier,
  thisWord,
  tagged .subscript querySubscript,
  tagged .member queryMember,
  tagged .call queryCall]

def queryCallees : List Rule := [
  importWord,
  Lexeme.identifier,
  tagged .member queryMember,
  tagged .subscript querySubscript]

def memberName : Rule := choice [Lexeme.privateName, propertyOf]

def objectTypeMembers : Rule :=
  let separator := choice [",", semicolon]
  let part := choice [
    exportStatement, propertySignature, callSignature, constructSignature, indexSignature,
    methodSignature]
  optional (sequence [
    optional (choice [",", ";"]),
    sequence [part, many (sequence [separator, part])],
    optional separator])

def indexSignatureRule (d : Dialect) : Rule :=
  sequence [
    optional (sequence [optional (choice ["-", "+"]), "readonly"]),
    "[",
    choice [sequence [asIdentifier (anyName d), ":", type], mappedTypeClause],
    "]",
    choice [typeAscription, omittingAscription, addingAscription, optingAscription]]

def typeDeclarationRules : List (Phrase × Rule) := [
  (ambientDeclaration, sequence [
    "declare",
    choice [
      declaration,
      sequence ["global", block],
      sequence ["module", ".", propertyOf, ":", type, semicolon]]]),
  (moduleDeclaration, sequence ["module", moduleParts]),
  (namespaceDeclaration, sequence ["namespace", moduleParts]),
  (moduleParts, rightward (sequence [
    choice [string, Lexeme.identifier, dottedName], optional block])),
  (dottedTypeName, graded .member (sequence [
    choice [Lexeme.identifier, dottedName], ".", typeName])),
  (interfaceDeclaration, sequence [
    "interface",
    role .name typeName,
    optional typeParameters,
    optional extendsTypeClause,
    role .body (tagged .interfaceBody objectType)]),
  (extendsTypeClause, sequence [
    "extends", commas1 (choice [typeName, dottedTypeName, genericType])]),
  (enumDeclaration, sequence [
    optional "const", "enum", role .name Lexeme.identifier, role .body enumBody]),
  (enumBody, sequence [
    "\x7b",
    optional (sequence [commas1 (choice [propertyName, enumMember]), optional ","]),
    "\x7d"]),
  (enumMember, sequence [propertyName, initializer]),
  (typeAliasDeclaration, sequence [
    "type", role .name typeName, optional typeParameters, "=", type, semicolon])]

def typeRules (d : Dialect) : List (Phrase × Rule) := [
  (omittingAscription, sequence ["-?:", type]),
  (addingAscription, sequence ["+?:", type]),
  (optingAscription, sequence ["?:", type]),
  (typeAscription, sequence [
    ":",
    choice [type, tagged .member ascriptionMember, tagged .call ascriptionCall]]),
  (ascriptionMember, sequence [
    choice [importWord, tagged .member ascriptionMember, tagged .call ascriptionCall],
    ".",
    memberName]),
  (ascriptionCall, sequence [
    choice [importWord, tagged .member ascriptionMember], Phrase.arguments]),
  (asserts, sequence ["asserts", choice [typePredicate, Lexeme.identifier, thisWord]]),
  (assertsAscription, sequence [":", asserts]),
  (type, choice [
    primaryType,
    functionType,
    readonlyType,
    constructorType,
    inferType,
    strong (.level (-1)) none (tagged .member ascriptionMember),
    strong (.level (-1)) none (tagged .call ascriptionCall)]),
  (tupleParameter, sequence [choice [Lexeme.identifier, restPattern], typeAscription]),
  (optionalTupleParameter, sequence [Lexeme.identifier, "?", typeAscription]),
  (optionalType, sequence [type, "?"]),
  (restType, sequence ["...", type]),
  (tupleMember, choice [
    tagged .requiredParameter tupleParameter,
    tagged .optionalParameter optionalTupleParameter,
    optionalType,
    restType,
    type]),
  (constructorType, leftward (sequence [
    optional "abstract", "new", optional typeParameters, parameters, "=>", type])),
  (primaryType, choice [
    parenthesizedType,
    predefinedType,
    typeName,
    dottedTypeName,
    genericType,
    objectType,
    arrayType,
    tupleType,
    maybeType,
    typeQuery,
    indexTypeQuery,
    tagged .thisType thisWord,
    existentialType,
    literalType,
    lookupType,
    conditionalType,
    templateLiteralType,
    intersectionType,
    unionType,
    "const"]),
  (templateType, sequence ["$\x7b", choice [primaryType, inferType], "\x7d"]),
  (templateLiteralType, sequence [
    "\x60", many (choice [Lexeme.templateText, templateType]), "\x60"]),
  (inferType, rightward (sequence [
    "infer", typeName, optional (sequence ["extends", type])])),
  (conditionalType, rightward (sequence [
    type, "extends", type, "?", type, ":", type])),
  (genericType, graded .call (sequence [choice [typeName, dottedTypeName], typeArguments])),
  (typePredicate, sequence [
    choice [Lexeme.identifier, thisWord, asIdentifier predefinedType], "is", type]),
  (typePredicateAscription, sequence [":", typePredicate]),
  (queryMember, sequence [choice queryTargets, choice [".", "?."], memberName]),
  (querySubscript, sequence [
    choice queryTargets,
    optional "?.",
    "[",
    choice [predefinedType, string, Lexeme.number],
    "]"]),
  (queryCall, sequence [choice queryCallees, Phrase.arguments]),
  (queryInstantiation, sequence [choice queryCallees, typeArguments]),
  (typeQuery, rightward (sequence [
    "typeof",
    choice [
      tagged .subscript querySubscript,
      tagged .member queryMember,
      tagged .call queryCall,
      tagged .instantiation queryInstantiation,
      Lexeme.identifier,
      thisWord]])),
  (indexTypeQuery, sequence ["keyof", primaryType]),
  (lookupType, sequence [primaryType, "[", type, "]"]),
  (mappedTypeClause, sequence [
    typeName, "in", type, optional (sequence ["as", type])]),
  (literalType, choice [
    tagged .unary signedNumber,
    Lexeme.number,
    string,
    trueWord,
    falseWord,
    nullWord,
    undefinedWord]),
  (signedNumber, strong (.level 1) (some .left) (sequence [
    choice ["-", "+"], Lexeme.number])),
  (existentialType, word "*"),
  (maybeType, rightward (sequence ["?", primaryType])),
  (parenthesizedType, sequence ["(", type, ")"]),
  (predefinedType, choice [
    "any", "number", "boolean", "string", "symbol", sequence ["unique", "symbol"], "void",
    "unknown", "never", "object"]),
  (typeArguments, sequence ["<", commas1 type, optional ",", ">"]),
  (objectType, sequence [
    choice ["\x7b", "\x7b|"], objectTypeMembers, choice ["\x7d", "|\x7d"]]),
  (callSignature, Rule.phrase signature),
  (propertySignature, sequence [
    optional accessibility, optional "static", optional overrideMark, optional "readonly",
    propertyName, optional "?", optional typeAscription]),
  (typeParameters, sequence ["<", commas1 typeParameter, optional ",", ">"]),
  (typeParameter, sequence [
    optional "const", role .name typeName, optional constraint, optional defaultType]),
  (defaultType, sequence ["=", type]),
  (constraint, sequence [choice ["extends", ":"], type]),
  (constructSignature, sequence [
    optional "abstract", "new", optional typeParameters, parameters, optional typeAscription]),
  (indexSignature, indexSignatureRule d),
  (arrayType, sequence [primaryType, "[", "]"]),
  (tupleType, sequence ["[", commas tupleMember, optional ",", "]"]),
  (readonlyType, sequence ["readonly", type]),
  (unionType, leftward (sequence [optional type, "|", type])),
  (intersectionType, leftward (sequence [optional type, "&", type])),
  (functionType, leftward (sequence [
    optional typeParameters, parameters, "=>", choice [type, asserts, typePredicate]]))]

end Exports.Script.Grammar
