import Exports.Language

namespace Exports.Script

/-- Which parts of the grammar a source may use. -/
structure Dialect where
  types : Bool
  markup : Bool
  deriving DecidableEq, Repr

/-- Plain typed sources write type assertions where the others write markup. -/
def Dialect.ofLanguage : Language → Dialect
  | .typescript => ⟨true, false⟩
  | .tsx => ⟨true, true⟩
  | .javascript | .jsx | .vue => ⟨false, true⟩

inductive Lexeme where
  /-- A word or sign that the grammar spells out. -/
  | word (text : String)
  | identifier
  | privateName
  | number
  /-- Line at the top of a source that names its interpreter. -/
  | interpreterLine
  -- parts of quoted text, which follow the part before them at once
  | doubleText
  | singleText
  | escape
  | templateText
  | doubleMarkupText
  | singleMarkupText
  -- parts of a regular expression
  | regexBody
  | regexEnd
  | regexFlags
  -- markup
  | markupName
  | markupText
  | characterReference
  /-- `static get` at the end of a line. -/
  | staticGetter
  -- lexemes that depend on what surrounds them
  | lineEnd
  | signatureEnd
  | questionMark
  -- lexemes that may stand anywhere
  | comment
  | htmlComment
  | finish
  deriving DecidableEq, Repr

namespace Lexeme

/-- Lexemes that are told by what they look like, not by how they are spelled. -/
def patterns : List Lexeme := [
  identifier, privateName, number, interpreterLine, doubleText, singleText, escape, templateText,
  doubleMarkupText, singleMarkupText, regexBody, regexEnd, regexFlags, markupName, markupText,
  characterReference, staticGetter, lineEnd, signatureEnd, questionMark, comment, htmlComment,
  finish]

/-- The number of a lexeme in every table. -/
def patternNumber (l : Lexeme) : Nat := patterns.idxOf l

/-- Comments may stand between any two lexemes. -/
def isExtra : Lexeme → Bool
  | comment | htmlComment => true
  | _ => false

end Lexeme

inductive Phrase where
  | program
  -- modules
  | exportStatement
  | namespaceExport
  | exportClause
  | exportSpecifier
  | moduleName
  | declaration
  | importWord
  | importStatement
  | importClause
  | fromClause
  | namespaceImport
  | namedImports
  | importSpecifier
  | importAttributes
  -- statements
  | statement
  | expressionStatement
  | variableDeclaration
  | lexicalDeclaration
  | declarator
  | block
  | elseClause
  | ifStatement
  | switchStatement
  | forStatement
  | forEachStatement
  | forHeader
  | whileStatement
  | doStatement
  | tryStatement
  | withStatement
  | breakStatement
  | continueStatement
  | debuggerStatement
  | returnStatement
  | throwStatement
  | emptyStatement
  | labeledStatement
  | switchBody
  | switchCase
  | switchDefault
  | catchClause
  | finallyClause
  -- expressions
  | parenthesized
  | expression
  | primary
  | yieldExpression
  | object
  | objectPattern
  | defaultPattern
  | objectDefaultPattern
  | array
  | arrayPattern
  | markupElement
  | markupExpression
  | markupOpening
  | dottedName
  | markupQualifiedName
  | markupClosing
  | markupEmpty
  | markupAttribute
  | markupString
  | classExpression
  | classDeclaration
  | heritage
  | functionExpression
  | functionDeclaration
  | generatorExpression
  | generatorDeclaration
  | arrow
  | signature
  | parameter
  | optionalChain
  | call
  | newExpression
  | awaitExpression
  | member
  | subscript
  | assignment
  | updateTarget
  | updateAssignment
  | initializer
  | destructuring
  | spread
  | ternary
  | binary
  | unary
  | update
  | commaSequence
  | string
  | template
  | substitution
  | regex
  | metaProperty
  | thisWord
  | superWord
  | trueWord
  | falseWord
  | nullWord
  | undefinedWord
  | arguments
  | decorator
  | decoratorMember
  | decoratorCall
  | classBody
  | fieldDefinition
  | parameters
  | staticBlock
  | pattern
  | restPattern
  | methodDefinition
  | pair
  | pairPattern
  | propertyName
  | computedName
  -- what only typed sources have
  | typedField
  | nonNull
  | methodSignature
  | abstractMethodSignature
  | functionSignature
  | decoratorParenthesized
  | typeAssertion
  | typeCast
  | satisfies
  | instantiation
  | importRequire
  | extendsClause
  | extendsTarget
  | implementsClause
  | ambientDeclaration
  | abstractClassDeclaration
  | moduleDeclaration
  | namespaceDeclaration
  | moduleParts
  | importAlias
  | dottedTypeName
  | interfaceDeclaration
  | extendsTypeClause
  | enumDeclaration
  | enumBody
  | enumMember
  | typeAliasDeclaration
  | accessibility
  | overrideMark
  | requiredParameter
  | optionalParameter
  | parameterName
  | omittingAscription
  | addingAscription
  | optingAscription
  | typeAscription
  | ascriptionMember
  | ascriptionCall
  | asserts
  | assertsAscription
  | type
  | tupleParameter
  | optionalTupleParameter
  | optionalType
  | restType
  | tupleMember
  | constructorType
  | primaryType
  | templateType
  | templateLiteralType
  | inferType
  | conditionalType
  | genericType
  | typePredicate
  | typePredicateAscription
  | queryMember
  | querySubscript
  | queryCall
  | queryInstantiation
  | typeQuery
  | indexTypeQuery
  | lookupType
  | mappedTypeClause
  | literalType
  | signedNumber
  | existentialType
  | maybeType
  | parenthesizedType
  | predefinedType
  | typeArguments
  | objectType
  | callSignature
  | propertySignature
  | typeParameters
  | typeParameter
  | defaultType
  | constraint
  | constructSignature
  | indexSignature
  | arrayType
  | tupleType
  | readonlyType
  | unionType
  | intersectionType
  | functionType
  | importIdentifier
  -- other names for lexemes and phrases, told by where they stand
  | propertyIdentifier
  | shorthandIdentifier
  | shorthandPattern
  | statementIdentifier
  | typeIdentifier
  | thisType
  | interfaceBody
  deriving DecidableEq, Repr

/-- A phrase that only groups others leaves no node of its own in a syntax tree. -/
def Phrase.isHidden : Phrase → Bool
  | moduleName | declaration | fromClause | statement | forHeader | expression | primary
  | markupString | signature | parameter | updateTarget | initializer | destructuring | pattern
  | propertyName | extendsTarget | moduleParts | parameterName | ascriptionMember
  | ascriptionCall | type | tupleMember | primaryType | queryMember | querySubscript | queryCall
  | queryInstantiation | signedNumber | importIdentifier => true
  | _ => false

end Exports.Script
