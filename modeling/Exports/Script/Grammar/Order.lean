import Exports.Script.Grammar.Class
import Exports.Script.Grammar.Markup
import Exports.Script.Grammar.Module
import Exports.Script.Grammar.Type

namespace Exports.Script

instance : Coe Grade Rival := ⟨.grade⟩

instance : Coe Phrase Rival := ⟨.phrase⟩

namespace Grammar

open Phrase

/-- Orders that hold in every dialect. -/
def commonOrders : List (List Rival) := [
  [ Grade.member, Grade.templateCall, Grade.call, update, Grade.prefixed, Grade.power,
    Grade.product, Grade.sum, Grade.shift, Grade.relation, Grade.equality, Grade.bitAnd,
    Grade.bitXor, Grade.bitOr, Grade.logicalAnd, Grade.logicalOr, Grade.ternary,
    commaSequence, arrow],
  [Grade.assign, primary],
  [Grade.member, Grade.templateCall, Grade.new, Grade.call, expression],
  [Grade.declare, Grade.literal],
  [primary, block, Grade.object],
  [metaProperty, importWord],
  [importStatement, importWord],
  [exportStatement, primary],
  [lexicalDeclaration, primary]]

/-- Orders of typed sources in which named strengths take part, with those that come before
them. -/
def typedOrders : List (List Rival) := [
  [Grade.call, Grade.instantiation, Grade.unary, Grade.binary, awaitExpression, arrow],
  [Grade.extend, Grade.instantiation],
  [ intersectionType, unionType, conditionalType, functionType, Grade.binary, typePredicate,
    readonlyType],
  [mappedTypeClause, primary],
  [accessibility, primary],
  [Grade.prefixed, expression],
  [extendsClause, primary],
  [Grade.unary, Grade.assign],
  [Grade.declare, expression]]

/-- Further orders of typed sources, among phrases. -/
def typedPhraseOrders : List (List Phrase) := [
  [predefinedType, unary],
  [type, maybeType],
  [tupleType, arrayType, pattern, type],
  [readonlyType, pattern],
  [readonlyType, primary],
  [typeQuery, subscript, expression],
  [typeQuery, querySubscript],
  [dottedTypeName, genericType, primaryType, lookupType, indexTypeQuery, type],
  [typeCast, satisfies, primaryType],
  [queryMember, member],
  [member, ascriptionMember],
  [queryMember, primary],
  [querySubscript, subscript],
  [querySubscript, primary],
  [queryCall, primary],
  [queryInstantiation, primary],
  [typeQuery, primary],
  [overrideMark, primary],
  [decoratorCall, decorator],
  [literalType, pattern],
  [predefinedType, pattern],
  [call, queryCall],
  [call, ascriptionCall],
  [newExpression, primary],
  [metaProperty, primary],
  [constructSignature, propertyName]]

def ofDialect (d : Dialect) : Grammar where
  rules := lexicalRules d ++ moduleRules d ++ statementRules d ++ expressionRules d ++
    classRules d ++ (if d.markup then markupRules d else dottedNameRules) ++
    (if d.types then typeDeclarationRules ++ typeRules d else [])
  orders := commonOrders ++
    if d.types then typedOrders ++ typedPhraseOrders.map (·.map .phrase) else []

end Grammar

end Exports.Script
