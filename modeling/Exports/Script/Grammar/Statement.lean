import Exports.Script.Grammar.Lexical

namespace Exports.Script.Grammar

open Rule Phrase

def expressions : Rule := choice [expression, commaSequence]

/-- What a declarator, a loop or a handler binds. -/
def bindingTarget : Rule := choice [Lexeme.identifier, destructuring]

def declaratorRule (d : Dialect) : Rule :=
  if d.types then
    choice [
      sequence [role .name bindingTarget, optional typeAscription, optional initializer],
      graded .declare (sequence [role .name Lexeme.identifier, "!", typeAscription])]
  else sequence [role .name bindingTarget, optional initializer]

def statementRules (d : Dialect) : List (Phrase × Rule) := [
  (program, sequence [optional Lexeme.interpreterLine, many statement]),
  (declaration, choice ([
    Rule.phrase functionDeclaration,
    generatorDeclaration,
    classDeclaration,
    lexicalDeclaration,
    variableDeclaration] ++
    if d.types then [
      Rule.phrase functionSignature,
      abstractClassDeclaration,
      moduleDeclaration,
      graded .declare namespaceDeclaration,
      typeAliasDeclaration,
      enumDeclaration,
      interfaceDeclaration,
      importAlias,
      ambientDeclaration]
    else [])),
  (statement, choice [
    exportStatement,
    importStatement,
    debuggerStatement,
    expressionStatement,
    declaration,
    block,
    ifStatement,
    switchStatement,
    forStatement,
    forEachStatement,
    whileStatement,
    doStatement,
    tryStatement,
    withStatement,
    breakStatement,
    continueStatement,
    returnStatement,
    throwStatement,
    emptyStatement,
    labeledStatement]),
  (expressionStatement, sequence [expressions, semicolon]),
  (variableDeclaration, sequence ["var", commas1 declarator, semicolon]),
  (lexicalDeclaration, sequence [choice ["let", "const"], commas1 declarator, semicolon]),
  (declarator, declaratorRule d),
  (block, rightward (sequence ["\x7b", many statement, "\x7d", optional Lexeme.lineEnd])),
  (elseClause, sequence ["else", statement]),
  (ifStatement, rightward (sequence [
    "if", parenthesized, statement, optional elseClause])),
  (switchStatement, sequence ["switch", parenthesized, switchBody]),
  (forStatement, sequence [
    "for", "(",
    choice [
      choice [lexicalDeclaration, variableDeclaration],
      sequence [expressions, ";"],
      emptyStatement],
    choice [sequence [expressions, ";"], emptyStatement],
    optional expressions,
    ")",
    statement]),
  (forEachStatement, sequence ["for", optional "await", forHeader, statement]),
  (whileStatement, sequence ["while", parenthesized, statement]),
  (doStatement, rightward (sequence [
    "do", statement, "while", parenthesized, optional semicolon])),
  (tryStatement, sequence [
    "try", block, optional catchClause, optional finallyClause]),
  (withStatement, sequence ["with", parenthesized, statement]),
  (breakStatement, sequence [
    "break", optional (tagged .statementIdentifier Lexeme.identifier), semicolon]),
  (continueStatement, sequence [
    "continue", optional (tagged .statementIdentifier Lexeme.identifier), semicolon]),
  (debuggerStatement, sequence ["debugger", semicolon]),
  (returnStatement, sequence ["return", optional expressions, semicolon]),
  (throwStatement, sequence ["throw", expressions, semicolon]),
  (emptyStatement, word ";"),
  (labeledStatement, weighted (-1) (sequence [
    tagged .statementIdentifier (anyName d), ":", statement])),
  (switchBody, sequence ["\x7b", many (choice [switchCase, switchDefault]), "\x7d"]),
  (switchCase, sequence ["case", expressions, ":", many statement]),
  (switchDefault, sequence ["default", ":", many statement]),
  (catchClause, sequence [
    "catch",
    optional (sequence [
      "(", bindingTarget, typedOnly d (optional typeAscription), ")"]),
    block]),
  (finallyClause, sequence ["finally", block])]

/-- Loops need to know which names an expression may start with. -/
def forHeaderRule (assignable : Rule) : Rule :=
  sequence [
    "(",
    choice [
      choice [assignable, parenthesized],
      sequence ["var", bindingTarget, optional initializer],
      sequence [choice ["let", "const"], bindingTarget, optional Lexeme.lineEnd]],
    choice ["in", "of"],
    expressions,
    ")"]

end Exports.Script.Grammar
