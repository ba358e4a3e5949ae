import Exports.Script.Grammar.Lexical

namespace Exports.Script.Grammar

open Rule Phrase

/-- What may be said of an imported name: that it is a type. -/
def typeMark (d : Dialect) : Rule := typedOnly d (optional (choice ["type", "typeof"]))

/-- An identifier on the importing side. -/
def importedName (d : Dialect) : Rule := if d.types then importIdentifier else Lexeme.identifier

def exportStatementRule (d : Dialect) : Rule :=
  choice ([
    sequence [
      "export",
      choice [
        sequence ["*", fromClause],
        sequence [namespaceExport, fromClause],
        sequence [exportClause, fromClause],
        exportClause],
      semicolon],
    sequence [
      many decorator,
      "export",
      choice [
        role .declaration declaration,
        sequence [
          "default",
          choice [
            role .declaration declaration,
            sequence [role .value expression, semicolon]]]]]] ++
    (if d.types then [
      sequence ["export", "type", exportClause, optional fromClause, semicolon],
      sequence ["export", "import", importAlias],
      sequence ["export", "=", expression, semicolon],
      sequence ["export", "as", "namespace", Lexeme.identifier, semicolon]]
    else []))

def moduleRules (d : Dialect) : List (Phrase × Rule) := [
  (exportStatement, exportStatementRule d),
  (namespaceExport, sequence ["*", "as", moduleName]),
  (exportClause, sequence ["\x7b", commas exportSpecifier, optional ",", "\x7d"]),
  (exportSpecifier, sequence [
    typeMark d,
    role .name moduleName,
    optional (sequence ["as", role .exportedAs moduleName])]),
  (moduleName, choice [Lexeme.identifier, string]),
  (importWord, word "import"),
  (importStatement, sequence [
    "import",
    typeMark d,
    choice ([
      sequence [importClause, fromClause],
      role .source string] ++ if d.types then [Rule.phrase importRequire] else []),
    optional importAttributes,
    semicolon]),
  (importClause, choice [
    namespaceImport,
    namedImports,
    sequence [
      importedName d,
      optional (sequence [",", choice [namespaceImport, namedImports]])]]),
  (fromClause, sequence ["from", role .source string]),
  (namespaceImport, sequence ["*", "as", Lexeme.identifier]),
  (namedImports, sequence ["\x7b", commas importSpecifier, optional ",", "\x7d"]),
  (importSpecifier, sequence [
    typeMark d,
    choice [
      role .name (importedName d),
      sequence [
        role .name (choice [
          moduleName,
          asIdentifier (if d.types then "type" else "default")]),
        "as",
        importedName d]]]),
  (importAttributes, sequence ["with", object])] ++
  if d.types then [
    (importIdentifier, choice [Lexeme.identifier, asIdentifier "type"]),
    (importRequire, sequence [
      Lexeme.identifier, "=", "require", "(", role .source string, ")"]),
    (importAlias, sequence [
      "import", Lexeme.identifier, "=", choice [Lexeme.identifier, dottedName], semicolon])]
  else []

end Exports.Script.Grammar
