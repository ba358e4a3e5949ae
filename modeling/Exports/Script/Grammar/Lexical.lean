import Exports.Script.Grammar.Rule

namespace Exports.Script.Grammar

open Rule Phrase

/-- Words of the grammar that may also be names. -/
def reservedName (d : Dialect) : Rule :=
  let typed := ["declare", "namespace", "type", "public", "private", "protected", "override",
    "readonly", "module", "any", "number", "boolean", "string", "symbol", "object", "new"]
  let plain := ["get", "set", "async", "static", "export", "let"]
  choice (((if d.types then typed else []) ++ plain).map word)

/-- A name that may be a word of the grammar. -/
def anyName (d : Dialect) : Rule := choice [Lexeme.identifier, reservedName d]

/-- A semicolon, or a place where a line ends for want of one. -/
def semicolon : Rule := choice [Lexeme.lineEnd, ";"]

def typeName : Rule := tagged .typeIdentifier Lexeme.identifier

def propertyOf : Rule := tagged .propertyIdentifier Lexeme.identifier

/-- The phrase only in typed sources. -/
def typedOnly (d : Dialect) (r : Rule) : Rule := if d.types then r else empty

def quotedBy (mark : String) (text : Lexeme) (other : Lexeme) : Rule :=
  sequence [mark, many (choice [text, other]), mark]

def lexicalRules (d : Dialect) : List (Phrase × Rule) := [
  (string, choice [
    quotedBy "\"" .doubleText .escape,
    quotedBy "\x27" .singleText .escape]),
  (template, sequence [
    "\x60",
    many (choice [Lexeme.templateText, Lexeme.escape, substitution]),
    "\x60"]),
  (substitution, sequence ["$\x7b", choice [expression, commaSequence], "\x7d"]),
  (regex, sequence [
    "/", Lexeme.regexBody, Lexeme.regexEnd, optional Lexeme.regexFlags]),
  (metaProperty, choice [
    sequence ["new", ".", "target"],
    sequence ["import", ".", "meta"]]),
  (thisWord, "this"),
  (superWord, "super"),
  (trueWord, "true"),
  (falseWord, "false"),
  (nullWord, "null"),
  (undefinedWord, "undefined"),
  (propertyName, choice [
    tagged .propertyIdentifier (anyName d),
    Lexeme.privateName,
    string,
    Lexeme.number,
    computedName]),
  (computedName, sequence ["[", expression, "]"])]

end Exports.Script.Grammar
