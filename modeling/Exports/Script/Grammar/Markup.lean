import Exports.Script.Grammar.Lexical

namespace Exports.Script.Grammar

open Rule Phrase

/-- A name in markup may have hyphens in it. -/
def markupNameOf : Rule := choice [asIdentifier Lexeme.markupName, Lexeme.identifier]

/-- The beginning of a tag up to its closing sign. Without a name it is a fragment. -/
def tagStart (d : Dialect) : Rule :=
  let attributes := many (choice [markupAttribute, markupExpression])
  if d.types then
    sequence [
      "<",
      optional (sequence [
        choice [
          choice [markupNameOf, markupQualifiedName],
          sequence [
            choice [Lexeme.identifier, tagged .member dottedName],
            optional typeArguments]],
        attributes])]
  else
    sequence ["<", optional (sequence [
      choice [markupNameOf, tagged .member dottedName, markupQualifiedName], attributes])]

/-- Names with dots between them also name modules. -/
def dottedNameRules : List (Phrase × Rule) := [
  (dottedName, graded .member (sequence [
    choice [Lexeme.identifier, tagged .member dottedName], ".", propertyOf]))]

def markupRules (d : Dialect) : List (Phrase × Rule) :=
  let elementName := choice [markupNameOf, tagged .member dottedName, markupQualifiedName]
  let attributes := many (choice [markupAttribute, markupExpression])
  [ (markupElement, sequence [
      markupOpening,
      many (choice [
        Lexeme.markupText, Lexeme.characterReference, markupElement, markupEmpty,
        markupExpression]),
      markupClosing]),
    (markupExpression, sequence [
      "\x7b", optional (choice [expression, commaSequence, spread]), "\x7d"]),
    (markupOpening, weighted (-1) (sequence [tagStart d, ">"])),
    (markupQualifiedName, sequence [markupNameOf, ":", markupNameOf]),
    (markupClosing, sequence ["</", optional elementName, ">"]),
    (markupEmpty,
      if d.types then weighted (-1) (sequence [tagStart d, "/>"])
      else sequence ["<", elementName, attributes, "/>"]),
    (markupAttribute, sequence [
      choice [tagged .propertyIdentifier markupNameOf, markupQualifiedName],
      optional (sequence [
        "=",
        choice [tagged .string markupString, markupExpression, markupElement, markupEmpty]])]),
    (markupString, choice [
      quotedBy "\"" .doubleMarkupText .characterReference,
      quotedBy "\x27" .singleMarkupText .characterReference])] ++ dottedNameRules

end Exports.Script.Grammar
