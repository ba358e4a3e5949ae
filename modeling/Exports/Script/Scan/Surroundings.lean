import Exports.Script.Scan.Place

namespace Exports.Script.Surroundings

/-- What blanks and comments before some place say about the end of a statement. -/
inductive Gap where
  /-- Something else than a comment follows a slash. -/
  | broken
  | sameLine
  /-- Either a line ends here, or there was no comment to look at. -/
  | passed
  deriving DecidableEq, Repr

/-- A stretch of blanks and comments, and what came after it. -/
structure Stretch where
  gap : Gap
  hasComment : Bool
  rest : List Char

/-- How a search through blanks and comments goes on. -/
inductive Mode where
  | blank
  | line
  | block
  deriving DecidableEq, Repr

/-- Passes over blanks and comments. Unless all of them are asked for, the search ends after a
comment in block form when no slash follows it. -/
def pass (all : Bool) : Mode → Bool → Bool → List Char → Stretch
  | .blank, hasComment, hasBreak, '/' :: '/' :: cs => pass all .line hasComment hasBreak cs
  | .blank, hasComment, hasBreak, '/' :: '*' :: cs => pass all .block hasComment hasBreak cs
  | .blank, hasComment, hasBreak, c :: cs =>
    if isPlainBlank c then pass all .blank hasComment hasBreak cs
    else if c = '/' then ⟨.broken, hasComment, cs⟩
    else ⟨.passed, hasComment, c :: cs⟩
  | .line, hasComment, hasBreak, c :: cs =>
    if c = '\n' then pass all .blank true hasBreak cs
    else if isSeparator c then ⟨.passed, true, c :: cs⟩
    else pass all .line hasComment hasBreak cs
  | .block, _, hasBreak, '*' :: '/' :: cs =>
    if all || cs.head? = some '/' then pass all .blank true hasBreak cs
    else ⟨if hasBreak then .passed else .sameLine, true, cs⟩
  | .block, hasComment, hasBreak, c :: cs =>
    pass all .block hasComment (hasBreak || isLineEnd c) cs
  | .line, _, _, [] => ⟨.passed, true, []⟩
  | _, hasComment, _, [] => ⟨.passed, hasComment, []⟩

/-- What the search for the end of a statement found, and how far it had to look. -/
structure Search where
  found : Bool
  hasComment : Bool
  rest : List Char

/-- What the grammar says about the place where the end of a statement is looked for. -/
structure Setting where
  types : Bool
  /-- Whether an operator may stand here. -/
  operand : Bool
  /-- Whether a function may end here without a body. -/
  signature : Bool

/-- Whether a word that relates two values is all that a letter `i` begins. -/
def relates (cs : List Char) : Bool :=
  match cs with
  | 'i' :: 'n' :: rest =>
    if !rest.head?.any Char.isAlpha then true
    else match "stanceof".toList.isPrefixOf? rest with
      | some after => !after.head?.any Char.isAlpha
      | none => false
  | _ => false

/-- Whether what a line starts with may go on with a statement from the line before. -/
def goesOn (s : Setting) (cs : List Char) : Bool :=
  match cs with
  | '+' :: rest => rest.head? ≠ some '+'
  | '-' :: rest => rest.head? ≠ some '-'
  | '!' :: rest => rest.head? = some '='
  | '.' :: rest => s.types || !rest.head?.any Char.isDigit
  | '{' :: _ => s.signature
  | c :: _ =>
    if c = '(' || c = '[' then !s.types || s.operand
    else "\x60,:;*%><=?^|&/".toList.contains c || relates cs
  | [] => false

/-- In typed sources a closing brace before a colon ends a pattern and not a statement. -/
def endsAtBrace (s : Setting) (after : List Char) : Bool :=
  let next := (after.dropWhile isPlainBlank).head?
  !s.types || s.operand || next ≠ some ':'

/-- Looks for the end of a statement from a place on that is no slash: at the closing brace of a
block, or at the end of a line whose statement does not go on. -/
def searchLine (s : Setting) (more : Bool → List Char → Search) (hasComment : Bool)
    (cs : List Char) : Search :=
  match cs with
  | [] => ⟨false, hasComment, []⟩
  | c :: rest =>
    if c = '}' then ⟨endsAtBrace s rest, hasComment, rest⟩
    else if c = '\n' || (!s.types && isSeparator c) then
      let after := pass true .blank hasComment false rest
      ⟨after.gap ≠ .broken && !goesOn s after.rest, after.hasComment, after.rest⟩
    else if isPlainBlank c then more hasComment rest
    else ⟨false, hasComment, cs⟩

/-- Looks for the end of a statement. A comment on the way that reaches over the end of a line is
as good as that end, where no operator may stand. -/
def searchFrom (s : Setting) : Nat → Bool → List Char → Search
  | 0, hasComment, cs => ⟨false, hasComment, cs⟩
  | _, hasComment, [] => ⟨true, hasComment, []⟩
  | n + 1, hasComment, c :: cs =>
    if c = '/' then
      let before := pass false .blank hasComment false (c :: cs)
      let ends := before.gap = .passed && !s.operand &&
        !before.rest.head?.any ([',', '='].contains ·)
      if before.gap = .broken || ends then ⟨ends, before.hasComment, before.rest⟩
      else searchLine s (searchFrom s n) before.hasComment before.rest
    else searchLine s (searchFrom s n) hasComment (c :: cs)

/-- Every round of the search passes a character. -/
def search (s : Setting) (cs : List Char) : Search := searchFrom s (cs.length + 1) false cs

/-- Whether a question mark before this text chooses between two values. -/
def chooses (types : Bool) (after : List Char) : Bool :=
  let startsNumber := fun (cs : List Char) =>
    match cs with
    | '.' :: rest => rest.head?.any Char.isDigit
    | _ => true
  if after.head? = some '?' then false
  else if types then
    let later := after.dropWhile isPlainBlank
    after.head? ≠ some '.' && !later.head?.any ([':', ')', ','].contains ·) &&
      startsNumber later
  else startsNumber after

/-- Text of a template up to a substitution, an escape or its end; none if it has no end. -/
def templateText : List Char → Option Nat
  | [] => none
  | '\x60' :: _ | '\\' :: _ | '$' :: '{' :: _ => some 0
  | _ :: cs => (templateText cs).map (· + 1)

def isMarkupSign (c : Char) : Bool := ['<', '>', '{', '}', '&'].contains c

/-- Whether text in markup is more than blanks around line breaks. -/
def hasText : Bool → List Char → Bool
  | _, [] => false
  | atBreak, c :: cs =>
    if c = '\n' then hasText true cs
    else if atBreak && isPlainBlank c then hasText true cs
    else true

/-- Length of the text up to the next sign of markup. -/
def markupText (cs : List Char) : Nat :=
  let text := cs.takeWhile (!isMarkupSign ·)
  if hasText false text then text.length else 0

/-- A comment in the form of other documents goes to the end of its line. -/
def htmlComment (cs : List Char) : Nat :=
  if "<!--".toList.isPrefixOf cs || "-->".toList.isPrefixOf cs then
    (cs.takeWhile (!isLineEnd ·)).length
  else 0

end Exports.Script.Surroundings
