import Exports.Script.Grammar.Table
import Exports.Script.Scan.Pattern
import Exports.Script.Scan.Surroundings

namespace Exports.Script

structure Token where
  lexeme : Nat
  start : Mark
  stop : Place
  /-- Whether the text is that of a name. -/
  isName : Bool

namespace Token

/-- A number of characters read as a lexeme. -/
def ofLength (l : Lexeme) (p : Place) (length : Nat) : Token :=
  ⟨l.patternNumber, p.mark, p.advance length, l = .identifier⟩

/-- A token unless its length is zero. -/
def ofLength? (l : Lexeme) (p : Place) (length : Nat) : Option Token :=
  if length = 0 then none else some (ofLength l p length)

end Token

/-- What is known at the place where a lexeme is to be read. -/
structure Expectation where
  table : Table
  types : Bool
  valid : LexemeSet

namespace Expectation

variable (e : Expectation)

def has (l : Lexeme) : Bool := e.valid.testBit l.patternNumber

def setting : Surroundings.Setting where
  types := e.types
  operand := e.valid.testBit e.table.operator
  signature := e.has .signatureEnd

/-- The question mark of a choice between two values. -/
def question? (p : Place) : Option Token :=
  match p.rest with
  | '?' :: after =>
    if Surroundings.chooses e.types after then some (.ofLength .questionMark p 1) else none
  | _ => none

/-- The end of a statement, which takes up no room. -/
def lineEnd? (p : Place) : Option Token :=
  let s := Surroundings.search e.setting p.rest
  if s.found then some (.ofLength .lineEnd p 0)
  else if !s.hasComment && e.has .questionMark && s.rest.head? = some '?' then
    e.question? (p.advance (p.rest.length - s.rest.length))
  else none

def htmlComment? (p : Place) : Option Token :=
  if e.setting.operand || e.has .escape || e.has .regexBody then none
  else
    let p := p.skipWhile fun c => isPlainBlank c || isSeparator c
    Token.ofLength? .htmlComment p (Surroundings.htmlComment p.rest)

/-- A lexeme that depends on what surrounds it. -/
def surrounded? (p : Place) : Option Token :=
  if e.has .templateText then
    if e.has .lineEnd then none
    else Token.ofLength? .templateText p ((Surroundings.templateText p.rest).getD 0)
  else
    let text := if e.has .markupText then Surroundings.markupText p.rest else 0
    if text > 0 then some (.ofLength .markupText p text)
    else if e.has .lineEnd || e.has .signatureEnd then e.lineEnd? p
    else if e.has .questionMark then e.question? (p.skipWhile isPlainBlank)
    else e.htmlComment? p

/-- Lexemes that follow what is before them at once. -/
def adjoining : List (Lexeme × (List Char → Nat)) := [
  (.doubleText, Pattern.stringText '"'),
  (.singleText, Pattern.stringText '\x27'),
  (.doubleMarkupText, Pattern.markupStringText '"'),
  (.singleMarkupText, Pattern.markupStringText '\x27'),
  (.escape, Pattern.escape),
  (.regexBody, Pattern.regexBody),
  (.regexEnd, fun cs => if cs.head? = some '/' then 1 else 0),
  (.regexFlags, Pattern.span Char.isLower)]

def adjoining? (p : Place) : Option Token :=
  adjoining.findSome? fun (l, measure) =>
    if e.has l then Token.ofLength? l p (measure p.rest) else none

/-- A name, or a word of the grammar where that word may stand. -/
def name (p : Place) (length : Nat) : Token :=
  match e.table.words[String.ofList (p.rest.take length)]? with
  | some n =>
    if e.valid.testBit n then ⟨n, p.mark, p.advance length, true⟩
    else .ofLength .identifier p length
  | none => .ofLength .identifier p length

/-- Patterns with a name in front that may be longer than the name. -/
def named (p : Place) (length : Nat) : Token :=
  let getter := if e.has .staticGetter then Pattern.staticGetter p.rest else 0
  let hyphened := if e.has .markupName then Pattern.markupName p.rest else 0
  if getter > length then .ofLength .staticGetter p getter
  else if hyphened > length then .ofLength .markupName p hyphened
  else e.name p length

/-- The longest sign of the grammar that may stand here. -/
def sign? (p : Place) : Option Token :=
  (e.table.signs.find? fun (text, n) => text.isPrefixOf p.rest && e.valid.testBit n).map
    fun (text, n) => ⟨n, p.mark, p.advance text.length, false⟩

def patterns : List (Lexeme × (List Char → Nat)) := [
  (.comment, Pattern.comment),
  (.number, Pattern.number),
  (.privateName, Pattern.privateName),
  (.interpreterLine, Pattern.interpreterLine),
  (.characterReference, Pattern.characterReference)]

def longer (a b : Option Token) : Option Token :=
  match a, b with
  | some x, some y => if x.stop.mark.offset < y.stop.mark.offset then some y else some x
  | some x, none => some x
  | none, b => b

/-- What is no name: the longest of the lexemes that may stand here. -/
def unnamed? (p : Place) : Option Token :=
  patterns.foldl (fun best (l, measure) =>
    if l.isExtra || e.has l then longer best (Token.ofLength? l p (measure p.rest)) else best)
    (e.sign? p)

/-- A lexeme after blanks. -/
def separate? (p : Place) : Option Token :=
  if p.rest.isEmpty then some (.ofLength .finish p 0)
  else match Pattern.identifier p.rest with
    | 0 => e.unnamed? p
    | n + 1 => longer (some (e.named p (n + 1))) (e.sign? p)

/-- A mark of byte order in front of a source is passed over. -/
def pastByteOrderMark (p : Place) : Place :=
  if p.mark.offset = 0 && p.at? '\ufeff' then p.advance 1 else p

/-- The next lexeme. -/
def read? (p : Place) : Option Token :=
  let p := pastByteOrderMark p
  e.surrounded? p <|> e.adjoining? p <|> e.separate? (p.skipWhile isBlank)

end Expectation

end Exports.Script
