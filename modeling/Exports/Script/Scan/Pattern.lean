import Exports.Script.Scan.Place

namespace Exports.Script.Pattern

/-- Length of a run of units, each as long as `unit` says. The first argument counts characters
of a unit that is still open. -/
def run (unit : List Char → Nat) : Nat → List Char → Nat
  | _, [] => 0
  | left + 1, _ :: cs => run unit left cs + 1
  | 0, c :: cs =>
    match unit (c :: cs) with
    | 0 => 0
    | n + 1 => run unit n cs + 1

/-- Length of a run of characters of a class. -/
def span (ok : Char → Bool) (cs : List Char) : Nat := (cs.takeWhile ok).length

def isHexDigit (c : Char) : Bool :=
  c.isDigit || ('a' ≤ c && c ≤ 'f') || ('A' ≤ c && c ≤ 'F')

def isOctalDigit (c : Char) : Bool := '0' ≤ c && c ≤ '7'

/-- Characters of identifiers: all but controls, blanks and the signs of the grammar. -/
def isIdentifierPart (c : Char) : Bool :=
  0x1f < c.toNat && !isBlank c &&
    !":;\x60\"\x27@#.,|^&<=>+-*/\\%?!~()[]\x7b\x7d".toList.contains c

/-- Hexadecimal digits in braces. -/
def bracedCode (cs : List Char) : Nat :=
  match cs with
  | '{' :: rest =>
    let digits := span isHexDigit rest
    if digits > 0 && rest[digits]? = some '}' then digits + 2 else 0
  | _ => 0

/-- Exactly as many hexadecimal digits, which is zero if there are fewer. -/
def fixedCode (count : Nat) (cs : List Char) : Nat :=
  if (cs.take count).length = count && (cs.take count).all isHexDigit then count else 0

/-- A code point after a backslash, such as `\u0041`. -/
def codePoint (cs : List Char) : Nat :=
  match cs with
  | '\\' :: 'u' :: rest =>
    match max (bracedCode rest) (fixedCode 4 rest) with
    | 0 => 0
    | n + 1 => n + 3
  | _ => 0

def identifierUnit (cs : List Char) : Nat :=
  if cs.head?.any isIdentifierPart then 1 else codePoint cs

def identifier (cs : List Char) : Nat :=
  if cs.head?.any Char.isDigit then 0 else run identifierUnit 0 cs

def privateName (cs : List Char) : Nat :=
  match cs with
  | '#' :: rest =>
    match identifier rest with
    | 0 => 0
    | n + 1 => n + 2
  | _ => 0

/-- Digits, with at most one underscore between two of them. -/
def digits (ok : Char → Bool) : Bool → List Char → Nat
  | _, [] => 0
  | between, c :: cs =>
    if ok c then digits ok true cs + 1
    else if between && c = '_' && cs.head?.any ok then digits ok false cs + 1
    else 0

def exponent (cs : List Char) : Nat :=
  match cs with
  | e :: rest =>
    if e = 'e' || e = 'E' then
      let signed := if rest.head?.any (['+', '-'].contains ·) then 1 else 0
      match digits Char.isDigit false (rest.drop signed) with
      | 0 => 0
      | n + 1 => n + signed + 2
    else 0
  | [] => 0

/-- Digits after a mark for their base, such as `0x`. -/
def basedNumber (cs : List Char) : Nat :=
  match cs with
  | '0' :: base :: rest =>
    let found :=
      if base = 'x' || base = 'X' then digits isHexDigit false rest
      else if base = 'b' || base = 'B' then digits (['0', '1'].contains ·) false rest
      else if base = 'o' || base = 'O' then digits isOctalDigit false rest
      else 0
    if found = 0 then 0 else found + 2
  | _ => 0

/-- Whether digits may stand before a point or an exponent: a zero stands there only alone or
right before another digit that is none. -/
def isWholePart (cs : List Char) : Bool :=
  match cs with
  | ['0'] => true
  | '0' :: c :: _ => c.isDigit && c ≠ '0'
  | _ => !cs.isEmpty

/-- A mark for big integers may follow digits. -/
def withBigMark (cs : List Char) (length : Nat) : Nat :=
  if length > 0 && cs[length]? = some 'n' then length + 1 else length

def fraction (cs : List Char) : Nat :=
  let after := digits Char.isDigit false cs
  after + exponent (cs.drop after)

def number (cs : List Char) : Nat :=
  let whole := digits Char.isDigit false cs
  let plain := withBigMark cs whole
  let based := withBigMark cs (basedNumber cs)
  let broken :=
    match cs.drop whole with
    | '.' :: rest =>
      if whole = 0 then
        if rest.head?.any Char.isDigit then fraction rest + 1 else 0
      else if isWholePart (cs.take whole) then whole + 1 + fraction rest
      else 0
    | rest =>
      let power := exponent rest
      if power > 0 && isWholePart (cs.take whole) then whole + power else 0
  max (max plain based) broken

/-- A backslash with what it hides. -/
def escape (cs : List Char) : Nat :=
  match cs with
  | '\\' :: c :: rest =>
    if c = 'x' then if fixedCode 2 rest = 0 then 0 else 4
    else if c = 'u' then codePoint cs
    else if isOctalDigit c then min 3 (span isOctalDigit (c :: rest)) + 1
    else if (c = '\r' || c = '?') && rest.head?.any isLineEnd then 3
    else 2
  | _ => 0

def stringText (mark : Char) (cs : List Char) : Nat :=
  span (fun c => c ≠ mark && c ≠ '\\' && c ≠ '\r' && c ≠ '\n') cs

/-- In markup an ampersand belongs to the text unless a character reference may start there. -/
def markupStringUnit (mark : Char) (cs : List Char) : Nat :=
  match cs with
  | '&' :: c :: _ => if c = '#' || c.isAlpha then 0 else 2
  | '&' :: [] => 0
  | c :: _ => if c = mark then 0 else 1
  | [] => 0

def markupStringText (mark : Char) (cs : List Char) : Nat := run (markupStringUnit mark) 0 cs

/-- Length up to and with the bracket that closes a class of characters. -/
def regexClass : List Char → Option Nat
  | [] => none
  | ']' :: _ => some 1
  | '\n' :: _ => none
  | '\\' :: c :: cs => if c = '\n' then none else (regexClass cs).map (· + 2)
  | '\\' :: [] => none
  | _ :: cs => (regexClass cs).map (· + 1)

def regexUnit (cs : List Char) : Nat :=
  match cs with
  | [] | '/' :: _ | '\n' :: _ => 0
  | '\\' :: rest => if rest.head?.any (· ≠ '\n') then 2 else 0
  | '[' :: rest => ((regexClass rest).map (· + 1)).getD 0
  | _ => 1

def regexBody (cs : List Char) : Nat := run regexUnit 0 cs

def isMarkupNamePart (c : Char) : Bool := c.isAlphanum || c = '_' || c = '$'

/-- A name with a hyphen in it. -/
def markupName (cs : List Char) : Nat :=
  if cs.head?.any fun c => isMarkupNamePart c && !c.isDigit then
    let before := span isMarkupNamePart cs
    if cs[before]? = some '-' then
      before + span (fun c => isMarkupNamePart c || c = '-') (cs.drop before)
    else 0
  else 0

/-- A reference such as `&amp;` or `&#x41;`. -/
def characterReference (cs : List Char) : Nat :=
  let closed := fun (start most : Nat) (ok : Char → Bool) =>
    let found := span ok (cs.drop start)
    if 0 < found && found ≤ most && cs[start + found]? = some ';' then start + found + 1 else 0
  match cs with
  | '&' :: '#' :: x :: _ =>
    if x = 'x' || x = 'X' then closed 3 6 isHexDigit else closed 2 5 Char.isDigit
  | '&' :: _ => closed 1 30 Char.isAlpha
  | _ => 0

def interpreterLine (cs : List Char) : Nat :=
  match cs with
  | '#' :: '!' :: rest => span (· ≠ '\n') rest + 2
  | _ => 0

/-- Blanks up to and with the last line break among them. -/
def blankLines (cs : List Char) : Nat :=
  ((cs.takeWhile Text.Class.isBlank).reverse.dropWhile (· ≠ '\n')).length

/-- The words `static get` at the end of a line. -/
def staticGetter (cs : List Char) : Nat :=
  match "static".toList.isPrefixOf? cs with
  | none => 0
  | some rest =>
    let between := span Text.Class.isBlank rest
    match "get".toList.isPrefixOf? (rest.drop between) with
    | none => 0
    | some after =>
      let blank := blankLines after
      if between = 0 || blank = 0 then 0 else 6 + between + 3 + blank

/-- Characters up to and with the sign that closes a comment. -/
def blockEnd : List Char → Option Nat
  | [] => none
  | '*' :: '/' :: _ => some 2
  | _ :: cs => (blockEnd cs).map (· + 1)

def comment (cs : List Char) : Nat :=
  match cs with
  | '/' :: '/' :: rest => span (fun c => c ≠ '\r' && !isLineEnd c) rest + 2
  | '/' :: '*' :: rest => ((blockEnd rest).map (· + 2)).getD 0
  | _ => 0

end Exports.Script.Pattern
