import Exports.Toml

namespace Exports.Toml

open Text Text.Reader

def isBlank (c : Char) : Bool := c = '\x20' || c = '\t'

def blanks : Reader Unit := do
  let _ ← takeWhile isBlank

/-- Characters that may stand in texts and comments: no control but the tab. -/
def isPlain (c : Char) : Bool := c = '\t' || (0x20 ≤ c.toNat && c.toNat ≠ 0x7f)

def newline : Reader Unit := orElse (char '\n') (literal "\r\n")

def comment : Reader Unit := do
  char '#'
  let _ ← takeWhile isPlain

/-- Blanks, comments and new lines. -/
def gap : Reader Unit := do
  let _ ← many do
    let _ ← orElse (do let _ ← run isBlank) (orElse newline (do comment; newline))
  return ()

def escape : Reader Char := do
  char '\\'
  match ← any with
  | '\x22' => return '\x22'
  | '\\' => return '\\'
  | 'b' => return '\x08'
  | 't' => return '\t'
  | 'n' => return '\n'
  | 'f' => return '\x0c'
  | 'r' => return '\r'
  | 'u' => code 4
  | 'U' => code 8
  | _ => fail
where
  code (count : Nat) : Reader Char := do
    let digits ← exactly count fun c => (hexValue c).isSome
    match charOfCode? (natOfDigits 16 digits) with
    | some c => return c
    | none => fail

def basicString : Reader String := do
  char '\x22'
  let cs ← many (orElse escape (satisfy fun c => isPlain c && c ≠ '\x22' && c ≠ '\\'))
  char '\x22'
  return String.ofList cs

def literalString : Reader String := do
  char '\x27'
  let cs ← takeWhile fun c => isPlain c && c ≠ '\x27'
  char '\x27'
  return String.ofList cs

/-- Up to two quotes that do not close a text of several lines. -/
def innerQuotes (quote : Char) : Reader (List Char) := fun s =>
  let found := (s.takeWhile (· = quote)).length
  if found = 1 || found = 2 then some (List.replicate found quote, s.drop found) else none

/-- The closing quotes, before which up to two more may stand. -/
def closingQuotes (quote : Char) : Reader (List Char) := fun s =>
  let found := (s.takeWhile (· = quote)).length
  if 3 ≤ found && found ≤ 5 then some (List.replicate (found - 3) quote, s.drop found) else none

/-- A backslash at the end of a line joins the next text to it. -/
def joinedLines : Reader (List Char) := do
  char '\\'
  blanks
  newline
  let _ ← many (orElse newline (do let _ ← run isBlank))
  return []

def lineBreak : Reader (List Char) := do
  newline
  return ['\n']

def longBasicString : Reader String := do
  literal "\x22\x22\x22"
  let _ ← attempt newline
  let parts ← many (orElse joinedLines (orElse (do return [← escape]) (orElse lineBreak
    (orElse (run fun c => isPlain c && c ≠ '\x22' && c ≠ '\\') (innerQuotes '\x22')))))
  let last ← closingQuotes '\x22'
  return String.ofList (parts.flatten ++ last)

def longLiteralString : Reader String := do
  literal "\x27\x27\x27"
  let _ ← attempt newline
  let parts ← many (orElse lineBreak
    (orElse (run fun c => isPlain c && c ≠ '\x27') (innerQuotes '\x27')))
  let last ← closingQuotes '\x27'
  return String.ofList (parts.flatten ++ last)

/-- Digits of a class with single underscores between them. -/
def digits (ok : Char → Bool) : Reader (List Char) := do
  let first ← run ok
  let more ← many (do char '_'; run ok)
  return first ++ more.flatten

def isDigitOf (base : Nat) (c : Char) : Bool := (hexValue c).any (· < base)

def basedInteger : Reader Int := do
  char '0'
  let base ← match ← any with
    | 'x' => pure 16
    | 'o' => pure 8
    | 'b' => pure 2
    | _ => fail
  return natOfDigits base (← digits (isDigitOf base))

/-- Sign and digits of a decimal integer. No other digit follows a leading zero. -/
def signedDigits : Reader (Bool × List Char) := do
  let sign ← attempt (satisfy (['+', '-'].contains ·))
  let ds ← digits Char.isDigit
  guard (ds.length = 1 || ds.head? ≠ some '0')
  return (sign = some '-', ds)

/-- Integers have sixty-four bits. -/
def fits (n : Int) : Bool := -0x8000000000000000 ≤ n && n < 0x8000000000000000

def integerValue : Reader Toml := do
  let based ← attempt basedInteger
  let n ← match based with
    | some n => pure n
    | none =>
      let (negative, ds) ← signedDigits
      let n : Int := natOfDigits 10 ds
      pure (if negative then -n else n)
  guard (fits n)
  return .integer n

def exponent : Reader Int := do
  let _ ← satisfy (['e', 'E'].contains ·)
  let sign ← attempt (satisfy (['+', '-'].contains ·))
  let n : Int := natOfDigits 10 (← digits Char.isDigit)
  return if sign = some '-' then -n else n

/-- A number with a fraction or an exponent. It may not be too large for a double. -/
def finiteFloat : Reader Float := do
  let (negative, whole) ← signedDigits
  let fraction ← attempt (do char '.'; digits Char.isDigit)
  let power ← attempt exponent
  guard (fraction.isSome || power.isSome)
  let places := fraction.getD []
  let all := (whole ++ places).dropWhile (· = '0')
  let size := Decimal.toFloat all (natOfDigits 10 all) (power.getD 0 - places.length)
  guard (negative || size < 1.0 / 0.0)
  return if negative then -size else size

def specialFloat : Reader Float := do
  let sign ← attempt (satisfy (['+', '-'].contains ·))
  let size ← orElse (do literal "inf"; pure (1.0 / 0.0)) (do literal "nan"; pure (0.0 / 0.0))
  return if sign = some '-' then -size else size

/-- A two-digit number within bounds. -/
def twoDigits (low high : Nat) : Reader Nat := do
  let n := natOfDigits 10 (← exactly 2 Char.isDigit)
  guard (low ≤ n && n ≤ high)
  return n

def daysOf (year month : Nat) : Nat :=
  if month = 2 then
    if (year % 4 = 0 && year % 100 ≠ 0) || year % 400 = 0 then 29 else 28
  else if [4, 6, 9, 11].contains month then 30 else 31

def date : Reader Unit := do
  let year := natOfDigits 10 (← exactly 4 Char.isDigit)
  char '-'
  let month ← twoDigits 1 12
  char '-'
  let _ ← twoDigits 1 (daysOf year month)

def time : Reader Unit := do
  let _ ← twoDigits 0 23
  char ':'
  let _ ← twoDigits 0 59
  char ':'
  let _ ← twoDigits 0 60
  let _ ← attempt (do char '.'; run Char.isDigit)

def timeOffset : Reader Unit :=
  orElse (do let _ ← satisfy (['Z', 'z'].contains ·)) do
    let _ ← satisfy (['+', '-'].contains ·)
    let _ ← twoDigits 0 23
    char ':'
    let _ ← twoDigits 0 59

def dateValue : Reader Toml :=
  orElse
    (do
      date
      let _ ← attempt do
        let _ ← satisfy (['T', 't', '\x20'].contains ·)
        time
        attempt timeOffset
      return .datetime)
    (do time; return .datetime)

def isBareKeyPart (c : Char) : Bool := c.isAlphanum || c = '_' || c = '-'

def simpleKey : Reader String :=
  orElse basicString (orElse literalString
    (do return String.ofList (← run isBareKeyPart)))

/-- How deep arrays and braces may nest, and how many parts a dotted key may have. -/
def nestingLimit : Nat := 79

def key : Reader (List String) := do
  let first ← simpleKey
  let more ← many (do blanks; char '.'; blanks; simpleKey)
  guard (more.length < nestingLimit)
  return first :: more

/-- A key and its value inside braces. -/
def pair (value : Reader Toml) : Reader (List String × Toml) := do
  blanks
  let path ← key
  blanks
  char '='
  blanks
  let v ← value
  blanks
  return (path, v)

/-- Values with commas between them; a last comma may follow. -/
def arrayItems (value : Reader Toml) : Reader (List Toml) := do
  match ← attempt value with
  | none => return []
  | some first =>
    let more ← many (do gap; char ','; gap; value)
    let _ ← attempt (do gap; char ',')
    return first :: more

def arrayValue (value : Reader Toml) : Reader Toml := do
  char '['
  gap
  let items ← arrayItems value
  gap
  char ']'
  return .array items

def inlineTable (value : Reader Toml) : Reader Toml := do
  char '{'
  blanks
  let pairs ← match ← attempt (pair value) with
    | none => pure []
    | some first =>
      let more ← many (do char ','; pair value)
      pure (first :: more)
  char '}'
  match pairs.foldlM (fun entries (path, v) => assign path v entries) [] with
  | some entries => return .braced entries
  | none => fail

def scalar : Reader Toml := do
  match ← peek with
  | some '\x22' => return .string (← orElse longBasicString basicString)
  | some '\x27' => return .string (← orElse longLiteralString literalString)
  | some 't' => literal "true"; return .boolean true
  | some 'f' => literal "false"; return .boolean false
  | _ =>
    orElse dateValue (orElse (do return .float (← finiteFloat))
      (orElse (do return .float (← specialFloat)) integerValue))

def value : Nat → Reader Toml
  | 0 => do
    guard ((← peek).all fun c => c ≠ '[' && c ≠ '{')
    scalar
  | depth + 1 => do
    match ← peek with
    | some '[' => arrayValue (value depth)
    | some '{' => inlineTable (value depth)
    | _ => scalar

/-- A line of a document. -/
inductive Line where
  | empty
  | header (path : List String)
  | repeated (path : List String)
  | assignment (path : List String) (value : Toml)

def content : Reader Line := do
  blanks
  match ← peek with
  | none | some '#' | some '\n' | some '\r' => return .empty
  | some '[' =>
    orElse
      (do literal "[["; blanks; let path ← key; blanks; literal "]]"; return .repeated path)
      (do char '['; blanks; let path ← key; blanks; char ']'; return .header path)
  | _ =>
    let (path, v) ← pair (value nestingLimit)
    return .assignment path v

def line : Reader Line := do
  let l ← content
  blanks
  let _ ← attempt comment
  return l

/-- The last header and all entries so far. -/
abbrev Document := List String × Entries

def addLine : Document → Line → Option Document
  | doc, .empty => some doc
  | (_, entries), .header path => do some (path, ← openTable path entries)
  | (_, entries), .repeated path => do some (path, ← openRepeated path entries)
  | (header, entries), .assignment path v => do
    some (header, ← assignUnder header path v entries)

/-- A mark of byte order in front of a document is passed over. -/
def lines : Reader (List Line) := do
  let _ ← attempt (char '\ufeff')
  let first ← line
  let more ← many (do newline; line)
  return first :: more

/-- The entries of a document, as a reader from outside gives them. What is proved of settings asks
only that integers are in range. -/
def parse? (s : String) : Option Entries := do
  let ls ← all? lines s.toList
  let doc ← ls.foldlM addLine ([], [])
  some doc.2

end Exports.Toml
