import Exports.Text.Reader

namespace Exports

inductive Json where
  | null
  | bool (value : Bool)
  /-- A number without sign, fraction and exponent. -/
  | natural (value : Nat)
  /-- Any other number. -/
  | number
  | string (text : Option String)
  | array (items : List Json)
  | object (members : List (Option String × Json))

namespace Json

open Text Text.Reader

def blanks : Reader Unit := do
  let _ ← takeWhile (['\x20', '\t', '\n', '\r'].contains ·)

/-- One unit of a string: a character, or half of a pair. -/
def unit : Reader (Char ⊕ Nat) := do
  let c ← any
  if c = '\\' then
    let e ← any
    match e with
    | '\x22' | '\\' | '/' => return .inl e
    | 'b' => return .inl '\x08'
    | 'f' => return .inl '\x0c'
    | 'n' => return .inl '\n'
    | 'r' => return .inl '\r'
    | 't' => return .inl '\t'
    | 'u' =>
      let code := natOfDigits 16 (← exactly 4 fun c => (hexValue c).isSome)
      match charOfCode? code with
      | some c => return .inl c
      | none => return .inr code
    | _ => fail
  else
    guard (c ≠ '\x22' && 0x20 ≤ c.toNat)
    return .inl c

/-- Halves of pairs belong together, first half first. -/
def joinUnits : List (Char ⊕ Nat) → Option (List Char)
  | [] => some []
  | .inl c :: rest => (joinUnits rest).map (c :: ·)
  | .inr high :: .inr low :: rest => do
    if high ≥ 0xdc00 || low < 0xdc00 then none
    let c ← charOfCode? (0x10000 + (high - 0xd800) * 0x400 + (low - 0xdc00))
    (joinUnits rest).map (c :: ·)
  | .inr _ :: _ => none

def text : Reader (Option String) := do
  char '\x22'
  let units ← many unit
  char '\x22'
  return (joinUnits units).map String.ofList

/-- No digit follows a leading zero. -/
def numeral : Reader Json := do
  let minus ← attempt (char '-')
  let digits ← run Char.isDigit
  guard (digits.length = 1 || digits.head? ≠ some '0')
  let fraction ← attempt (do char '.'; run Char.isDigit)
  let exponent ← attempt do
    let _ ← satisfy (['e', 'E'].contains ·)
    let _ ← attempt (satisfy (['+', '-'].contains ·))
    run Char.isDigit
  guard ((← peek).all fun c => !(['.', 'e', 'E'].contains c))
  if minus.isNone && fraction.isNone && exponent.isNone then
    return .natural (natOfDigits 10 digits)
  else return .number

/-- Items with commas between them, up to the closing sign. -/
def listed {α : Type} (close : Char) (item : Reader α) : Reader (List α) := do
  blanks
  match ← attempt (char close) with
  | some _ => return []
  | none =>
    let first ← item
    blanks
    let more ← many do
      char ','
      let a ← item
      blanks
      return a
    char close
    return first :: more

/-- A value with blanks around it, nested at most so deep. -/
def value : Nat → Reader Json
  | 0 => fail
  | depth + 1 => do
    blanks
    let v ← match ← peek with
      | some 'n' => do literal "null"; pure .null
      | some 't' => do literal "true"; pure (.bool true)
      | some 'f' => do literal "false"; pure (.bool false)
      | some '\x22' => do pure (.string (← text))
      | some '[' => do char '['; pure (.array (← listed ']' (value depth)))
      | some '{' => do
        char '{'
        pure (.object (← listed '}' do
          blanks
          let key ← text
          blanks
          char ':'
          pure (key, ← value depth)))
      | _ => numeral
    blanks
    return v

/-- A text is nested no deeper than it is long. -/
def parse? (s : String) : Option Json := all? (value (s.length + 1)) s.toList

end Json

end Exports
