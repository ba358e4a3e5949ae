import Exports.Text

namespace Exports.Text

abbrev Bytes := List UInt8

/-- The bytes that a text is written with. -/
def encode (s : String) : Bytes := s.toList.flatMap String.utf8EncodeChar

instance : Coe String Bytes := ⟨encode⟩

def slash : UInt8 := 0x2F

def dot : UInt8 := 0x2E

/-- The character whose bytes are the first ones. No character takes more than four. -/
def front? (bytes : Bytes) : Option Char := (bytes.take 4).toByteArray.utf8DecodeChar? 0

/-- Whether a character may begin with these two bytes. -/
def mayFollow (first second : UInt8) : Bool :=
  if first < 0xC2 || 0xF4 < first then false
  else if first = 0xE0 then 0xA0 ≤ second && second ≤ 0xBF
  else if first = 0xED then 0x80 ≤ second && second ≤ 0x9F
  else if first = 0xF0 then 0x90 ≤ second && second ≤ 0xBF
  else if first = 0xF4 then 0x80 ≤ second && second ≤ 0x8F
  else 0x80 ≤ second && second ≤ 0xBF

/-- How many bytes are shown as one where no character stands: as many as begin one together. -/
def strayLength : Bytes → Nat
  | first :: second :: third :: _ =>
    if !mayFollow first second then 1
    else if 0xF0 ≤ first && 0x80 ≤ third && third ≤ 0xBF then 3
    else 2
  | [first, second] => if mayFollow first second then 2 else 1
  | _ => 1

/-- What stands for bytes that are no character. -/
def replacement : Char := Char.ofNat 0xFFFD

def shownChars : Bytes → List Char
  | [] => []
  | b :: rest =>
    match front? (b :: rest) with
    | some c => c :: shownChars (rest.drop (c.utf8Size - 1))
    | none => replacement :: shownChars (rest.drop (strayLength (b :: rest) - 1))
termination_by bytes => bytes.length

/-- The text that bytes are shown as, whether or not they are one. -/
def shown (bytes : Bytes) : String := String.ofList (shownChars bytes)

/-- The bytes are those of a text. -/
def IsText (bytes : Bytes) : Prop := encode (shown bytes) = bytes

instance (bytes : Bytes) : Decidable (IsText bytes) := inferInstanceAs (Decidable (_ = _))

def decode? (bytes : Bytes) : Option String := if IsText bytes then some (shown bytes) else none

end Exports.Text
