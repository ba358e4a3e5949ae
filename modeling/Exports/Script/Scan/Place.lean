import Exports.Script.Tree
import Exports.Text.Class

namespace Exports.Script

structure Place where
  mark : Mark
  rest : List Char

namespace Place

def ofSource (source : List Char) : Place := ⟨⟨0, 0⟩, source⟩

def step (m : Mark) (c : Char) : Mark := ⟨m.offset + 1, if c = '\n' then m.row + 1 else m.row⟩

/-- The place after a number of characters, at most the end. -/
def advance : Nat → Place → Place
  | 0, p => p
  | _, ⟨m, []⟩ => ⟨m, []⟩
  | n + 1, ⟨m, c :: cs⟩ => advance n ⟨step m c, cs⟩

/-- The place after all characters of a class. -/
def skipWhile (ok : Char → Bool) (p : Place) : Place := p.advance (p.rest.takeWhile ok).length

/-- Whether the next character is this one. -/
def at? (p : Place) (c : Char) : Bool := p.rest.head? = some c

end Place

/-- Blanks between lexemes; byte order marks and invisible joiners count among them. -/
def isBlank (c : Char) : Bool :=
  Text.Class.isBlank c || [0xfeff, 0x2060, 0x200b].contains c.toNat

/-- Blanks that the search for the end of a statement passes over. -/
def isPlainBlank (c : Char) : Bool := c = ' ' || (0x09 ≤ c.toNat && c.toNat ≤ 0x0d)

/-- Characters that end a line in every text format. -/
def isSeparator (c : Char) : Bool := c.toNat = 0x2028 || c.toNat = 0x2029

def isLineEnd (c : Char) : Bool := c = '\n' || isSeparator c

end Exports.Script
