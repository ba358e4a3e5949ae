import Exports.Script.Tree

namespace Exports.Script

/-- Named strengths; `Grammar.orders` says which is stronger than which. -/
inductive Grade where
  | member
  | templateCall
  | call
  | new
  | prefixed
  | power
  | product
  | sum
  | shift
  | relation
  | equality
  | bitAnd
  | bitXor
  | bitOr
  | logicalAnd
  | logicalOr
  | ternary
  | assign
  | declare
  | literal
  | object
  | instantiation
  | unary
  | binary
  | extend
  deriving DecidableEq, Repr

/-- How firmly the parts of a rule hold together. -/
inductive Strength where
  | unset
  | level (n : Int)
  | grade (g : Grade)
  deriving DecidableEq, Repr

/-- Which of two equally strong readings wins: the one that ends the phrase on the left, or the
one that goes on to the right. -/
inductive Side where
  | left
  | right
  deriving DecidableEq, Repr

inductive Rule where
  | lexeme (l : Lexeme)
  | phrase (p : Phrase)
  | sequence (parts : List Rule)
  | choice (options : List Rule)
  /-- One or more. -/
  | several (r : Rule)
  | role (role : Role) (r : Rule)
  | tagged (p : Phrase) (r : Rule)
  /-- The same node as an identifier would be. -/
  | asIdentifier (r : Rule)
  | strong (s : Strength) (side : Option Side) (r : Rule)
  /-- Among whole readings of a source the heavier one wins. -/
  | weighted (weight : Int) (r : Rule)

namespace Rule

def word (text : String) : Rule := lexeme (.word text)

instance : Coe String Rule := ⟨word⟩

instance : Coe Lexeme Rule := ⟨lexeme⟩

instance : Coe Phrase Rule := ⟨phrase⟩

def empty : Rule := sequence []

def optional (r : Rule) : Rule := choice [r, empty]

def many (r : Rule) : Rule := optional (several r)

/-- One or more, with commas between them. -/
def commas1 (r : Rule) : Rule := sequence [r, many (sequence [",", r])]

def commas (r : Rule) : Rule := optional (commas1 r)

def graded (g : Grade) (r : Rule) : Rule := strong (.grade g) none r

def leftward (r : Rule) : Rule := strong (.level 0) (some .left) r

def rightward (r : Rule) : Rule := strong (.level 0) (some .right) r

def gradedLeft (g : Grade) (r : Rule) : Rule := strong (.grade g) (some .left) r

def gradedRight (g : Grade) (r : Rule) : Rule := strong (.grade g) (some .right) r

end Rule

/-- Something that orders of strength compare: a named strength, or every rule of a phrase. -/
inductive Rival where
  | grade (g : Grade)
  | phrase (p : Phrase)
  deriving DecidableEq, Repr

/-- The rules of phrases, and which strengths exceed which: each list goes from strong to weak. -/
structure Grammar where
  rules : List (Phrase × Rule)
  orders : List (List Rival)

end Exports.Script
