import Exports.Entity
import Exports.Script.Phrase

namespace Exports.Script

/-- A place in a source: characters and line breaks before it. -/
structure Mark where
  offset : Nat
  row : Nat
  deriving DecidableEq, Repr

/-- What a node is. -/
inductive Tag where
  | lexeme (lexeme : Lexeme)
  | phrase (phrase : Phrase)
  deriving DecidableEq, Repr

/-- Part that a node plays in its parent. -/
inductive Role where
  | name
  | value
  | declaration
  | source
  | exportedAs
  | body
  | left
  | callee
  | arguments
  deriving DecidableEq, Repr

inductive Tree where
  | node (tag : Tag) (role : Option Role) (start stop : Mark) (children : List Tree)
  deriving Repr

namespace Tree

def tag : Tree → Tag
  | node t _ _ _ _ => t

def role : Tree → Option Role
  | node _ r _ _ _ => r

def start : Tree → Mark
  | node _ _ s _ _ => s

def stop : Tree → Mark
  | node _ _ _ e _ => e

def children : Tree → List Tree
  | node _ _ _ _ ts => ts

def withRole (r : Role) : Tree → Tree
  | node t _ s e ts => node t (some r) s e ts

/-- The phrase that the node is, if it is not a lexeme. -/
def phrase? (t : Tree) : Option Phrase :=
  match t.tag with
  | .phrase p => some p
  | .lexeme _ => none

def isWord (t : Tree) (text : String) : Bool := t.tag = .lexeme (.word text)

/-- Words and signs of the grammar are the only nodes without a name. -/
def isNamed (t : Tree) : Bool :=
  match t.tag with
  | .lexeme (.word _) | .lexeme .regexEnd | .lexeme .questionMark | .lexeme .staticGetter => false
  | _ => true

def namedChildren (t : Tree) : List Tree := t.children.filter isNamed

def child? (t : Tree) (r : Role) : Option Tree := t.children.find? (·.role = some r)

/-- The stretch of the source that the node covers. -/
def text (source : List Char) (t : Tree) : String :=
  String.ofList ((source.drop t.start.offset).take (t.stop.offset - t.start.offset))

def lines (t : Tree) : LineSpan := ⟨t.start.row + 1, t.stop.row + 1⟩

mutual

def size : Tree → Nat
  | node _ _ _ _ ts => sizeAll ts + 1

def sizeAll : List Tree → Nat
  | [] => 0
  | t :: ts => size t + sizeAll ts

end

theorem size_pos (t : Tree) : 0 < t.size := by
  cases t
  exact Nat.succ_pos _

mutual

/-- The node, then its children's subtrees from left to right. -/
def preorder : Tree → List Tree
  | node t r s e ts => node t r s e ts :: preorderAll ts

def preorderAll : List Tree → List Tree
  | [] => []
  | t :: ts => preorder t ++ preorderAll ts

end

end Tree

end Exports.Script
