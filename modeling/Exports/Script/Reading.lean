import Exports.Script.Grammar.Table

namespace Exports.Script

inductive Reading where
  /-- A lexeme. Extra ones may stand anywhere. -/
  | leaf (lexeme : Nat) (isExtra : Bool) (start stop : Mark)
  /-- A phrase or list, read by one of its clauses. -/
  | branch (clause symbol : Nat) (weight : Int) (start stop : Mark) (parts : List Reading)

namespace Reading

def symbol : Reading → Nat
  | leaf l _ _ _ => l
  | branch _ s _ _ _ _ => s

def weight : Reading → Int
  | leaf _ _ _ _ => 0
  | branch _ _ w _ _ _ => w

def start : Reading → Mark
  | leaf _ _ s _ => s
  | branch _ _ _ s _ _ => s

def stop : Reading → Mark
  | leaf _ _ _ e => e
  | branch _ _ _ _ e _ => e

def parts : Reading → List Reading
  | leaf _ _ _ _ => []
  | branch _ _ _ _ _ ps => ps

def isExtra : Reading → Bool
  | leaf _ x _ _ => x
  | branch _ _ _ _ _ _ => false

def weightOf (parts : List Reading) : Int := parts.foldl (fun w p => w + p.weight) 0

/-- The phrase that a clause makes of parts. Without parts it takes up no room. -/
def ofClause (t : Table) (n : Nat) (place : Mark) (parts : List Reading) : Reading :=
  let clause := t.clause n
  let start := (parts.head?.map Reading.start).getD place
  let stop := (parts.getLast?.map Reading.stop).getD place
  branch n clause.result (weightOf parts + clause.production.weight) start stop parts

mutual

/-- Symbols decide first, then the number of parts, then the parts from left to right. -/
def compare : Reading → Reading → Ordering
  | leaf a _ _ _, leaf b _ _ _ => Ord.compare a b
  | leaf a _ _ _, branch _ b _ _ _ qs => (Ord.compare a b).then (Ord.compare 0 qs.length)
  | branch _ a _ _ _ ps, leaf b _ _ _ => (Ord.compare a b).then (Ord.compare ps.length 0)
  | branch _ a _ _ _ ps, branch _ b _ _ _ qs =>
    ((Ord.compare a b).then (Ord.compare ps.length qs.length)).then (compareAll ps qs)

def compareAll : List Reading → List Reading → Ordering
  | p :: ps, q :: qs => (compare p q).then (compareAll ps qs)
  | _, _ => .eq

end

/-- Whether other parts make a better phrase than the ones at hand. -/
def prefers (parts others : List Reading) : Bool :=
  let weight := weightOf parts
  let weight' := weightOf others
  if weight = weight' then
    (Ord.compare parts.length others.length).then (compareAll parts others) = .gt
  else weight < weight'

/-- Extra lexemes at the end of parts do not belong to the phrase. -/
def splitExtras (parts : List Reading) : List Reading × List Reading :=
  let extras := (parts.reverse.takeWhile isExtra).reverse
  (parts.take (parts.length - extras.length), extras)

end Reading

end Exports.Script
