import Exports.Script.Automaton

namespace Exports.Script

/-- What takes part in a comparison of strengths: a strength, and the phrases it belongs to. -/
structure Contender where
  strength : Strength
  results : List Symbol

namespace Contender

def matchesRival (c : Contender) : Rival → Bool
  | .grade g => c.strength = .grade g
  | .phrase p => c.results.contains (.phrase p)

/-- Which of two contenders one order puts first, if it speaks of both. -/
def rank (left right : Contender) : Bool → Bool → List Rival → Option Ordering
  | _, _, [] => none
  | sawLeft, sawRight, r :: rest =>
    if left.matchesRival r then
      if sawRight then some .lt else rank left right true sawRight rest
    else if right.matchesRival r then
      if sawLeft then some .gt else rank left right sawLeft true rest
    else rank left right sawLeft sawRight rest

/-- Levels compare with each other and with the lack of a strength; all else goes by the first
order that speaks of both. -/
def compare (orders : List (List Rival)) (left right : Contender) : Ordering :=
  let byOrders := (orders.findSome? (rank left right false false)).getD .eq
  match left.strength, right.strength with
  | .level l, .level r => if l ≠ 0 || r ≠ 0 then Ord.compare l r else byOrders
  | .level l, .unset => if l ≠ 0 then Ord.compare l 0 else byOrders
  | .unset, .level r => if r ≠ 0 then Ord.compare 0 r else byOrders
  | _, _ => byOrders

end Contender

/-- Phrases that may be completed before a lexeme, with what their rules say. -/
structure Completion where
  /-- Clauses in the order in which they are tried. -/
  clauses : List Nat
  contender : Contender
  sides : List (Option Side)

namespace Completion

def none : Completion := ⟨[], ⟨.unset, []⟩, []⟩

/-- Takes in one more clause. Of clauses that differ in strength only the strongest remain. -/
def add (t : Table) (done : Completion) (n : Nat) : Completion :=
  let clause := t.clause n
  let last := clause.stepBefore? clause.length
  let strength := (last.map (·.strength)).getD .unset
  let side := last.bind (·.side)
  let result := clause.production.result
  let alone : Completion := ⟨[n], ⟨strength, [result]⟩, [side]⟩
  if done.clauses.isEmpty then alone
  else match Contender.compare t.orders ⟨strength, [result]⟩ done.contender with
    | .gt => alone
    | .lt => done
    | .eq => ⟨done.clauses ++ [n], ⟨strength, result :: done.contender.results⟩,
        side :: done.sides⟩

/-- Shorter clauses come first, and of equal ones those whose results have lower numbers. -/
def order (t : Table) (a b : Item) : Bool :=
  let left := t.clause a.clause
  let right := t.clause b.clause
  a.dot < b.dot || (a.dot = b.dot && left.result ≤ right.result)

/-- Complete items before a lexeme. -/
def items (s : State) (lexeme : Nat) : List Item := s.complete.filter (·.follow.testBit lexeme)

def ofState (t : Table) (s : State) (lexeme : Nat) : Completion :=
  ((items s lexeme).mergeSort (order t)).foldl (fun done i => done.add t i.clause) none

end Completion

/-- What to do at a lexeme: complete phrases, and perhaps also read it. -/
structure Move where
  complete : List Nat
  read : Bool
  deriving DecidableEq, Repr

namespace Move

def isNone (m : Move) : Bool := m.complete.isEmpty && !m.read

/-- Items under way that go on with the lexeme. -/
def goingOn (t : Table) (s : State) (lexeme : Nat) : List Item :=
  s.items.filter fun i =>
    match i.next? t with
    | some symbol => 0 < i.dot && (t.firstOfSymbol symbol).testBit lexeme
    | none => false

/-- How an item that goes on compares with what ends before it. -/
def compare (t : Table) (done : Completion) (i : Item) : Ordering :=
  let clause := t.clause i.clause
  let strength := ((clause.stepBefore? i.dot).map (·.strength)).getD .unset
  Contender.compare t.orders ⟨strength, [clause.production.result]⟩ done.contender

/-- Whether all items are parts of one list. -/
def areOneList (t : Table) (items : List Item) : Bool :=
  let results := items.map fun i => (t.clause i.clause).production.result
  match results with
  | .list n :: rest => rest.all (· = .list n)
  | _ => false

/-- Settles whether to read a lexeme or to complete phrases before it. -/
def settle (done : Completion) (orders : List Ordering) : Move :=
  let both : Move := ⟨done.clauses, true⟩
  let onlyRead : Move := ⟨[], true⟩
  let onlyComplete : Move := ⟨done.clauses, false⟩
  match orders.contains .gt, orders.contains .lt with
  | true, true => both
  | true, false => onlyRead
  | false, true => onlyComplete
  | false, false =>
    if done.sides.all (· = some .left) then onlyComplete
    else if done.sides.all (· = some .right) then onlyRead
    else both

/-- A part of a list ends as soon as it can. -/
def ofState (t : Table) (s : State) (lexeme : Nat) : Move :=
  let done := Completion.ofState t s lexeme
  let reads := s.next.testBit lexeme
  if done.clauses.isEmpty || !reads then ⟨done.clauses, reads⟩
  else
    let more := goingOn t s lexeme
    if areOneList t (more ++ Completion.items s lexeme) then ⟨done.clauses, false⟩
    else settle done (more.map (compare t done))

end Move

end Exports.Script
