import Exports.Script.Grammar.Table

namespace Exports.Script

/-- A production of which the symbols before the dot have been read. -/
structure Item where
  clause : Nat
  dot : Nat
  /-- Lexemes that may stand after the whole production. -/
  follow : LexemeSet
  deriving DecidableEq, Repr, Hashable

namespace Item

def order (a b : Item) : Bool := a.clause < b.clause || (a.clause = b.clause && a.dot ≤ b.dot)

/-- Items that agree in what has been read are one item, which either's followers may follow. -/
def merge : List Item → List Item
  | a :: b :: rest =>
    if a.clause = b.clause && a.dot = b.dot then
      merge (⟨a.clause, a.dot, a.follow ||| b.follow⟩ :: rest)
    else a :: merge (b :: rest)
  | items => items
termination_by items => items.length

/-- The symbol after the dot. -/
def next? (t : Table) (i : Item) : Option Nat := (t.clause i.clause).symbols[i.dot]?

/-- Lexemes that may stand after the symbol that is next. -/
def afterNext (t : Table) (i : Item) : LexemeSet :=
  match (t.clause i.clause).symbols[i.dot + 1]? with
  | some symbol => t.firstOfSymbol symbol
  | none => i.follow

end Item

/-- A phrase that may begin here, with the lexemes that may stand after it. -/
structure Head where
  phrase : Nat
  follow : LexemeSet

structure State where
  items : List Item
  heads : List Head
  /-- Items of which everything has been read. -/
  complete : List Item
  /-- Lexemes that may be read next. -/
  next : LexemeSet
  /-- Lexemes that may be read next, also once phrases have been completed. -/
  valid : LexemeSet

instance : Inhabited State := ⟨⟨[], [], [], 0, 0⟩⟩

namespace State

def addHead (heads : List Head) (h : Head) : List Head :=
  match heads with
  | [] => [h]
  | old :: rest =>
    if old.phrase = h.phrase then ⟨h.phrase, old.follow ||| h.follow⟩ :: rest
    else old :: addHead rest h

def addItem (t : Table) (s : State) (i : Item) : State :=
  match i.next? t with
  | none => { s with complete := s.complete ++ [i], valid := s.valid ||| i.follow }
  | some symbol =>
    let first := t.firstOfSymbol symbol
    { s with
      next := s.next ||| first
      valid := s.valid ||| first
      heads := if t.isLexeme symbol then s.heads
        else addHead s.heads ⟨symbol, i.afterNext t⟩ }

def ofItems (t : Table) (items : List Item) : State :=
  items.foldl (addItem t) ⟨items, [], [], 0, 0⟩

/-- Items once a symbol has been read: those that expected it, and those that a phrase that may
begin here starts with. -/
def itemsAfter (t : Table) (s : State) (symbol : Nat) : List Item :=
  let advanced := s.items.filterMap fun i =>
    if i.next? t = some symbol then some { i with dot := i.dot + 1 } else none
  let begun := s.heads.flatMap fun h => (t.cornersAt h.phrase symbol).toList.map fun c =>
    ⟨c.clause, 1, if c.isLast then c.follow ||| h.follow else c.follow⟩
  Item.merge ((advanced ++ begun).mergeSort Item.order)

end State

/-- The states met so far. -/
structure Automaton where
  states : Array State
  numbers : Std.HashMap (List Item) Nat
  ways : Std.HashMap (Nat × Nat) Nat

namespace Automaton

/-- A source may hold nothing at all. -/
def startItems (t : Table) : List Item :=
  let finish := 1 <<< Lexeme.patternNumber .finish
  [⟨t.whole, 0, finish⟩, ⟨t.nothing, 0, finish⟩]

/-- Only the state at the start of a source, which has number zero. -/
def start (t : Table) : Automaton where
  states := #[.ofItems t (startItems t)]
  numbers := .ofList [(startItems t, 0)]
  ways := ∅

def state (a : Automaton) (n : Nat) : State := a.states.getD n default

/-- The number of the state with these items. -/
def numberOf (t : Table) (a : Automaton) (items : List Item) : Nat × Automaton :=
  match a.numbers[items]? with
  | some n => (n, a)
  | none =>
    let n := a.states.size
    (n, { a with
      states := a.states.push (.ofItems t items)
      numbers := a.numbers.insert items n })

/-- The state after a symbol. -/
def after (t : Table) (a : Automaton) (source symbol : Nat) : Nat × Automaton :=
  match a.ways[(source, symbol)]? with
  | some n => (n, a)
  | none =>
    let (n, a) := a.numberOf t ((a.state source).itemsAfter t symbol)
    (n, { a with ways := a.ways.insert (source, symbol) n })

end Automaton

end Exports.Script
