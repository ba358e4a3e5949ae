import Exports.Script.Automaton.Move
import Exports.Script.Scan
import Exports.Script.Stack

namespace Exports.Script

/-- What became of a reading of the source. -/
inductive Status where
  | active
  /-- Another reading has taken its place. -/
  | merged
  /-- The grammar does not allow what comes next. -/
  | stuck
  deriving DecidableEq, Repr

/-- One way to read the source up to some place. -/
structure Version where
  node : Nat
  place : Place
  status : Status

instance : Inhabited Version := ⟨⟨0, .ofSource [], .stuck⟩⟩

/-- A parser at work. -/
structure Machine where
  table : Table
  types : Bool
  automaton : Automaton
  stack : Stack
  versions : List Version
  /-- The best reading of the whole source so far. -/
  finished : Option (List Reading)

namespace Machine

/-- Most readings that are followed from one lexeme to the next. -/
def versionLimit : Nat := 6

/-- Most further readings for a while. -/
def versionOverflow : Nat := 4

def start (d : Dialect) (source : List Char) : Machine where
  table := .ofDialect d
  types := d.types
  automaton := .start (.ofDialect d)
  stack := #[⟨0, ⟨0, 0⟩, 0, []⟩]
  versions := [⟨0, .ofSource source, .active⟩]
  finished := none

variable (m : Machine)

def version (v : Nat) : Version := m.versions.getD v default

def stateOf (v : Nat) : Nat := (m.stack.node (m.version v).node).state

def setStatus (v : Nat) (s : Status) : Machine :=
  { m with versions := m.versions.modify v fun x => { x with status := s } }

/-- Puts a reading on top of a version. -/
def push (v state : Nat) (place : Place) (r : Reading) : Machine :=
  let (n, stack) := m.stack.push (m.version v).node state r
  { m with stack, versions := m.versions.modify v fun x => { x with node := n, place } }

/-- Whether two versions have come to the same state at the same place. -/
def canMerge (v other : Nat) : Bool :=
  (m.version v).status = .active && (m.version other).status = .active &&
    m.stack.isSame (m.version v).node (m.version other).node

/-- The first version takes in the other. -/
def merge (v other : Nat) : Machine :=
  { m with
    stack := m.stack.join (m.version v).node (m.version other).node
    versions := m.versions.eraseIdx other }

/-- The parts of a phrase that several paths to the same node offer. -/
def bestParts : List Stack.Path → List Reading × List Reading
  | [] => ([], [])
  | p :: ps => ps.foldl (fun (parts, extras) q =>
    let (parts', extras') := Reading.splitExtras q.parts
    if Reading.prefers parts parts' then (parts', extras') else (parts, extras))
    (Reading.splitExtras p.parts)

/-- Paths with those that end in the same node put together, in the order of the first ones. -/
def groups : Nat → List Stack.Path → List (List Stack.Path)
  | 0, _ => []
  | _, [] => []
  | n + 1, p :: ps =>
    (p :: ps.filter (·.node = p.node)) :: groups n (ps.filter (·.node ≠ p.node))

/-- Merges the last version into the first one that allows it. -/
def mergeLast (v : Nat) : Machine :=
  let last := m.versions.length - 1
  match (List.range last).find? fun j => j ≠ v && m.canMerge j last with
  | some j => m.merge j last
  | none => m

/-- Completes a phrase on one group of paths, as a new version. -/
def completeOn (v clause : Nat) (paths : List Stack.Path) : Machine :=
  match paths with
  | [] => m
  | p :: _ =>
    let idle := (m.versions.filter (·.status = .merged)).length
    if versionLimit + versionOverflow + idle < m.versions.length then m
    else
      let (parts, extras) := bestParts paths
      let place := (m.version v).place
      let below := m.stack.node p.node
      let reading := Reading.ofClause m.table clause below.stop parts
      let (next, automaton) := m.automaton.after m.table below.state reading.symbol
      let last := m.versions.length
      let m := { m with
        automaton
        versions := m.versions.concat ⟨p.node, place, .active⟩ }
      let m := (reading :: extras).foldl (fun m r => m.push last next place r) m
      m.mergeLast v

/-- Completes a phrase by a clause in every possible way. Tells the first version that came of it
and was not merged into another. -/
def complete (v clause : Nat) : Option Nat × Machine :=
  let count := m.versions.length
  let paths := m.stack.pop (m.version v).node (m.table.clause clause).length
  let m := (groups paths.length paths).foldl (fun m ps => m.completeOn v clause ps) m
  (if count < m.versions.length then some count else none, m)

/-- One version takes the place of an earlier one. -/
def replace (v new : Nat) : Machine :=
  { m with versions := (m.versions.set v (m.version new)).eraseIdx new }

/-- The readings of a whole source: the parts of the program and the comments around them. -/
def wholeParts (readings : List Reading) : List Reading :=
  readings.flatMap fun r => if r.isExtra then [r] else r.parts

def better (old : Option (List Reading)) (new : List Reading) : Option (List Reading) :=
  match old with
  | none => some new
  | some parts => if Reading.prefers parts new then some new else some parts

/-- Takes a version that has come to the end of the source. -/
def accept (v : Nat) : Machine :=
  let wholes := m.stack.wholePaths (m.stack.size + 1) [⟨(m.version v).node, 0, []⟩]
  { m.setStatus v .merged with
    finished := (wholes.map wholeParts).foldl better m.finished }

/-- Completes phrases one after another; tells the last version that came of it. -/
def completeAll (v : Nat) (clauses : List Nat) : Option Nat × Machine :=
  clauses.foldl (fun (last, m) clause =>
    let (new, m) := m.complete v clause
    (new.or last, m)) (none, m)

def moveAt (state lexeme : Nat) : Move := .ofState m.table (m.automaton.state state) lexeme

/-- Reads a token on top of a version. -/
def shift (v : Nat) (token : Token) : Machine :=
  let state := m.stateOf v
  let isExtra := (m.table.lexemes.getD token.lexeme .finish).isExtra
  let (next, automaton) :=
    if isExtra then (state, m.automaton) else m.automaton.after m.table state token.lexeme
  { m with automaton }.push v next token.stop
    (.leaf token.lexeme isExtra token.start token.stop.mark)

/-- Completes phrases before a token until it can be read. -/
def take : Nat → Machine → Nat → Token → Machine
  | 0, m, v, _ => m.setStatus v .stuck
  | n + 1, m, v, token =>
    let move := m.moveAt (m.stateOf v) token.lexeme
    if (m.table.lexemes.getD token.lexeme .finish).isExtra then m.shift v token
    else if move.complete.contains m.table.whole then m.accept v
    else
      let (last, m) := m.completeAll v move.complete
      if move.read then m.shift v token
      else match last with
        | some new => take n (m.replace v new) v token
        | none =>
          let identifier := Lexeme.patternNumber .identifier
          if !move.complete.isEmpty then m.setStatus v .merged
          else if token.isName && token.lexeme ≠ identifier &&
              !(m.moveAt (m.stateOf v) identifier).isNone then
            take n m v { token with lexeme := identifier }
          else m.setStatus v .stuck

/-- Reads one more token in a version. Between two tokens a version completes no more phrases than
each clause once on each node. -/
def advance (v : Nat) : Machine :=
  let valid := (m.automaton.state (m.stateOf v)).valid
  match (Expectation.mk m.table m.types valid).read? (m.version v).place with
  | none => m.setStatus v .stuck
  | some token => take (m.stack.size * m.table.clauses.size) m v token

/-- Reads tokens in a version until it is past the farthest place, or, if it is not the first one,
has come up to it. -/
def advanceTo : Nat → Machine → Nat → Nat → Machine × Nat
  | 0, m, _, far => (m, far)
  | n + 1, m, v, far =>
    if (m.version v).status ≠ .active then (m, far)
    else
      let m := m.advance v
      let here := (m.stack.node (m.version v).node).stop.offset
      if far < here || (0 < v && here = far) then (m, here) else advanceTo n m v far

/-- Advances all versions, those included that come up on the way. -/
def advanceAll (steps : Nat) : Nat → Machine → Nat → Nat → Machine × Nat
  | 0, m, _, far => (m, far)
  | n + 1, m, v, far =>
    if m.versions.length ≤ v then (m, far)
    else
      let (m, far) := advanceTo steps m v far
      advanceAll steps n m (v + 1) far

def weightAt (v : Nat) : Int := (m.stack.node (m.version v).node).weight

/-- Compares a version with those before it, from `j` on. It is merged where that is possible, and
otherwise changes places with a lighter one. -/
def settle (weight : Int) : Nat → Machine → Nat → Nat → Machine
  | 0, m, _, _ => m
  | n + 1, m, i, j =>
    if i ≤ j then m
    else if m.canMerge j i then m.merge j i
    else if m.weightAt j < weight then
      let swapped := (m.versions.set j (m.version i)).set i (m.version j)
      settle weight n { m with versions := swapped } i (j + 1)
    else settle weight n m i (j + 1)

/-- Settles all versions from the given one on. -/
def settleAll : Nat → Machine → Nat → Machine
  | 0, m, _ => m
  | n + 1, m, i =>
    if m.versions.length ≤ i then m
    else
      let count := m.versions.length
      let m := settle (m.weightAt i) count m i 0
      settleAll n m (if m.versions.length < count then i else i + 1)

/-- Drops versions that lead nowhere, merges those that agree and puts heavier ones first. -/
def condense : Machine :=
  let m := { m with versions := m.versions.filter (·.status = .active) }
  let m := settleAll m.versions.length m 0
  { m with versions := m.versions.take versionLimit }

/-- Rounds in which every version reads at least one token. -/
def run (steps : Nat) : Nat → Machine → Nat → Machine
  | 0, m, _ => m
  | n + 1, m, far =>
    let (m, far) := advanceAll steps steps m 0 far
    let m := m.condense
    if m.versions.isEmpty then m else run steps n m far

end Machine

/-- The best reading of a source, if the grammar has one for it. -/
def readings? (d : Dialect) (source : List Char) : Option (List Reading) :=
  let steps := 4 * source.length + 16
  (Machine.run steps steps (.start d source) 0).finished

end Exports.Script
