import Exports.Script.Reading

namespace Exports.Script

structure Link where
  reading : Reading
  below : Nat

/-- A state that was reached at some place, with all ways in which it was reached. -/
structure Node where
  state : Nat
  stop : Mark
  weight : Int
  links : List Link

instance : Inhabited Node := ⟨⟨0, ⟨0, 0⟩, 0, []⟩⟩

/-- Nodes by number. -/
abbrev Stack := Array Node

namespace Stack

/-- Most links that a node may have. -/
def linkLimit : Nat := 8

/-- Most ways that are followed down at once. -/
def pathLimit : Nat := 64

def node (s : Stack) (n : Nat) : Node := s.getD n default

/-- Puts a reading on top of a node. -/
def push (s : Stack) (below state : Nat) (r : Reading) : Nat × Stack :=
  (s.size, Array.push s ⟨state, r.stop, (s.node below).weight + r.weight, [⟨r, below⟩]⟩)

/-- Whether two links read the same stretch as the same symbol, with as many parts. -/
def isAlike (s : Stack) (a b : Link) : Bool :=
  a.reading.symbol = b.reading.symbol && a.reading.start = b.reading.start &&
    a.reading.stop = b.reading.stop && a.reading.parts.length = b.reading.parts.length &&
    a.reading.isExtra = b.reading.isExtra && (s.node a.below).stop = (s.node b.below).stop

/-- Whether two nodes are in the same state at the same place. -/
def isSame (s : Stack) (a b : Nat) : Bool :=
  (s.node a).state = (s.node b).state && (s.node a).stop = (s.node b).stop

/-- Where a new link goes among those that a node has. -/
inductive Slot where
  /-- One like it leads to the same node. -/
  | double (index : Nat) (old : Link)
  /-- One like it leads to a node that can take in the links of the other. -/
  | twin (below : Nat)
  | fresh

def slotFor (s : Stack) (new : Link) : Nat → List Link → Slot
  | _, [] => .fresh
  | index, old :: rest =>
    if s.isAlike old new then
      if old.below = new.below then .double index old
      else if s.isSame old.below new.below then .twin old.below
      else slotFor s new (index + 1) rest
    else slotFor s new (index + 1) rest

/-- Adds one more way down from a node. Of two readings between the same two nodes only the
heavier is kept. The bound is on how far down nodes are joined. -/
def addLink : Nat → Stack → Nat → Link → Stack
  | 0, s, _, _ => s
  | depth + 1, s, n, new =>
    let node := s.node n
    let weight := (s.node new.below).weight + new.reading.weight
    if new.below = n then s
    else match s.slotFor new 0 node.links with
      | .double index old =>
        if old.reading.weight < new.reading.weight then
          s.setIfInBounds n { node with weight, links := node.links.set index new }
        else s
      | .twin below =>
        let s := (s.node new.below).links.foldl (fun s l => addLink depth s below l) s
        s.modify n fun node => { node with weight := max node.weight weight }
      | .fresh =>
        if linkLimit ≤ node.links.length then s
        else s.setIfInBounds n
          { node with weight := max node.weight weight, links := node.links ++ [new] }

/-- Gives one node the links of another. -/
def join (s : Stack) (n other : Nat) : Stack :=
  (s.node other).links.foldl (fun s l => addLink s.size s n l) s

/-- A way down, with the readings passed so far and how many are still to come. -/
structure Path where
  node : Nat
  left : Nat
  parts : List Reading

namespace Path

def along (p : Path) (l : Link) : Path :=
  ⟨l.below, if l.reading.isExtra then p.left else p.left - 1, l.reading :: p.parts⟩

end Path

/-- One step down on each path. Paths at their end are set apart, and where a node has several
links the further ones are taken after all other paths. -/
def descend (s : Stack) (paths : List Path) : List Path × List Path :=
  let (ended, first, further) := paths.foldl (fun (ended, first, further) p =>
    if p.left = 0 then (p :: ended, first, further)
    else match (s.node p.node).links with
      | [] => (ended, first, further)
      | l :: ls => (ended, p.along l :: first, (ls.map p.along).reverse ++ further)) ([], [], [])
  (ended.reverse, (first.reverse ++ further.reverse).take pathLimit)

/-- Follows paths until all of them have ended. -/
def followAll (s : Stack) : Nat → List Path → List Path
  | 0, _ => []
  | _, [] => []
  | depth + 1, paths =>
    let (ended, more) := s.descend paths
    ended ++ followAll s depth more

/-- All ways to take a number of readings off a node; extra ones do not count. -/
def pop (s : Stack) (n count : Nat) : List Path := s.followAll (s.size + 1) [⟨n, count, []⟩]

/-- All ways down to the bottom, as the readings from there on. -/
def wholePaths (s : Stack) : Nat → List Path → List (List Reading)
  | 0, _ => []
  | _, [] => []
  | depth + 1, paths =>
    let ended := paths.filter fun p => (s.node p.node).links.isEmpty
    let more := paths.flatMap fun p => (s.node p.node).links.map p.along
    ended.map (·.parts) ++ wholePaths s depth (more.take pathLimit)

end Stack

end Exports.Script
