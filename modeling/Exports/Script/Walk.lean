import Exports.Script.Tree

namespace Exports.Script

/-- A node, and for each node above it up to the start: that node, and what follows the child
that the cursor came down through. -/
structure Cursor where
  focus : Tree
  above : List (Tree × List Tree)

namespace Cursor

def ofTree (t : Tree) : Cursor := ⟨t, []⟩

def firstChild? (c : Cursor) : Option Cursor :=
  match c.focus.children with
  | [] => none
  | t :: ts => some ⟨t, (c.focus, ts) :: c.above⟩

def nextSibling? (c : Cursor) : Option Cursor :=
  match c.above with
  | (parent, t :: ts) :: above => some ⟨t, (parent, ts) :: above⟩
  | _ => none

def parent? (c : Cursor) : Option Cursor :=
  match c.above with
  | [] => none
  | (parent, _) :: above => some ⟨parent, above⟩

/-- The round after one at a cursor. `done` tells that the focus and all below it were met before,
as they were when the cursor comes up to a node. -/
def next? (done : Bool) (c : Cursor) : Option (Bool × Cursor) :=
  match (if done then none else c.firstChild?), c.nextSibling?, c.parent? with
  | some below, _, _ => some (false, below)
  | none, some beside, _ => some (false, beside)
  | none, none, some up => some (true, up)
  | none, none, none => none

/-- Where a round meets a node. -/
def met (done : Bool) (c : Cursor) : List Cursor := if done then [] else [c]

/-- Bounds the rounds after those of the focus. A node that is still to come is met once, and come
up to at most once; to a node above, the cursor can only come up. -/
def roundsAfter : List (Tree × List Tree) → Nat
  | [] => 0
  | (_, later) :: above => 2 * Tree.sizeAll later + 1 + roundsAfter above

/-- Bounds the rounds from a cursor on. -/
def roundsLeft (done : Bool) (c : Cursor) : Nat :=
  (if done then 1 else 2 * c.focus.size) + roundsAfter c.above

theorem roundsLeft_gt (done : Bool) (c : Cursor) : roundsAfter c.above < c.roundsLeft done := by
  have hsize : 0 < c.focus.size := c.focus.size_pos
  cases done with
  | true => simp [roundsLeft]
  | false => simp [roundsLeft, hsize]

section

variable {c : Cursor}

theorem roundsLeft_firstChild? {below : Cursor} (h : c.firstChild? = some below) :
    below.roundsLeft false < c.roundsLeft false := by
  obtain ⟨⟨_, _, _, _, ts⟩, above⟩ := c
  cases ts with
  | nil => cases h
  | cons t ts =>
    cases h
    simp only [roundsLeft, roundsAfter, Bool.false_eq_true, if_false, Tree.size, Tree.sizeAll]
    omega

theorem roundsLeft_nextSibling? {beside : Cursor} (h : c.nextSibling? = some beside) :
    beside.roundsLeft false = roundsAfter c.above := by
  obtain ⟨focus, _ | ⟨⟨parent, _ | ⟨t, ts⟩⟩, above⟩⟩ := c
  · cases h
  · cases h
  · cases h
    simp only [roundsLeft, roundsAfter, Bool.false_eq_true, if_false, Tree.sizeAll]
    omega

theorem roundsLeft_parent? {up : Cursor} (h : c.parent? = some up) :
    up.roundsLeft true ≤ roundsAfter c.above := by
  obtain ⟨focus, _ | ⟨⟨parent, later⟩, above⟩⟩ := c
  · cases h
  · cases h
    simp only [roundsLeft, roundsAfter, if_true]
    omega

/-- Every round leaves fewer of them. -/
theorem roundsLeft_next? {done flag : Bool} {c' : Cursor} (h : c.next? done = some (flag, c')) :
    c'.roundsLeft flag < c.roundsLeft done := by
  have hafter := c.roundsLeft_gt done
  unfold next? at h
  split at h
  case h_1 below _ _ hbelow =>
    cases h
    cases done with
    | true => cases hbelow
    | false => exact roundsLeft_firstChild? hbelow
  case h_2 beside _ _ hbeside =>
    cases h
    rw [roundsLeft_nextSibling? hbeside]
    exact hafter
  case h_3 up _ _ hup =>
    cases h
    exact Nat.lt_of_le_of_lt (roundsLeft_parent? hup) hafter
  case h_4 => cases h

end

/-- Where nodes are met from a cursor on. -/
def visit (done : Bool) (c : Cursor) : List Cursor :=
  match h : c.next? done with
  | some (flag, c') =>
    have : c'.roundsLeft flag < c.roundsLeft done := roundsLeft_next? h
    c.met done ++ visit flag c'
  | none => c.met done
termination_by c.roundsLeft done

end Cursor

namespace Tree

/-- Where a walk of a node meets nodes. -/
def stops (t : Tree) : List Cursor := Cursor.visit false (Cursor.ofTree t)

def walk (t : Tree) : List Tree := t.stops.map Cursor.focus

def contains (tags : List Tag) (t : Tree) : Bool := t.walk.any fun n => tags.contains n.tag

/-- Whether markup is built anywhere in the node. A fragment is an element without a name. -/
def buildsMarkup (t : Tree) : Bool :=
  t.contains [.phrase .markupElement, .phrase .markupEmpty]

end Tree

end Exports.Script
