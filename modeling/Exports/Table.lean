namespace Exports

structure Table (α β : Type) where
  entries : List (α × β) := []
  deriving Repr

namespace Table

variable {α β : Type}

def size (t : Table α β) : Nat := t.entries.length

/-- What is left of the table when only such keys may stay. -/
def keep (t : Table α β) (may : α → Bool) : Table α β := ⟨t.entries.filter fun e => may e.1⟩

variable [DecidableEq α]

def get? (t : Table α β) (key : α) : Option β :=
  (t.entries.find? (·.1 = key)).map (·.2)

def contains (t : Table α β) (key : α) : Bool := (t.get? key).isSome

/-- Replaces the value of a key where it stands, or adds it at the end. -/
def insert (t : Table α β) (key : α) (value : β) : Table α β :=
  if t.contains key then
    ⟨t.entries.map fun e => if e.1 = key then (key, value) else e⟩
  else ⟨t.entries ++ [(key, value)]⟩

def erase (t : Table α β) (key : α) : Table α β := t.keep (· ≠ key)

end Table

end Exports
