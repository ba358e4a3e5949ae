namespace Exports.Text

def Reader (α : Type) : Type := List Char → Option (α × List Char)

namespace Reader

variable {α β : Type}

instance : Monad Reader where
  pure a := fun s => some (a, s)
  bind p f := fun s =>
    match p s with
    | none => none
    | some (a, s') => f a s'

def fail : Reader α := fun _ => none

/-- The first reader, or the second from the same place. -/
def orElse (p q : Reader α) : Reader α := fun s =>
  match p s with
  | none => q s
  | some r => some r

def attempt (p : Reader α) : Reader (Option α) := fun s =>
  match p s with
  | none => some (none, s)
  | some (a, s') => some (some a, s')

def guard (b : Bool) : Reader Unit := fun s => if b then some ((), s) else none

def peek : Reader (Option Char) := fun s => some (s.head?, s)

def any : Reader Char := fun s =>
  match s with
  | [] => none
  | c :: cs => some (c, cs)

def satisfy (ok : Char → Bool) : Reader Char := fun s =>
  match s with
  | [] => none
  | c :: cs => if ok c then some (c, cs) else none

def char (c : Char) : Reader Unit := do
  let _ ← satisfy (· = c)

def literal (text : String) : Reader Unit := fun s =>
  (text.toList.isPrefixOf? s).map fun rest => ((), rest)

def takeWhile (ok : Char → Bool) : Reader (List Char) := fun s =>
  some (s.takeWhile ok, s.dropWhile ok)

/-- At least one character of the class. -/
def run (ok : Char → Bool) : Reader (List Char) := do
  let cs ← takeWhile ok
  guard !cs.isEmpty
  return cs

/-- A set number of characters of the class. -/
def exactly (count : Nat) (ok : Char → Bool) : Reader (List Char) := fun s =>
  let cs := s.take count
  if cs.length = count && cs.all ok then some (cs, s.drop count) else none

def manyBounded (p : Reader α) : Nat → Reader (List α)
  | 0 => pure []
  | n + 1 => fun s =>
    match p s with
    | none => some ([], s)
    | some (a, s') =>
      match manyBounded p n s' with
      | none => some ([a], s')
      | some (as, s'') => some (a :: as, s'')

/-- As many times as it succeeds. The rest of the text bounds the rounds. -/
def many (p : Reader α) : Reader (List α) := fun s => manyBounded p (s.length + 1) s

def finish : Reader Unit := fun s => if s.isEmpty then some ((), s) else none

/-- What the reader makes of the whole text. -/
def all? (p : Reader α) (s : List Char) : Option α :=
  match p s with
  | some (a, []) => some a
  | _ => none

end Reader

def hexValue (c : Char) : Option Nat :=
  if '0' ≤ c && c ≤ '9' then some (c.toNat - '0'.toNat)
  else if 'a' ≤ c && c ≤ 'f' then some (c.toNat - 'a'.toNat + 10)
  else if 'A' ≤ c && c ≤ 'F' then some (c.toNat - 'A'.toNat + 10)
  else none

/-- The number that digits of a base write, most significant first. -/
def natOfDigits (base : Nat) (digits : List Char) : Nat :=
  digits.foldl (fun n c => n * base + (hexValue c).getD 0) 0

/-- The character of a code point, if it has one. -/
def charOfCode? (n : Nat) : Option Char :=
  if h : n.isValidChar then some (Char.ofNatAux n h) else none

end Exports.Text
