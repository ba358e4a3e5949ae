namespace Exports

/-- Line breaks before a place, and bytes since the last one. -/
structure Point where
  row : Nat
  column : Nat
  deriving DecidableEq, Repr

structure Edit where
  start : Nat
  oldEnd : Nat
  newEnd : Nat
  startPoint : Point
  oldEndPoint : Point
  newEndPoint : Point
  deriving DecidableEq, Repr

namespace Edit

/-- Length of the longest common front of two lists. -/
def commonLength [DecidableEq α] : List α → List α → Nat
  | a :: as, b :: bs => if a = b then commonLength as bs + 1 else 0
  | _, _ => 0

def newline : UInt8 := 10

def pointAt (bytes : List UInt8) (offset : Nat) : Point :=
  let before := bytes.take offset
  ⟨before.count newline, (before.reverse.takeWhile (· ≠ newline)).length⟩

/-- The shortest stretch that has to be replaced. The shared tail is sought only after the shared
front, so that the two never overlap. -/
def between (old new : List UInt8) : Edit :=
  let start := commonLength old new
  let tail := commonLength (old.drop start).reverse (new.drop start).reverse
  let oldEnd := old.length - tail
  let newEnd := new.length - tail
  ⟨start, oldEnd, newEnd, pointAt old start, pointAt old oldEnd, pointAt new newEnd⟩

def ofTexts (old new : String) : Edit := between old.toUTF8.toList new.toUTF8.toList

end Edit

end Exports
