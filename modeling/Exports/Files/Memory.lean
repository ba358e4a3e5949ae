import Exports.Files
import Exports.Table

namespace Exports

structure MemoryFile where
  content : String
  tick : Nat
  deriving DecidableEq, Repr

structure MemoryFiles where
  files : Table Place MemoryFile := {}
  /-- Writes so far. Times are told apart however many there are. -/
  clock : Nat := 0

namespace MemoryFiles

/-- Creates or replaces a file. -/
def write (m : MemoryFiles) (path : Path) (content : String) : MemoryFiles :=
  ⟨m.files.insert path.place ⟨content, m.clock + 1⟩, m.clock + 1⟩

def remove (m : MemoryFiles) (path : Path) : MemoryFiles :=
  { m with files := m.files.erase path.place }

def file? (m : MemoryFiles) (path : Path) : Option MemoryFile := m.files.get? path.place

def isDirectory (m : MemoryFiles) (path : Path) : Bool :=
  m.files.entries.any fun (place, _) => place ≠ path.place && path.place.isPrefixOf place

def view (m : MemoryFiles) : Files where
  isFile path := (m.file? path).isSome
  isDirectory := m.isDirectory
  read path :=
    match m.file? path with
    | some file => .ok file.content
    | none => .error (.unreadable true)
  stamp path := (m.file? path).map fun file => .written file.tick

end MemoryFiles

end Exports
