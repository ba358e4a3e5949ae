import Exports.Files
import Exports.Table

namespace Exports

open Text (Bytes slash dot)

/-- Names from the root down. -/
abbrev Location := List Bytes

structure DiskFile where
  /-- `none` when the bytes are no text. -/
  content : Option String
  tick : Nat
  deriving DecidableEq, Repr

structure Disk where
  /-- Each directory, and when its list of names last changed. -/
  directories : Table Location Nat := ⟨[([], 0)]⟩
  files : Table Location DiskFile := {}
  /-- Writes so far. -/
  clock : Nat := 0
  /-- Changes to lists of names so far. -/
  changes : Nat := 0

namespace Disk

/-- One step of a path, from a directory. -/
def step (d : Disk) (at? : Option Location) (piece : Bytes) : Option Location := do
  let here ← at?
  if !d.directories.contains here then none
  else if piece = [] || piece = [dot] then some here
  else if piece = [dot, dot] then some here.dropLast
  else
    let there := here ++ [piece]
    if d.directories.contains there || d.files.contains there then some there else none

/-- Where an absolute path leads, if something is there. -/
def locate (d : Disk) (path : Path) : Option Location :=
  if path.isAbsolute then (Text.pieces slash path.bytes).foldl d.step (some []) else none

def file? (d : Disk) (path : Path) : Option DiskFile := (d.locate path).bind d.files.get?

def isDirectory (d : Disk) (path : Path) : Bool :=
  (d.locate path).any fun here => d.directories.contains here

/-- Notes that the names in a directory changed. -/
def touch (d : Disk) (here : Location) : Disk :=
  { d with
    directories := d.directories.insert here (d.changes + 1)
    changes := d.changes + 1 }

def makeDirectory (d : Disk) (here : Location) : Disk :=
  (d.touch here.dropLast).touch here

/-- Follows the steps of a path and makes the directories that are missing. -/
def makeDirectories (d : Disk) (here : Location) : List Bytes → Option (Disk × Location)
  | [] => some (d, here)
  | piece :: rest =>
    match d.step (some here) piece with
    | some there => d.makeDirectories there rest
    | none =>
      if d.directories.contains here then
        (d.makeDirectory (here ++ [piece])).makeDirectories (here ++ [piece]) rest
      else none

/-- Creates or replaces a file, with the directories above it. Content that is no text may be
written but not read. -/
def write (d : Disk) (path : Path) (content : Option String) : Disk :=
  let pieces := Text.pieces slash path.bytes
  let written := do
    let (d, here) ← d.makeDirectories [] pieces.dropLast
    let name ← pieces.getLast?
    let there := here ++ [name]
    if name = [] || !d.directories.contains here || d.directories.contains there then none
    let d := if d.files.contains there then d else d.touch here
    some { d with
      files := d.files.insert there ⟨content, d.clock + 1⟩
      clock := d.clock + 1 }
  written.getD d

/-- Removes a file. Its directory stays. -/
def remove (d : Disk) (path : Path) : Disk :=
  match d.locate path with
  | some here =>
    if d.files.contains here then
      { d.touch here.dropLast with files := d.files.erase here }
    else d
  | none => d

def view (d : Disk) : Files where
  isFile path := (d.file? path).isSome
  isDirectory := d.isDirectory
  read path :=
    match d.file? path with
    | some ⟨some content, _⟩ => .ok content
    | some ⟨none, _⟩ => .error (.unreadable false)
    | none => .error (.unreadable true)
  stamp path :=
    match d.file? path with
    | some file => some (.written file.tick)
    | none => ((d.locate path).bind d.directories.get?).map .listed

end Disk

end Exports
