import Exports.Text.Bytes

namespace Exports

open Text (Bytes slash dot)

/-- A step of a path. The bytes of a name need not be those of a text. -/
inductive Component where
  | root
  | here
  | up
  | name (bytes : Bytes)
  deriving DecidableEq, Repr

namespace Component

def spelled : Component → Bytes
  | root => [slash]
  | here => [dot]
  | up => [dot, dot]
  | name bytes => bytes

/-- A piece between slashes. Empty pieces and `.` are no component. -/
def ofPiece (piece : Bytes) : Option Component :=
  if piece = [] ∨ piece = [dot] then none
  else if piece = [dot, dot] then some up
  else some (name piece)

end Component

/-- Components of a path, in order. -/
abbrev Place := List Component

/-- A path keeps the bytes that it was written with. Two paths name the same place when their
components are equal. -/
structure Path where
  bytes : Bytes
  deriving DecidableEq, Repr

namespace Path

/-- The text that a path is shown as. -/
def shown (p : Path) : String := Text.shown p.bytes

def isAbsolute (p : Path) : Bool := [slash].isPrefixOf p.bytes

/-- A leading `.` of a relative path is a component of its own. Otherwise neither repeated and
trailing slashes nor `.` leave one. -/
def place (p : Path) : Place :=
  match Text.pieces slash p.bytes with
  | [] => []
  | first :: rest =>
    let start :=
      if p.isAbsolute then [Component.root]
      else if first = [dot] then [Component.here]
      else (Component.ofPiece first).toList
    start ++ rest.filterMap Component.ofPiece

/-- An absolute second path replaces the first. -/
def join (p q : Path) : Path :=
  if q.isAbsolute || p.bytes = [] then q
  else if [slash].isSuffixOf p.bytes then ⟨p.bytes ++ q.bytes⟩
  else ⟨p.bytes ++ slash :: q.bytes⟩

/-- Last component, when it is a name. -/
def fileName? (p : Path) : Option Bytes :=
  match p.place.getLast? with
  | some (.name bytes) => some bytes
  | _ => none

/-- What follows the last dot of the file name. A name whose only dot is its first character
has no extension. -/
def extension? (p : Path) : Option Bytes := do
  let name ← p.fileName?
  let stem ← Text.beforeLast dot name
  if stem.isEmpty then none
  else some (name.drop (stem.length + 1))

end Path

namespace Place

/-- Names and `..` steps, as texts. Names that are no texts can be shown alike. -/
def segments (place : Place) : List String :=
  place.filterMap fun
    | .name bytes => some (Text.shown bytes)
    | .up => some ".."
    | .root | .here => none

/-- Names and `..` steps joined with slashes; the root leaves no mark. -/
def slashed (place : Place) : String := "/".intercalate place.segments

/-- The path that is rebuilt component by component. -/
def toPath : Place → Path
  | .root :: rest => ⟨slash :: [slash].intercalate (rest.map Component.spelled)⟩
  | place => ⟨[slash].intercalate (place.map Component.spelled)⟩

/-- One step of normalization on the components kept so far, last first. A `..` removes the
component before it, whatever it is, unless there is none or it is the root. -/
def keep (kept : Place) : Component → Place
  | .here => kept
  | .up => match kept with
    | [] => [.up]
    | .root :: below => .up :: .root :: below
    | _ :: below => below
  | .root => [.root]
  | .name s => .name s :: kept

def normalize (place : Place) : Place := (place.foldl keep []).reverse

/-- What remains of `place` below `base`, when it lies there. -/
def below? (base place : Place) : Option Place := base.isPrefixOf? place

end Place

namespace Path

/-- Resolves `.` and `..` by the components alone. -/
def normalize (p : Path) : Path := p.place.normalize.toPath

/-- Relative paths are taken from `root`. -/
def absolute (root p : Path) : Path := (root.join p).normalize

def slashed (p : Path) : String := p.place.slashed

/-- Key of a file inside its workspace. A path outside `root` keeps all of its components. -/
def relative (root p : Path) : String :=
  let whole := (absolute root p).place
  ((Place.below? root.normalize.place whole).getD whole).slashed

end Path

end Exports
