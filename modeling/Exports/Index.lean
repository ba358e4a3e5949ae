import Exports.Entity
import Exports.Table

namespace Exports

structure FileEntities where
  path : String
  entities : List Entity
  deriving DecidableEq, Repr

/-- Replaces the entity of the same raw name where it stands, or adds it. -/
def FileEntities.insert (f : FileEntities) (e : Entity) : FileEntities :=
  let replace : List Entity → List Entity := fun es =>
    es.map fun old => if old.rawName = e.rawName then e else old
  { f with entities :=
      if f.entities.any (·.rawName = e.rawName) then replace f.entities else f.entities ++ [e] }

structure Index where
  files : List FileEntities := []
  /-- Where in `files` a file stands. -/
  positions : Table String Nat := {}

namespace Index

/-- Makes room for a file that has none. -/
def register (x : Index) (path : String) : Index :=
  if x.positions.contains path then x
  else ⟨x.files ++ [⟨path, []⟩], x.positions.insert path x.files.length⟩

def insert (x : Index) (e : Entity) : Index :=
  let x := x.register e.file
  match x.positions.get? e.file with
  | some position => { x with files := x.files.modify position (·.insert e) }
  | none => x

def ofEntities (es : List Entity) : Index := es.foldl insert {}

/-- Entities of one file. -/
def file? (x : Index) (path : String) : Option (List Entity) :=
  (x.positions.get? path).bind fun position => x.files[position]?.map (·.entities)

/-- Whether a key is `top` or lies below it. Everything lies below the empty key. -/
def isUnder (path top : String) : Bool :=
  top = "" || match top.toList.isPrefixOf? path.toList with
    | some rest => rest.isEmpty || rest.head? = some '/'
    | none => false

/-- Entities of all files at or below a key. -/
def under (x : Index) (top : String) : List Entity :=
  (x.files.filter fun f => isUnder f.path top).flatMap (·.entities)

def fileCount (x : Index) : Nat := x.files.length

def entityCount (x : Index) : Nat := (x.files.flatMap (·.entities)).length

def isEmpty (x : Index) : Bool := x.files.isEmpty

end Index

end Exports
