import Exports.Index
import Exports.ModuleName
import Exports.Language

namespace Exports

/-- A name that some file is asked for. The name of a default export is only a hint. -/
structure Request where
  /-- Key of the file. -/
  path : String
  name : String
  isDefault : Bool
  deriving DecidableEq, Repr

/-- Directories between the workspace and a file. -/
def depth (path : String) : Nat := path.toList.count '/'

/-- Entities at or below a key, those of shallow files first. -/
def Index.candidates (x : Index) (top : String) : List Entity :=
  (x.under top).mergeSort fun a b => depth a.file ≤ depth b.file

namespace Request

variable (entries : List String) (r : Request)

/-- The default export among the entities of its file. -/
def ownDefault? (es : List Entity) : Option Entity :=
  let base := ModuleName.ofPath entries r.path
  (es.find? (·.rawName = "default")).or <|
    (es.find? (·.rawName = base)).or <|
      (es.find? fun e => Text.endsIn e.id (":" ++ base)).or (es.find? (·.isDefault))

/-- Id of the entity that the file itself has under the name. A component file has one entity,
whatever the name. -/
def inFile? (x : Index) : Option String := do
  let es ← x.file? r.path
  let found ←
    if isComponentPath r.path then es.head?
    else if r.isDefault then r.ownDefault? entries es
    else es.find? (·.rawName = r.name)
  some found.id

/-- A default export among the entities of several files. -/
def nearbyDefault? (es : List Entity) : Option Entity :=
  let moduleOf (e : Entity) := ModuleName.ofPath entries e.file
  let base := ModuleName.ofPath entries r.path
  (es.find? (·.rawName = "default")).or <|
    (es.find? fun e => Text.hasPart e.id (":" ++ r.name)).or <|
      (es.find? fun e => moduleOf e = r.name).or <|
        (es.find? fun e => moduleOf e = base && e.isDefault).or
          (es.find? fun e => moduleOf e = base)

/-- A named export among the entities of several files. -/
def nearbyNamed? (es : List Entity) : Option Entity :=
  (es.find? fun e => e.idName = r.name).or
    (es.find? fun e => Text.hasPart e.id (":" ++ r.name))

/-- The entity meant, among those of several files. The same raw name comes first. -/
def choose? (es : List Entity) : Option Entity :=
  (es.find? (·.rawName = r.name)).or <|
    if r.isDefault then r.nearbyDefault? entries es else r.nearbyNamed? es

/-- Keys of the directories above the file, nearest first. The last is the whole workspace. -/
def directories : List String :=
  let parts := (Text.split '/' r.path).filter (· ≠ "")
  (List.range parts.length).reverse.map fun level => "/".intercalate (parts.take level)

/-- Id of the entity meant, in the nearest directory that has one. -/
def nearby? (x : Index) : Option String :=
  r.directories.findSome? fun top => (r.choose? entries (x.candidates top)).map (·.id)

/-- Id of the entity meant, if the index has one. -/
def find? (x : Index) : Option String := (r.inFile? entries x).or (r.nearby? entries x)

end Request

end Exports
