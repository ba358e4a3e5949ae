import Exports.Text

namespace Exports.ModuleName

/-- File name without extension. A leading dot starts no extension. -/
def stem (path : String) : String :=
  let name := Text.lastPiece '/' path
  match Text.beforeLast '.' name.toList with
  | none | some [] => name
  | some before => String.ofList before

/-- Name of the directory that holds the file. -/
def directory? (path : String) : Option String :=
  match (Text.split '/' path).reverse with
  | _ :: dir :: _ => if dir = "" then none else some dir
  | _ => none

def isEntry (entries : List String) (path : String) : Bool :=
  entries.any fun entry => stem entry = stem path

def ofPath (entries : List String) (path : String) : String :=
  match isEntry entries path, directory? path with
  | true, some dir => dir
  | _, _ => stem path

/-- Name of a module's default export. Only entry files prefer a declared name. -/
def ofDefault (entries : List String) (path : String) (declared : Option String) : String :=
  match isEntry entries path, declared.filter (· ≠ "") with
  | true, some name => name
  | _, _ => ofPath entries path

end Exports.ModuleName
