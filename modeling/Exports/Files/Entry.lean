import Exports.Files
import Exports.Json.Decode

namespace Exports.Files

/-- The main file of the directory's package, as its manifest names it. -/
def packageMain (files : Files) (directory : Path) : Except Error (Option Path) :=
  let manifest := directory.join ⟨"package.json"⟩
  if !files.isFile manifest then .ok none
  else do
    let text ← files.read manifest
    match (Json.parse? text).bind Json.asManifestMain? with
    | none => .error (.invalidManifest manifest)
    | some main =>
      .ok ((main.map fun m : String => (directory.join ⟨m⟩).normalize).filter files.isFile)

/-- The first entry file that is there, otherwise the main file of the package. -/
def entryFile (files : Files) (entries : List String) (directory : Path) :
    Except Error (Option Path) :=
  match (entries.map fun entry : String => directory.join ⟨entry⟩).find? files.isFile with
  | some entry => .ok (some entry)
  | none => files.packageMain directory

/-- As `entryFile`, where a package that cannot be read names no file. -/
def entryFile? (files : Files) (entries : List String) (directory : Path) : Option Path :=
  match files.entryFile entries directory with
  | .ok entry => entry
  | .error _ => none

end Exports.Files
