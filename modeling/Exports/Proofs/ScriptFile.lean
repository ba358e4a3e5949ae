import Exports.Proofs.Index
import Exports.Proofs.Lookup
import Exports.Proofs.Script

namespace Exports

/-- A script file and its declarations. -/
structure ScriptFile where
  root : Path
  file : Path
  language : Language
  declarations : List Declaration
  resolve : ResolveSettings
  isAbsolute : root.isAbsolute = true
  ofPath : Language.ofPath (Path.absolute root file) = .ok language
  isScript : language.isComponentFile = false
  wellScoped : Declaration.WellScoped declarations

namespace ScriptFile

def toModule (s : ScriptFile) : Module :=
  ⟨Path.relative s.root (Path.absolute s.root s.file), s.resolve⟩

def entities (s : ScriptFile) : List Entity :=
  s.toModule.scriptEntities s.language.allowsMarkup s.declarations

/-- An engine whose index has, of this file, what was drawn from it. -/
structure Indexed (s : ScriptFile) (files : Files) (e : Engine) : Prop where
  notDirectory : files.isDirectory (Path.absolute s.root s.file) = false
  resolve : e.resolve = s.resolve
  index : ∃ es, e.index = .ofEntities es ∧ es.filter (·.file = s.toModule.path) = s.entities

variable {s : ScriptFile} {files : Files} {e : Engine} {x y d : Entity}

theorem path_eq (s : ScriptFile) : s.toModule.path = Path.relative s.root s.file := by
  simp only [toModule, Path.relative_absolute s.isAbsolute]

def kept (s : ScriptFile) : List Entity :=
  (FileEntities.ofEntities s.toModule.path s.entities).entities

theorem Indexed.request_eq (h : s.Indexed files e) (name : String) (isDefault : Bool) :
    e.request files s.root s.file name isDefault =
      ⟨s.toModule.path, name, isDefault || name = "default"⟩ := by
  rw [Engine.request_of_not_directory h.notDirectory, s.path_eq]

theorem Indexed.inFile?_eq (h : s.Indexed files e) (hx : x ∈ s.entities) (name : String)
    (isDefault : Bool) :
    (Request.mk s.toModule.path name isDefault).inFile? e.resolve.entryFiles e.index =
      (if isDefault then
        (Request.mk s.toModule.path name isDefault).ownDefault? s.resolve.entryFiles s.kept
      else lastNamed? s.entities name).map (·.id) := by
  obtain ⟨es, hi, hes⟩ := h.index
  have hne : s.entities.isEmpty = false := by
    cases hs : s.entities with
    | nil => rw [hs] at hx; cases hx
    | cons => rfl
  have hc : isComponentPath s.toModule.path = false := by
    rw [s.path_eq]
    exact not_isComponentPath s.ofPath s.isScript
  have hfile : (Index.ofEntities es).file? s.toModule.path = some s.kept := by
    rw [Index.file?_ofEntities, hes, hne]
    rfl
  rw [Request.inFile?_eq, hi, hfile, h.resolve, Option.bind_some, Request.own?, hc]
  cases isDefault with
  | true => rfl
  | false =>
    rw [← FileEntities.find?_ofEntities s.toModule.path]
    rfl

/-- An entity that the file itself has is the answer. -/
theorem Indexed.lookup_of_inFile? (h : s.Indexed files e) {name id : String} {isDefault : Bool}
    (hid : (Request.mk s.toModule.path name (isDefault || name = "default")).inFile?
      e.resolve.entryFiles e.index = some id) :
    (e.lookup files s.root s.file name isDefault).1 = .ofIndexed id := by
  apply Engine.lookup_fst_of_inFile?
  rw [h.request_eq, hid]

theorem minted_of_mem (hx : x ∈ s.entities) : s.toModule.Minted x := Module.minted_of_mem hx

theorem eq_of_exportedAs (hx : x ∈ s.entities) (hy : y ∈ s.entities)
    (he : x.exportedAs = y.exportedAs) : x = y :=
  Module.eq_of_exportedAs s.wellScoped hx hy he

theorem nodup_entities (s : ScriptFile) : s.entities.Nodup :=
  (s.wellScoped.exports.sublist (s.toModule.exportedAs_sublist _ s.declarations)).of_map

theorem eq_of_isDefault (hx : x ∈ s.entities) (hy : y ∈ s.entities) (hxd : x.isDefault = true)
    (hyd : y.isDefault = true) : x = y :=
  eq_of_exportedAs hx hy (by simp [Entity.exportedAs, hxd, hyd])

/-- Two exports of one raw name are a named and a default one. -/
theorem isDefault_of_rawName (hx : x ∈ s.entities) (hy : y ∈ s.entities)
    (hn : x.isDefault = false) (he : y.rawName = x.rawName) (hne : y ≠ x) :
    y.isDefault = true := by
  cases hyd : y.isDefault with
  | true => rfl
  | false => exact absurd (eq_of_exportedAs hy hx (by simp [Entity.exportedAs, hn, hyd, he])) hne

/-- A new engine that was given the entities of the file, and others of other files. -/
def indexedWith (s : ScriptFile) (others : List Entity) : Engine :=
  { resolve := s.resolve, limits := ⟨false, 0, 0, 0⟩, index := .ofEntities (s.entities ++ others) }

theorem indexed_indexedWith {others : List Entity}
    (h : ∀ x ∈ others, x.file ≠ s.toModule.path) :
    s.Indexed ({} : MemoryFiles).view (s.indexedWith others) := by
  refine ⟨rfl, rfl, s.entities ++ others, rfl, ?_⟩
  exact filter_file_append (fun x hx => (minted_of_mem hx).file) h

theorem indexed_alone (s : ScriptFile) : s.Indexed ({} : MemoryFiles).view (s.indexedWith []) :=
  indexed_indexedWith fun _ hx => nomatch hx

theorem isAbsolute_repo : Path.isAbsolute ⟨"/repo"⟩ = true := by decide

def inCard (declarations : List Declaration) (h : Declaration.WellScoped declarations) :
    ScriptFile where
  root := ⟨"/repo"⟩
  file := ⟨"src/Card.ts"⟩
  language := .typescript
  declarations := declarations
  resolve := {}
  isAbsolute := isAbsolute_repo
  ofPath := by decide +kernel
  isScript := rfl
  wellScoped := h

/-- `export default function Foo() {}` -/
def defaultFoo : Declaration := ⟨.default, ⟨1, 1⟩, "", .function (some "Foo") false⟩

/-- `export { Foo };` -/
def clauseFoo : Declaration := ⟨.named, ⟨2, 2⟩, "", .clause [⟨"Foo", "Foo"⟩]⟩

/-- `export const` of a literal. -/
def constant (name : String) : Declaration := ⟨.named, ⟨2, 2⟩, "", .variables [⟨name, .literal⟩]⟩

/-- What `defaultFoo` gives in `src/Card.ts`. -/
def defaultCard : Entity :=
  { id := "Function:Card", kind := .function, file := "src/Card.ts", span := ⟨1, 1⟩
    rawName := "Foo", isDefault := true }

end ScriptFile

end Exports
