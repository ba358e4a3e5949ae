import Exports.Proofs.EntityFiles
import Exports.Proofs.Index
import Exports.Proofs.KeyNames

namespace Exports

theorem ModuleName.ofDefault_none (entries : List String) (path : String) :
    ofDefault entries path none = ofPath entries path := by
  unfold ofDefault
  cases isEntry entries path <;> rfl

/-- All entities of a component file have the id of the component. -/
theorem Module.id_of_mem_componentEntities {m : Module} {parsed : ParsedSource} {x : Entity}
    (hx : x ∈ m.componentEntities parsed) : x.id = Kind.component.idFor m.name := by
  obtain ⟨span, rawName, rfl⟩ := exists_of_mem_componentEntities hx
  rw [componentEntity, defaultName, ModuleName.ofDefault_none, name]

/-- A component file and what is parsed of it, which may be anything. -/
structure ComponentFile where
  root : Path
  file : Path
  parsed : ParsedSource
  resolve : ResolveSettings
  isAbsolute : root.isAbsolute = true
  ofPath : Language.ofPath (Path.absolute root file) = .ok .vue
  ne_root : Path.absolute root file ≠ root.normalize

namespace ComponentFile

def toModule (c : ComponentFile) : Module :=
  ⟨Path.relative c.root (Path.absolute c.root c.file), c.resolve⟩

def entities (c : ComponentFile) : List Entity := c.toModule.componentEntities c.parsed

/-- An engine whose index has, of this file, what was drawn from it. -/
structure Indexed (c : ComponentFile) (files : Files) (e : Engine) : Prop where
  notDirectory : files.isDirectory (Path.absolute c.root c.file) = false
  resolve : e.resolve = c.resolve
  index : ∃ es, e.index = .ofEntities es ∧ es.filter (·.file = c.toModule.path) = c.entities

variable {c : ComponentFile} {files : Files} {e : Engine} {x : Entity}

theorem path_eq (c : ComponentFile) : c.toModule.path = Path.relative c.root c.file := by
  simp only [toModule, Path.relative_absolute c.isAbsolute]

theorem file_of_mem (hx : x ∈ c.entities) : x.file = c.toModule.path := by
  obtain ⟨span, rawName, rfl⟩ := Module.exists_of_mem_componentEntities hx
  rw [Module.componentEntity]

theorem id_of_mem (hx : x ∈ c.entities) :
    x.id = Kind.component.idFor
      (ModuleName.ofPath c.resolve.entryFiles (Path.relative c.root c.file)) := by
  rw [Module.id_of_mem_componentEntities hx, Module.name, c.path_eq]
  rfl

theorem Indexed.exists_head (h : c.Indexed files e) (hne : c.entities ≠ []) :
    ∃ es x, e.index.file? (Path.relative c.root c.file) = some es ∧ es.head? = some x ∧
      x ∈ c.entities := by
  obtain ⟨es, hi, hes⟩ := h.index
  obtain ⟨x, hx⟩ := List.exists_mem_of_ne_nil _ hne
  obtain ⟨y, hy⟩ := exists_lastNamed? hx
  have hkept : y ∈ (FileEntities.ofEntities c.toModule.path c.entities).entities := by
    rw [FileEntities.mem_ofEntities_iff, (mem_of_lastNamed? hy).2, hy]
  have hfile : e.index.file? c.toModule.path =
      some (FileEntities.ofEntities c.toModule.path c.entities).entities := by
    rw [hi, Index.file?_ofEntities, hes, if_neg (by simpa using hne)]
  cases hk : (FileEntities.ofEntities c.toModule.path c.entities).entities with
  | nil =>
    rw [hk] at hkept
    cases hkept
  | cons first rest =>
    refine ⟨_, first, by rw [← c.path_eq, hfile, hk], rfl, ?_⟩
    exact FileEntities.mem_ofEntities (hk ▸ List.mem_cons_self)

/-- Whatever it is asked for, the file answers with the first entity that the index keeps of it. -/
theorem Indexed.exists_lookup (h : c.Indexed files e) (hne : c.entities ≠ []) (name : String)
    (isDefault : Bool) :
    ∃ x ∈ c.entities, (e.lookup files c.root c.file name isDefault).1 = .ofIndexed x.id := by
  obtain ⟨es, x, hes, hhead, hx⟩ := h.exists_head hne
  refine ⟨x, hx, Engine.lookup_fst_of_inFile? ?_⟩
  rw [Engine.request_of_not_directory h.notDirectory, Request.inFile?_eq, hes, Option.bind_some,
    Request.own?, if_pos (isComponentPath_relative c.ofPath c.ne_root), hhead]
  rfl

/-- A component file from which anything is extracted has one id, and every import from it finds
this id. -/
theorem lookup_one_component (c : ComponentFile) (hne : c.entities ≠ []) :
    (∀ x ∈ c.entities, x.id = Kind.component.idFor
      (ModuleName.ofPath c.resolve.entryFiles (Path.relative c.root c.file))) ∧
    ∀ files e, c.Indexed files e → ∀ name isDefault,
      (e.lookup files c.root c.file name isDefault).1 =
        ⟨Kind.component.idFor
          (ModuleName.ofPath c.resolve.entryFiles (Path.relative c.root c.file)),
          .component, .indexed⟩ := by
  refine ⟨fun x hx => id_of_mem hx, fun files e h name isDefault => ?_⟩
  obtain ⟨x, hx, hl⟩ := h.exists_lookup hne name isDefault
  rw [hl, id_of_mem hx, Resolved.ofIndexed_idFor]

/-- The entry file of a directory, with nothing but a setup block. -/
def setupCard : ComponentFile where
  root := ⟨"/repo"⟩
  file := ⟨"src/card/index.vue"⟩
  parsed := .ofContent .vue "<script setup></script>"
  resolve := {}
  isAbsolute := by decide
  ofPath := by decide +kernel
  ne_root := by decide +kernel

/-- An entity of another file that has the name of the component. -/
def otherCard : Entity :=
  { id := "Function:card", kind := .function, file := "src/card.ts", span := ⟨1, 1⟩
    rawName := "card" }

theorem lookup_setupCard :
    setupCard.entities ≠ [] ∧
      (({ resolve := {}, limits := ⟨true, 0, 0, 0⟩
          index := .ofEntities (setupCard.entities ++ [otherCard]) } : Engine).lookup
        ({} : MemoryFiles).view ⟨"/repo"⟩ ⟨"src/card/index.vue"⟩ "card" false).1 =
        ⟨"Component:card", .component, .indexed⟩ := by
  have hne : setupCard.entities ≠ [] := by decide +kernel
  have hother : ∀ x ∈ [otherCard], x.file ≠ setupCard.toModule.path := by decide +kernel
  have hi : setupCard.Indexed ({} : MemoryFiles).view
      { resolve := {}, limits := ⟨true, 0, 0, 0⟩
        index := .ofEntities (setupCard.entities ++ [otherCard]) } :=
    ⟨rfl, rfl, _, rfl, filter_file_append (fun x hx => file_of_mem hx) hother⟩
  have hid : Kind.component.idFor (ModuleName.ofPath setupCard.resolve.entryFiles
      (Path.relative setupCard.root setupCard.file)) = "Component:card" := by decide +kernel
  exact ⟨hne, ((lookup_one_component setupCard hne).2 _ _ hi "card" false).trans (by rw [hid])⟩

end ComponentFile

end Exports
