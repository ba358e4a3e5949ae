import Exports.Proofs.EntityFiles
import Exports.Proofs.EntityIds
import Exports.Proofs.KeyNames

namespace Exports

/-- Nothing is exported under the empty name. -/
def ParsedSource.Named (parsed : ParsedSource) : Prop :=
  ∀ d ∈ parsed.declarations, "" ∉ d.exportedNames

/-- No file exports anything under the empty name. -/
def Files.Named (files : Files) : Prop :=
  ∀ path parsed, files.source? path = some parsed → parsed.Named

namespace Entity

/-- The id tells the kind, and a name where the file has a key. -/
def WellNamed (x : Entity) : Prop :=
  ∃ name, x.id = x.kind.idFor name ∧ (name = "" → x.file = "")

/-- Neither the file has a key nor the id a name. -/
structure Nameless (x : Entity) : Prop where
  file : x.file = ""
  id : x.id = x.kind.idFor ""

end Entity

namespace Module

variable {m : Module} {c : Classifier} {d : Declaration} {x : Entity}

theorem id_of_namedEntity {kind : Kind} {name : String}
    (hdef : (m.namedEntity d kind name).isDefault = true) :
    (m.namedEntity d kind name).id =
      (m.namedEntity d kind name).kind.idFor (m.defaultName (some name)) := by
  have hf : d.form = .default := by simpa [namedEntity, entity] using hdef
  simp [namedEntity, entity, hf]

theorem exists_defaultName (hp : c.path = m.path) (hx : x ∈ m.mint c d)
    (hdef : x.isDefault = true) :
    ∃ declared, x.id = x.kind.idFor (m.defaultName declared) := by
  have hcallable : ∀ name, x ∈ m.callableEntities c d name →
      x.id = x.kind.idFor (m.defaultName d.declaredName) := by
    intro name hx
    unfold callableEntities at hx
    split at hx
    · obtain rfl := List.mem_singleton.mp hx
      rw [← name_of_defaultIdentity hp]
      rfl
    · obtain ⟨n, -, rfl⟩ := List.mem_map.mp hx
      cases hdef
  unfold mint at hx
  split at hx
  · exact ⟨_, hcallable _ hx⟩
  · exact ⟨_, hcallable _ hx⟩
  · obtain rfl := List.mem_singleton.mp hx
    exact ⟨_, id_of_namedEntity hdef⟩
  · obtain ⟨b, -, rfl⟩ := List.mem_map.mp hx
    exact ⟨_, id_of_namedEntity hdef⟩
  · obtain rfl := List.mem_singleton.mp hx
    refine ⟨d.declaredName, ?_⟩
    rw [← name_of_defaultIdentity hp]
    rfl
  · obtain ⟨s, -, hs⟩ := List.mem_filterMap.mp hx
    exact ⟨_, (specifierEntity?_default hs hdef).2⟩
  · cases hx

theorem path_of_defaultName (hp : m.path ≠ "" → Text.lastPiece '/' m.path ≠ "")
    {declared : Option String} (h : m.defaultName declared = "") : m.path = "" := by
  by_contra hne
  exact ModuleName.ofDefault_ne_empty (hp hne) _ _ h

theorem wellNamed_of_mem_scriptEntities {markup : Bool} {ds : List Declaration}
    (hn : ∀ d ∈ ds, "" ∉ d.exportedNames) (hp : m.path ≠ "" → Text.lastPiece '/' m.path ≠ "")
    (hx : x ∈ m.scriptEntities markup ds) : x.WellNamed := by
  obtain ⟨d, hd, he, hmint⟩ := exists_declaration hx
  cases hdef : x.isDefault with
  | false =>
    refine ⟨x.rawName, id_of_named hx hdef, fun hempty => ?_⟩
    have hexported := exportedAs_mem he hmint
    rw [Entity.exportedAs, if_neg (by simp [hdef]), hempty] at hexported
    exact absurd hexported (hn d hd)
  | true =>
    obtain ⟨declared, hid⟩ := exists_defaultName rfl hmint hdef
    refine ⟨_, hid, fun hempty => ?_⟩
    rw [(minted_of_mem hx).file, path_of_defaultName hp hempty]

end Module

theorem Extractor.wellNamed_of_mem {extractor : Extractor} {m : Module} {parsed : ParsedSource}
    {x : Entity} (hn : parsed.Named) (hp : m.path ≠ "" → Text.lastPiece '/' m.path ≠ "")
    (hx : x ∈ extractor.entities m parsed) : x.WellNamed := by
  cases extractor with
  | script => exact Module.wellNamed_of_mem_scriptEntities hn hp hx
  | component =>
    obtain ⟨span, rawName, rfl⟩ := Module.exists_of_mem_componentEntities hx
    exact ⟨m.defaultName none, rfl, fun hempty => Module.path_of_defaultName hp hempty⟩

/-- Sources that are cached and sources that are read are named, so all that is parsed is. -/
theorem SourceCache.named_of_parse? {cache : SourceCache} {files : Files} {path : Path}
    {parsed : ParsedSource} (hc : ∀ place c, cache.files.get? place = some c → c.parsed.Named)
    (hf : files.Named) (h : (cache.parse? files path none).1 = some parsed) : parsed.Named := by
  rcases cache.parse?_cases files path with ⟨c, hs, he⟩ | ⟨source, -, hs, he⟩ | ⟨-, he⟩
  · rw [he] at h
    cases h
    exact hc _ c (served?_stamp hs).1
  · rw [he] at h
    cases h
    exact hf path parsed hs
  · rw [he] at h
    cases h

namespace Engine

variable {e : Engine} {root file : Path} {source : Option ParsedSource} {x : Entity}

theorem wellNamed_of_mem_drawFrom (hs : ∀ parsed, source = some parsed → parsed.Named)
    (hx : x ∈ e.drawFrom root file source) : x.WellNamed := by
  obtain ⟨key, parsed, -, hparsed, hx⟩ := mem_drawFrom hx
  have hp : Path.relative root (Path.absolute root file) ≠ "" →
      Text.lastPiece '/' (Path.relative root (Path.absolute root file)) ≠ "" :=
    Path.lastPiece_relative_ne_empty
  generalize Path.relative root (Path.absolute root file) = path at hp hx
  exact Extractor.wellNamed_of_mem (hs parsed hparsed) hp hx

/-- What is drawn from a file that is not the root itself has a key. -/
theorem file_ne_empty_of_mem_drawFrom (hr : root.isAbsolute = true)
    (hne : Path.absolute root file ≠ root.normalize) (hx : x ∈ e.drawFrom root file source) :
    x.file ≠ "" := by
  obtain ⟨key, parsed, hk, -, -⟩ := mem_drawFrom hx
  obtain ⟨language, hl, -⟩ := Path.exists_of_resultKey? hk
  obtain ⟨name, hn⟩ := Language.exists_fileName? hl
  rw [file_of_mem_drawFrom hx, Path.relative_absolute hr]
  exact Path.relative_ne_empty hn hne

end Engine

end Exports
