import Exports.Proofs.FileKeys
import Exports.Proofs.Lookup

namespace Exports

namespace Path

theorem down_steps {p : Path} (h : .up ∉ p.place) : (steps p.bytes).Down := by
  intro c hc
  have hp := proper_of_mem_steps hc
  cases c with
  | root => exact absurd rfl hp.ne_root
  | here => exact absurd rfl hp.ne_here
  | up =>
    rw [place_eq] at h
    exact absurd (List.mem_append_right _ hc) h
  | name s => exact ⟨s, rfl⟩

theorem normalize_place_join {p q : Path} (hp : p.place.normalize = p.place) (hn : p.bytes ≠ [])
    (hq : .up ∉ q.place) : (p.join q).place.normalize = (p.join q).place := by
  cases ha : q.isAbsolute with
  | true =>
    have hroot : Place.normalize [.root] = [.root] := rfl
    rw [join_of_absolute ha, place_of_absolute ha, ← List.singleton_append, Place.normalize_append,
      hroot, Place.follow_down _ (down_steps hq)]
  | false =>
    rw [place_join ha hn, Place.normalize_append, hp, Place.follow_down _ (down_steps hq)]

/-- An absolute path that is normal already is only spelled plainly. -/
theorem absolute_of_normal {p : Path} (ha : p.isAbsolute = true) (hp : p.place.normalize = p.place)
    (root : Path) : absolute root p = p.plain := by
  rw [absolute, join_of_absolute ha, normalize, hp, plain]

end Path

namespace Files

variable {files : Files} {entries : List String} {directory entry : Path}

/-- The path of an entry file is normal: a name from the settings is joined onto a normal path, and
one from a manifest is normalized. -/
theorem normalize_of_entryFile? (hd : directory.place.normalize = directory.place)
    (hn : directory.bytes ≠ []) (hup : ∀ name ∈ entries, .up ∉ Path.place ⟨Text.encode name⟩)
    (h : files.entryFile? entries directory = some entry) :
    entry.place.normalize = entry.place := by
  rw [entryFile?_eq, Option.or_eq_some_iff] at h
  rcases h with h | ⟨-, h⟩
  · obtain ⟨name, hname, rfl⟩ := List.mem_map.mp (List.mem_of_find?_eq_some h)
    exact Path.normalize_place_join hd hn (hup name hname)
  · obtain ⟨main, hmain⟩ := exists_of_mainFile? h
    rw [hmain, Path.place_normalize, Place.normalize_normalize]

end Files

namespace Engine

variable {files : Files} {e : Engine}

theorem infer_fst_alike (hc : files.Coherent) {p q : Path} (h : files.Alike p q) (name : String)
    (isDefault : Bool) (markup : Option Bool) :
    (e.infer files p name isDefault markup).1 = (e.infer files q name isDefault markup).1 := by
  rw [infer_fst, infer_fst, classify_alike hc h, named, named, Path.slashed_congr h.place,
    Language.ofPath_congr h.place]

theorem destination_of_entry {root file entry : Path}
    (hd : files.isDirectory (Path.absolute root file) = true)
    (he : files.entryFile e.resolve.entryFiles (Path.absolute root file) = .ok (some entry)) :
    e.destination files root file = (entry, Path.relative root entry) := by
  have he' : files.entryFile? e.resolve.entryFiles (Path.absolute root file) = some entry := by
    rw [Files.entryFile?, he]
  rw [destination, if_pos hd, he']

theorem destination_of_file {root file : Path}
    (hd : files.isDirectory (Path.absolute root file) = false) :
    e.destination files root file = (Path.absolute root file, Path.relative root file) := by
  rw [destination, if_neg (by simp [hd])]

theorem lookup_fst_alike (hc : files.Coherent) {root file other p q : Path} {key : String}
    (hp : e.destination files root file = (p, key))
    (hq : e.destination files root other = (q, key)) (h : files.Alike p q) (name : String)
    (isDefault : Bool) :
    (e.lookup files root file name isDefault).1 = (e.lookup files root other name isDefault).1 := by
  simp only [lookup, hp, hq]
  rcases e.findIndexed ⟨key, name, isDefault || name = "default"⟩ with ⟨_ | id, after⟩
  · exact congrArg (·.resolved .inferred) (infer_fst_alike hc h name _ none)
  · rfl

/-- A directory is imported as its entry file is. If that file has an entity of the name, it is the
answer, and no directory is searched. Files in memory and on disk are coherent
(`MemoryFiles.view_coherent`, `Disk.view_coherent`). -/
theorem lookup_directory_eq (hc : files.Coherent) {root file entry : Path}
    (hr : root.isAbsolute = true) (hd : files.isDirectory (Path.absolute root file) = true)
    (he : files.entryFile e.resolve.entryFiles (Path.absolute root file) = .ok (some entry))
    (hf : files.isDirectory entry = false)
    (hup : ∀ name ∈ e.resolve.entryFiles, .up ∉ Path.place ⟨Text.encode name⟩) (name : String)
    (isDefault : Bool) :
    (e.lookup files root file name isDefault).1 = (e.lookup files root entry name isDefault).1 ∧
      ∀ id, (⟨Path.relative root entry, name, isDefault || name = "default"⟩ : Request).inFile?
          e.resolve.entryFiles e.index = some id →
        e.lookup files root file name isDefault = (.ofIndexed id, e) := by
  have he' : files.entryFile? e.resolve.entryFiles (Path.absolute root file) = some entry := by
    rw [Files.entryFile?, he]
  have hdir := Path.isAbsolute_absolute hr file
  have hnormal : entry.place.normalize = entry.place := by
    refine Files.normalize_of_entryFile? ?_ (Path.ne_empty_of_absolute hdir) hup he'
    rw [Path.absolute, Path.place_normalize, Place.normalize_normalize]
  have hplain : Path.absolute root entry = entry.plain :=
    Path.absolute_of_normal (Files.isAbsolute_of_entryFile? hdir he') hnormal root
  have halike : files.Alike entry (Path.absolute root entry) := by
    rw [hplain]
    exact hc.plain (.inl (Files.isFile_of_entryFile? he'))
  have hfile := destination_of_file (e := e) (halike.isDirectory.symm.trans hf)
  have hentry := destination_of_entry hd he
  refine ⟨lookup_fst_alike hc hentry hfile halike name isDefault, fun id hid => ?_⟩
  simp only [lookup, hentry, findIndexed, hid]

/-- An entry name that starts with a dot is joined as it is spelled. The default export of a sibling
is not asked for. -/
theorem lookup_directory_of_dotted_entry :
    let files := (({} : MemoryFiles).write ⟨"/repo/src/card/index.ts"⟩ "").view
    let sibling : Entity :=
      { id := "Function:panel", kind := .function, file := "src/panel.ts", span := ⟨1, 1⟩,
        rawName := "default", isDefault := true }
    let own : Entity :=
      { id := "Class:Card", kind := .classDecl, file := "src/card/index.ts", span := ⟨1, 1⟩,
        rawName := "Card", isDefault := true }
    let e : Engine :=
      { resolve := { entryFiles := ["./index.ts"] }, limits := ⟨true, 0, 0, 0⟩,
        index := .ofEntities [sibling, own] }
    files.isDirectory (Path.absolute ⟨"/repo"⟩ ⟨"src/card"⟩) = true ∧
      files.entryFile e.resolve.entryFiles (Path.absolute ⟨"/repo"⟩ ⟨"src/card"⟩) =
        .ok (some ⟨"/repo/src/card/./index.ts"⟩) ∧
      (e.lookup files ⟨"/repo"⟩ ⟨"src/card"⟩ "Panel" true).1 =
        (e.lookup files ⟨"/repo"⟩ ⟨"/repo/src/card/./index.ts"⟩ "Panel" true).1 ∧
      e.lookup files ⟨"/repo"⟩ ⟨"src/card"⟩ "Panel" true = (.ofIndexed "Class:Card", e) := by
  intro files sibling own e
  have hd : files.isDirectory (Path.absolute ⟨"/repo"⟩ ⟨"src/card"⟩) = true := by rfl
  have he : files.entryFile e.resolve.entryFiles (Path.absolute ⟨"/repo"⟩ ⟨"src/card"⟩) =
      .ok (some ⟨"/repo/src/card/./index.ts"⟩) := by
    rfl
  have hc : files.Coherent := MemoryFiles.view_coherent _
  obtain ⟨hsame, hown⟩ := lookup_directory_eq hc (by rfl) hd he (by rfl) (by decide) "Panel" true
  exact ⟨hd, he, hsame, hown "Class:Card" (by decide +kernel)⟩

end Engine

end Exports
