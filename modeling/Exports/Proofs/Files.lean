import Exports.Files.Disk
import Exports.Files.Entry
import Exports.Files.Memory
import Exports.Proofs.Path
import Exports.Proofs.Table

namespace Exports

open Text (Bytes slash)

namespace Files

/-- Two paths of one place, about which the files say the same. -/
structure Alike (files : Files) (p q : Path) : Prop where
  place : p.place = q.place
  isFile : files.isFile p = files.isFile q
  isDirectory : files.isDirectory p = files.isDirectory q
  read : files.read p = files.read q
  stamp : files.stamp p = files.stamp q

theorem Alike.refl (files : Files) (p : Path) : files.Alike p p := ⟨rfl, rfl, rfl, rfl, rfl⟩

theorem Alike.symm {files : Files} {p q : Path} (h : files.Alike p q) : files.Alike q p :=
  ⟨h.place.symm, h.isFile.symm, h.isDirectory.symm, h.read.symm, h.stamp.symm⟩

theorem Alike.trans {files : Files} {p q r : Path} (h : files.Alike p q) (h' : files.Alike q r) :
    files.Alike p r :=
  ⟨h.place.trans h'.place, h.isFile.trans h'.isFile, h.isDirectory.trans h'.isDirectory,
    h.read.trans h'.read, h.stamp.trans h'.stamp⟩

/-- Something is there, under this very path. -/
def Found (files : Files) (p : Path) : Prop :=
  files.isFile p = true ∨ files.isDirectory p = true

/-- A path may still fail where the plain one succeeds: on disk, a slash after the name of a file
leads nowhere. -/
structure Coherent (files : Files) : Prop where
  plain : ∀ {p}, files.Found p → files.Alike p p.plain
  join : ∀ {p q}, p.place = q.place → files.isDirectory p = true → files.isDirectory q = true →
    ∀ r, files.Alike (p.join r) (q.join r)

/-- Paths that operations come to: plain ones, and those under which something was found. -/
def Reached (files : Files) (p : Path) : Prop := p.plain = p ∨ files.Found p

/-- Only what is there bears a stamp. -/
def Stamped (files : Files) : Prop := ∀ {p}, (files.stamp p).isSome → files.Found p

theorem Reached.absolute (files : Files) (root file : Path) :
    files.Reached (Path.absolute root file) :=
  .inl (Path.plain_absolute root file)

theorem Coherent.alike_plain {files : Files} (h : files.Coherent) {p : Path}
    (hp : files.Reached p) : files.Alike p p.plain := by
  rcases hp with hp | hp
  · rw [hp]
    exact .refl files p
  · exact h.plain hp

theorem Coherent.alike {files : Files} (h : files.Coherent) {p q : Path} (hp : files.Reached p)
    (hq : files.Reached q) (he : p.place = q.place) : files.Alike p q := by
  have hpq : files.Alike p q.plain := by
    rw [← Path.plain_congr he]
    exact h.alike_plain hp
  exact hpq.trans (h.alike_plain hq).symm

/-- The main file of a package, where one that cannot be read names none. -/
def mainFile? (files : Files) (directory : Path) : Option Path :=
  match files.packageMain directory with
  | .ok main => main
  | .error _ => none

theorem entryFile?_eq (files : Files) (entries : List String) (directory : Path) :
    files.entryFile? entries directory =
      ((entries.map fun entry : String => directory.join ⟨entry⟩).find? files.isFile).or
        (files.mainFile? directory) := by
  unfold entryFile? entryFile mainFile?
  cases (entries.map fun entry : String => directory.join ⟨entry⟩).find? files.isFile <;> rfl

theorem mainFile?_eq (files : Files) (directory : Path) :
    files.mainFile? directory =
      if files.isFile (directory.join ⟨"package.json"⟩) then do
        let text ← (files.read (directory.join ⟨"package.json"⟩)).toOption
        let main ← (Json.parse? text).bind Json.asManifestMain?
        (main.map fun m : String => (directory.join ⟨m⟩).normalize).filter files.isFile
      else none := by
  unfold mainFile? packageMain
  cases hf : files.isFile (directory.join ⟨"package.json"⟩) with
  | false => simp [hf]
  | true =>
    cases hr : files.read (directory.join ⟨"package.json"⟩) with
    | error e => simp [hf, hr, bind, Except.bind, Except.toOption]
    | ok text =>
      cases hm : (Json.parse? text).bind Json.asManifestMain? <;>
        simp [hf, hr, hm, bind, Except.bind, Except.toOption]

theorem exists_of_mainFile? {files : Files} {directory entry : Path}
    (h : files.mainFile? directory = some entry) :
    ∃ main : String, entry = (directory.join ⟨main⟩).normalize := by
  rw [mainFile?_eq] at h
  split at h
  · obtain ⟨text, -, h⟩ := Option.bind_eq_some_iff.mp h
    obtain ⟨named, -, h⟩ := Option.bind_eq_some_iff.mp h
    obtain ⟨main, -, rfl⟩ := Option.map_eq_some_iff.mp (Option.filter_eq_some_iff.mp h).1
    exact ⟨main, rfl⟩
  · cases h

theorem isFile_of_mainFile? {files : Files} {directory main : Path}
    (h : files.mainFile? directory = some main) : files.isFile main = true := by
  rw [mainFile?_eq] at h
  split at h
  · obtain ⟨text, -, h⟩ := Option.bind_eq_some_iff.mp h
    obtain ⟨named, -, h⟩ := Option.bind_eq_some_iff.mp h
    exact (Option.filter_eq_some_iff.mp h).2
  · cases h

/-- An entry file is a file. -/
theorem isFile_of_entryFile? {files : Files} {entries : List String} {directory entry : Path}
    (h : files.entryFile? entries directory = some entry) : files.isFile entry = true := by
  rw [entryFile?_eq, Option.or_eq_some_iff] at h
  rcases h with h | ⟨-, h⟩
  · exact List.find?_some h
  · exact isFile_of_mainFile? h

/-- Files that are read for an absolute directory are named by absolute paths. -/
theorem isAbsolute_of_entryFile? {files : Files} {entries : List String}
    {directory entry : Path} (hd : directory.isAbsolute = true)
    (h : files.entryFile? entries directory = some entry) : entry.isAbsolute = true := by
  rw [entryFile?_eq, Option.or_eq_some_iff] at h
  rcases h with h | ⟨-, h⟩
  · obtain ⟨name, -, rfl⟩ := List.mem_map.mp (List.mem_of_find?_eq_some h)
    exact Path.isAbsolute_join hd _
  · obtain ⟨main, rfl⟩ := exists_of_mainFile? h
    exact Path.isAbsolute_normalize (Path.isAbsolute_join hd _)

/-- An entry file of a directory has no other names than the directory and texts. -/
theorem isText_of_entryFile? {files : Files} {entries : List String} {directory entry : Path}
    (hd : directory.IsText) (h : files.entryFile? entries directory = some entry) :
    entry.IsText := by
  rw [entryFile?_eq, Option.or_eq_some_iff] at h
  rcases h with h | ⟨-, h⟩
  · obtain ⟨name, -, rfl⟩ := List.mem_map.mp (List.mem_of_find?_eq_some h)
    exact hd.join (Path.isText_encode name)
  · obtain ⟨main, rfl⟩ := exists_of_mainFile? h
    exact (hd.join (Path.isText_encode main)).normalize

/-- Two paths of one directory have one main file. -/
theorem Coherent.mainFile?_congr {files : Files} (h : files.Coherent) {p q : Path}
    (hpq : files.Alike p q) (hd : files.isDirectory p = true) :
    files.mainFile? p = files.mainFile? q := by
  have hq : files.isDirectory q = true := hpq.isDirectory ▸ hd
  have hm := h.join hpq.place hd hq ⟨"package.json"⟩
  have hn : ∀ m, (p.join m).normalize = (q.join m).normalize := fun m =>
    Path.normalize_congr (Path.place_join_congr hpq.place m)
  simp only [mainFile?_eq, hm.isFile, hm.read, hn]

/-- Two paths of one directory have entry files of one place. -/
theorem Coherent.entryFile?_alike {files : Files} (h : files.Coherent) {p q : Path}
    (hpq : files.Alike p q) (hd : files.isDirectory p = true) (entries : List String) :
    (files.entryFile? entries p = none ∧ files.entryFile? entries q = none) ∨
      ∃ a b, files.entryFile? entries p = some a ∧ files.entryFile? entries q = some b ∧
        files.Alike a b := by
  have hq : files.isDirectory q = true := hpq.isDirectory ▸ hd
  have hj := h.join hpq.place hd hq
  have hf : (fun entry : String => files.isFile (p.join ⟨entry⟩)) =
      fun entry : String => files.isFile (q.join ⟨entry⟩) := funext fun entry => (hj ⟨entry⟩).isFile
  simp only [entryFile?_eq, List.find?_map, Function.comp_def, hf, h.mainFile?_congr hpq hd]
  cases entries.find? fun entry : String => files.isFile (q.join ⟨entry⟩) with
  | some entry => exact .inr ⟨_, _, rfl, rfl, hj ⟨entry⟩⟩
  | none =>
    cases files.mainFile? q with
    | none => exact .inl ⟨rfl, rfl⟩
    | some main => exact .inr ⟨main, main, rfl, rfl, .refl files main⟩

end Files

/-- Files in memory are kept by place. -/
theorem MemoryFiles.view_alike (m : MemoryFiles) {p q : Path} (h : p.place = q.place) :
    m.view.Alike p q := by
  have hf : m.file? p = m.file? q := by rw [file?, h, file?]
  have hd : m.isDirectory p = m.isDirectory q := by rw [isDirectory, h, isDirectory]
  exact ⟨h, congrArg Option.isSome hf, hd, by simp only [view, hf], by simp only [view, hf]⟩

theorem MemoryFiles.view_coherent (m : MemoryFiles) : m.view.Coherent where
  plain _ := m.view_alike (Path.place_plain _).symm
  join h _ _ r := m.view_alike (Path.place_join_congr h r)

theorem MemoryFiles.view_stamped (m : MemoryFiles) : m.view.Stamped := by
  intro p hs
  rw [view, Option.isSome_map] at hs
  exact .inl hs

namespace Disk

theorem foldl_step_none (d : Disk) (pieces : List Bytes) : pieces.foldl d.step none = none := by
  induction pieces with
  | nil => rfl
  | cons piece rest ih => exact ih

/-- A piece that is no step leads nowhere else. -/
theorem step_skip {d : Disk} {here there : Location} {piece : Bytes}
    (hp : Component.ofPiece piece = none) (h : d.step (some here) piece = some there) :
    there = here := by
  rw [Component.ofPiece_eq_none_iff] at hp
  simp only [step, bind, Option.bind] at h
  split at h
  · cases h
  · simp_all

theorem foldl_step_filter {d : Disk} {pieces : List Bytes} {here there : Location}
    (h : pieces.foldl d.step (some here) = some there) :
    (pieces.filter fun piece => (Component.ofPiece piece).isSome).foldl d.step (some here) =
      some there := by
  induction pieces generalizing here with
  | nil => exact h
  | cons piece rest ih =>
    cases hs : d.step (some here) piece with
    | none =>
      rw [List.foldl_cons, hs, foldl_step_none] at h
      cases h
    | some next =>
      rw [List.foldl_cons, hs] at h
      cases hc : Component.ofPiece piece with
      | none =>
        rw [step_skip hc hs] at h
        simpa [hc] using ih h
      | some c => simpa [hc, hs] using ih h

theorem isAbsolute_of_locate {d : Disk} {p : Path} {here : Location}
    (h : d.locate p = some here) : p.isAbsolute = true := by
  unfold locate at h
  split at h
  · assumption
  · cases h

theorem foldl_of_locate {d : Disk} {p : Path} {here : Location} (h : d.locate p = some here) :
    (Text.pieces slash p.bytes).foldl d.step (some []) = some here := by
  unfold locate at h
  rwa [if_pos (isAbsolute_of_locate h)] at h

theorem plain_of_absolute {p : Path} (h : p.isAbsolute = true) :
    p.plain = ⟨slash :: [slash].intercalate ((Path.steps p.bytes).map Component.spelled)⟩ := by
  rw [Path.plain, Path.place_of_absolute h, Place.toPath]

/-- What is there under some path is there under the plain one. -/
theorem locate_plain {d : Disk} {p : Path} {here : Location} (h : d.locate p = some here) :
    d.locate p.plain = some here := by
  have ha := isAbsolute_of_locate h
  have hf := foldl_of_locate h
  have hg := foldl_step_filter hf
  rw [← Path.map_spelled_steps] at hg
  obtain ⟨rest, hr⟩ := Path.pieces_of_absolute ha
  have hroot : d.step (some []) [] = some [] := by
    rw [hr, List.foldl_cons] at hf
    cases hs : d.step (some []) [] with
    | none => rw [hs, foldl_step_none] at hf; cases hf
    | some next => rw [step_skip (by decide) hs]
  have hplain : p.plain.isAbsolute = true :=
    (Path.isAbsolute_congr p.place_plain).trans ha
  rw [locate, if_pos hplain, plain_of_absolute ha, Text.pieces, if_pos rfl, List.foldl_cons, hroot]
  by_cases hn : Path.steps p.bytes = []
  · rw [hn] at hg ⊢
    simp only [List.map_nil, List.foldl_nil, Option.some.injEq] at hg
    subst hg
    exact hroot
  · rw [Path.pieces_proper (fun c hc => Path.proper_of_mem_steps hc) hn, hg]

/-- A join goes on from where the first path leads. -/
theorem locate_join {d : Disk} {p r : Path} {here : Location} (h : d.locate p = some here)
    (hr : r.isAbsolute = false) :
    d.locate (p.join r) = (Text.pieces slash r.bytes).foldl d.step (some here) := by
  have ha := isAbsolute_of_locate h
  have hf := foldl_of_locate h
  rw [locate, if_pos (Path.isAbsolute_join ha r), Path.join]
  simp only [hr, Path.ne_empty_of_absolute ha, decide_false, Bool.or_self, Bool.false_eq_true,
    ↓reduceIte]
  split
  · rename_i he
    obtain ⟨t, ht⟩ := Path.exists_append_slash he
    rw [ht, Text.pieces_append, List.foldl_append] at hf
    rw [ht, List.append_assoc, List.singleton_append, Text.pieces_append, List.foldl_append]
    cases hl : (Text.pieces slash t).foldl d.step (some []) with
    | none => rw [hl] at hf; cases hf
    | some next =>
      rw [hl] at hf
      rw [step_skip (by decide) hf]
  · rw [Text.pieces_append, List.foldl_append, hf]

/-- Paths that lead to one location are answered alike. -/
theorem view_alike {d : Disk} {p q : Path} (hp : p.place = q.place)
    (h : d.locate p = d.locate q) : d.view.Alike p q := by
  have hf : d.file? p = d.file? q := by rw [file?, h, file?]
  refine ⟨hp, congrArg Option.isSome hf, ?_, ?_, ?_⟩
  · simp only [view, isDirectory, h]
  · simp only [view, hf]
  · simp only [view, hf, h]

theorem exists_locate_of_isDirectory {d : Disk} {p : Path} (h : d.view.isDirectory p = true) :
    ∃ here, d.locate p = some here := by
  simp only [view, isDirectory] at h
  cases hl : d.locate p with
  | none => simp [hl] at h
  | some here => exact ⟨here, rfl⟩

theorem exists_locate_of_found {d : Disk} {p : Path} (h : d.view.Found p) :
    ∃ here, d.locate p = some here := by
  rcases h with h | h
  · obtain ⟨file, hf⟩ := Option.isSome_iff_exists.mp h
    obtain ⟨here, hl, -⟩ := Option.bind_eq_some_iff.mp hf
    exact ⟨here, hl⟩
  · exact exists_locate_of_isDirectory h

theorem view_coherent (d : Disk) : d.view.Coherent where
  plain {p} h := by
    obtain ⟨here, hl⟩ := exists_locate_of_found h
    exact view_alike p.place_plain.symm (hl.trans (locate_plain hl).symm)
  join {p q} h hp hq r := by
    by_cases hr : r.isAbsolute = true
    · rw [Path.join_of_absolute hr, Path.join_of_absolute hr]
      exact .refl _ r
    · obtain ⟨here, hl⟩ := exists_locate_of_isDirectory hp
      obtain ⟨there, hm⟩ := exists_locate_of_isDirectory hq
      have he : here = there := by
        have := locate_plain hl
        rw [Path.plain_congr h, locate_plain hm] at this
        exact (Option.some.inj this).symm
      have hr : r.isAbsolute = false := by simpa using hr
      refine view_alike (Path.place_join_congr h r) ?_
      rw [locate_join hl hr, locate_join hm hr, he]

theorem view_stamped (d : Disk) : d.view.Stamped := by
  intro p hs
  simp only [view] at hs
  split at hs
  · rename_i file hf
    exact .inl (by simp only [view, hf, Option.isSome_some])
  · rw [Option.isSome_map] at hs
    obtain ⟨tick, ht⟩ := Option.isSome_iff_exists.mp hs
    obtain ⟨here, hl, hd⟩ := Option.bind_eq_some_iff.mp ht
    refine .inr ?_
    simp only [view, isDirectory, hl, Option.any_some, Table.contains, hd, Option.isSome_some]

end Disk

end Exports
