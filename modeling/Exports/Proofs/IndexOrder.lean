import Exports.Proofs.Index
import Mathlib.Data.List.Basic

namespace Exports

theorem eraseDups_concat (names : List String) (name : String) :
    (names ++ [name]).eraseDups =
      if name ∈ names then names.eraseDups else names.eraseDups ++ [name] := by
  rw [List.eraseDups_append]
  by_cases hm : name ∈ names <;> simp [List.removeAll, List.eraseDups_cons, hm]

theorem nodup_eraseDups (names : List String) : names.eraseDups.Nodup := by
  induction names using List.reverseRecOn with
  | nil => exact .nil
  | append_singleton names name ih =>
    rw [eraseDups_concat]
    split
    · exact ih
    · rename_i hn
      rw [← List.concat_eq_append]
      exact ih.concat (by rwa [List.mem_eraseDups])

theorem eraseDups_append_self (names : List String) :
    (names ++ names).eraseDups = names.eraseDups := by
  have hnone : names.removeAll names = [] := by
    apply List.filter_eq_nil_iff.mpr
    intro name hm
    simpa using hm
  rw [List.eraseDups_append, hnone, List.eraseDups_nil, List.append_nil]

theorem lastNamed?_concat (es : List Entity) (e : Entity) (raw : String) :
    lastNamed? (es ++ [e]) raw = if raw = e.rawName then some e else lastNamed? es raw := by
  rw [lastNamed?_append, lastNamed?_cons]
  by_cases hr : raw = e.rawName
  · simp [hr, lastNamed?]
  · simp [hr, Ne.symm hr, lastNamed?]

theorem lastNamed?_eq_getLast? (es : List Entity) (raw : String) :
    lastNamed? es raw = (es.filter (·.rawName = raw)).getLast? := by
  rw [lastNamed?, ← List.head?_filter, List.filter_reverse, List.head?_reverse]

/-- Of each raw name the last entity, where the first stood. -/
def lastOfEach (es : List Entity) : List Entity :=
  (es.map (·.rawName)).eraseDups.filterMap (lastNamed? es)

theorem rawNames_lastOfEach (es : List Entity) :
    (lastOfEach es).map (·.rawName) = (es.map (·.rawName)).eraseDups := by
  have hname : ∀ raw ∈ (es.map (·.rawName)).eraseDups,
      (lastNamed? es raw).map (·.rawName) = some raw := by
    intro raw hr
    obtain ⟨e, he, rfl⟩ := List.mem_map.mp (List.mem_eraseDups.mp hr)
    obtain ⟨y, hy⟩ := exists_lastNamed? he
    rw [hy, Option.map_some, (mem_of_lastNamed? hy).2]
  rw [lastOfEach, List.map_filterMap, List.filterMap_congr hname, List.filterMap_some]

/-- One more entity takes the place of the one of its raw name, or comes last. -/
theorem lastOfEach_concat (es : List Entity) (e : Entity) :
    lastOfEach (es ++ [e]) =
      if e.rawName ∈ es.map (·.rawName) then
        (lastOfEach es).map fun old => if old.rawName = e.rawName then e else old
      else lastOfEach es ++ [e] := by
  rw [lastOfEach, List.map_append, List.map_singleton, eraseDups_concat]
  split
  · rw [lastOfEach, List.map_filterMap]
    apply List.filterMap_congr
    intro raw hr
    obtain ⟨x, hx, rfl⟩ := List.mem_map.mp (List.mem_eraseDups.mp hr)
    obtain ⟨y, hy⟩ := exists_lastNamed? hx
    rw [lastNamed?_concat, hy, Option.map_some, (mem_of_lastNamed? hy).2]
    split <;> rfl
  · rename_i hm
    have hbefore : (es.map (·.rawName)).eraseDups.filterMap (lastNamed? (es ++ [e])) =
        lastOfEach es := by
      apply List.filterMap_congr
      intro raw hr
      have hne : raw ≠ e.rawName := fun he => hm (he ▸ List.mem_eraseDups.mp hr)
      rw [lastNamed?_concat, if_neg hne]
    have hlast : [e.rawName].filterMap (lastNamed? (es ++ [e])) = [e] := by
      simp [lastNamed?_concat]
    rw [List.filterMap_append, hbefore, hlast]

theorem lastOfEach_append_self (es : List Entity) : lastOfEach (es ++ es) = lastOfEach es := by
  have hlast : lastNamed? (es ++ es) = lastNamed? es := by
    funext raw
    rw [lastNamed?_append, Option.or_self]
  rw [lastOfEach, hlast, List.map_append, eraseDups_append_self, lastOfEach]

namespace FileEntities

theorem insert_lastOfEach (path : String) (es : List Entity) (e : Entity) :
    (FileEntities.mk path (lastOfEach es)).insert e = ⟨path, lastOfEach (es ++ [e])⟩ := by
  have hany : (lastOfEach es).any (·.rawName = e.rawName) =
      decide (e.rawName ∈ es.map (·.rawName)) := by
    rw [Bool.eq_iff_iff, decide_eq_true_iff, ← List.mem_eraseDups, ← rawNames_lastOfEach]
    simp
  simp only [insert, hany, decide_eq_true_eq, lastOfEach_concat]

/-- A file keeps of each raw name the last entity, where the first stood. -/
theorem ofEntities_eq (path : String) (es : List Entity) :
    ofEntities path es = ⟨path, lastOfEach es⟩ := by
  induction es using List.reverseRecOn with
  | nil => rfl
  | append_singleton es e ih =>
    rw [← insert_lastOfEach, ← ih]
    simp only [ofEntities, List.foldl_append, List.foldl_cons, List.foldl_nil]

end FileEntities

namespace Index

def paths (x : Index) : List String := x.files.map (·.path)

/-- Indexes whose positions are the places where their files stand, one for each file. -/
structure Placed (x : Index) : Prop where
  positions : x.positions.entries = x.paths.zipIdx
  nodup : x.paths.Nodup

theorem placed_empty : Placed {} := ⟨rfl, .nil⟩

namespace Placed

variable {x : Index}

/-- A file has the position where it stands, and nothing else has one. -/
theorem get?_eq_some_iff (h : x.Placed) {path : String} {position : Nat} :
    x.positions.get? path = some position ↔ x.paths[position]? = some path := by
  rw [Table.get?, h.positions, Option.map_eq_some_iff]
  constructor
  · rintro ⟨⟨p, i⟩, hf, rfl⟩
    have hp : p = path := by simpa using List.find?_some hf
    have hm := List.mem_of_find?_eq_some hf
    rw [hp] at hm
    exact List.mk_mem_zipIdx_iff_getElem?.mp hm
  · intro hg
    have hm : (path, position) ∈ x.paths.zipIdx := List.mk_mem_zipIdx_iff_getElem?.mpr hg
    cases hf : x.paths.zipIdx.find? (·.1 = path) with
    | none => simpa using List.find?_eq_none.mp hf _ hm
    | some found =>
      obtain ⟨p, i⟩ := found
      have hp : p = path := by simpa using List.find?_some hf
      have hi : x.paths[i]? = some path := by
        rw [← hp]
        exact List.mk_mem_zipIdx_iff_getElem?.mp (List.mem_of_find?_eq_some hf)
      refine ⟨(p, i), rfl, ?_⟩
      have hlt := (List.getElem?_eq_some_iff.mp hi).1
      exact (List.getElem?_inj hlt h.nodup).mp (hi.trans hg.symm)

theorem file?_eq (h : x.Placed) {f : FileEntities} (hf : f ∈ x.files) :
    x.file? f.path = some f.entities := by
  obtain ⟨position, hg⟩ := List.mem_iff_getElem?.mp hf
  have hpath : x.paths[position]? = some f.path := by
    rw [paths, List.getElem?_map, hg, Option.map_some]
  rw [file?, h.get?_eq_some_iff.mpr hpath, Option.bind_some, hg, Option.map_some]

/-- The files alone make the index. -/
theorem eq_of_files {y : Index} (h : x.Placed) (h' : y.Placed) (hf : x.files = y.files) :
    x = y := by
  have hp : x.positions.entries = y.positions.entries := by
    rw [h.positions, h'.positions, paths, paths, hf]
  obtain ⟨files, ⟨entries⟩⟩ := x
  obtain ⟨files', ⟨entries'⟩⟩ := y
  obtain rfl : files = files' := hf
  obtain rfl : entries = entries' := hp
  rfl

theorem contains_eq (h : x.Placed) (path : String) :
    x.positions.contains path = decide (path ∈ x.paths) := by
  rw [Table.contains, Bool.eq_iff_iff, Option.isSome_iff_exists, decide_eq_true_iff,
    List.mem_iff_getElem?]
  simp only [h.get?_eq_some_iff]

theorem register_eq (h : x.Placed) (path : String) :
    x.register path =
      if path ∈ x.paths then x
      else ⟨x.files ++ [⟨path, []⟩], x.positions.insert path x.files.length⟩ := by
  rw [Index.register, h.contains_eq]
  simp only [decide_eq_true_eq]

theorem paths_register (h : x.Placed) (path : String) :
    (x.register path).paths = if path ∈ x.paths then x.paths else x.paths ++ [path] := by
  rw [h.register_eq]
  split
  · rfl
  · rw [paths, List.map_append]
    rfl

theorem register (h : x.Placed) (path : String) : (x.register path).Placed := by
  have hp := h.paths_register path
  rw [h.register_eq] at hp ⊢
  split at hp
  · rename_i hm
    rwa [if_pos hm]
  · rename_i hm
    have hn : x.positions.contains path = false := by
      rw [h.contains_eq, decide_eq_false hm]
    rw [if_neg hm]
    constructor
    · rw [hp, List.zipIdx_append, Table.insert, hn, ← h.positions, paths, List.length_map]
      simp
    · rw [hp, ← List.concat_eq_append]
      exact h.nodup.concat hm

end Placed

/-- To insert an entity is to register its file, as far as files and positions go. -/
theorem paths_insert (x : Index) (e : Entity) :
    (x.insert e).paths = (x.register e.file).paths ∧
      (x.insert e).positions = (x.register e.file).positions := by
  unfold insert
  simp only
  split
  · refine ⟨?_, rfl⟩
    apply List.ext_getElem?
    intro i
    simp only [paths, List.getElem?_map, List.getElem?_modify]
    cases (x.register e.file).files[i]? with
    | none => rfl
    | some f =>
      simp only [Option.map_some]
      split <;> rfl
  · exact ⟨rfl, rfl⟩

theorem Placed.insert {x : Index} (h : x.Placed) (e : Entity) : (x.insert e).Placed := by
  obtain ⟨hp, hpos⟩ := x.paths_insert e
  have hr := h.register e.file
  exact ⟨by rw [hp, hpos, hr.positions], by rw [hp]; exact hr.nodup⟩

theorem ofEntities_concat (es : List Entity) (e : Entity) :
    ofEntities (es ++ [e]) = (ofEntities es).insert e := by
  simp only [ofEntities, List.foldl_append, List.foldl_cons, List.foldl_nil]

theorem placed_ofEntities (es : List Entity) : (ofEntities es).Placed := by
  induction es using List.reverseRecOn with
  | nil => exact placed_empty
  | append_singleton es e ih =>
    rw [ofEntities_concat]
    exact ih.insert e

theorem paths_ofEntities (es : List Entity) :
    (ofEntities es).paths = (es.map (·.file)).eraseDups := by
  induction es using List.reverseRecOn with
  | nil => rfl
  | append_singleton es e ih =>
    rw [ofEntities_concat, (paths_insert _ e).1, (placed_ofEntities es).paths_register, ih,
      List.map_append, List.map_singleton, eraseDups_concat]
    simp only [List.mem_eraseDups]

/-- A file keeps what came for it, the last entity of each raw name. -/
theorem entities_of_mem_files {es : List Entity} {f : FileEntities}
    (hf : f ∈ (ofEntities es).files) :
    f.entities = lastOfEach (es.filter (·.file = f.path)) := by
  have hfile := (placed_ofEntities es).file?_eq hf
  rw [file?_ofEntities] at hfile
  split at hfile
  · cases hfile
  · rw [FileEntities.ofEntities_eq] at hfile
    exact (Option.some.inj hfile).symm

/-- The files of an index, said without making it. -/
theorem files_ofEntities (es : List Entity) :
    (ofEntities es).files =
      (es.map (·.file)).eraseDups.map fun path => ⟨path, lastOfEach (es.filter (·.file = path))⟩ := by
  have hself : ∀ f ∈ (ofEntities es).files,
      (⟨f.path, lastOfEach (es.filter (·.file = f.path))⟩ : FileEntities) = f := by
    intro f hf
    rw [← entities_of_mem_files hf]
  rw [← paths_ofEntities, paths, List.map_map]
  exact (List.map_id _).symm.trans (List.map_congr_left fun f hf => (hself f hf).symm)

theorem file_of_mem_files {es : List Entity} {f : FileEntities} (hf : f ∈ (ofEntities es).files)
    {e : Entity} (he : e ∈ f.entities) : e.file = f.path := by
  rw [entities_of_mem_files hf] at he
  obtain ⟨raw, -, hl⟩ := List.mem_filterMap.mp he
  simpa using (List.mem_filter.mp (mem_of_lastNamed? hl).1).2

theorem rawNames_of_mem_files {es : List Entity} {f : FileEntities}
    (hf : f ∈ (ofEntities es).files) :
    f.entities.map (·.rawName) =
      ((es.filter (·.file = f.path)).map (·.rawName)).eraseDups := by
  rw [entities_of_mem_files hf, rawNames_lastOfEach]

theorem nodup_rawNames {es : List Entity} {f : FileEntities} (hf : f ∈ (ofEntities es).files) :
    (f.entities.map (·.rawName)).Nodup := by
  rw [rawNames_of_mem_files hf]
  exact nodup_eraseDups _

/-- No entity is kept twice: in one file raw names differ, and two files differ. -/
theorem nodup_entities (es : List Entity) : (ofEntities es).entities.Nodup := by
  rw [entities, List.nodup_flatMap]
  constructor
  · intro f hf
    exact (nodup_rawNames hf).of_map
  · have hpaths : (ofEntities es).files.Pairwise fun f g => f.path ≠ g.path :=
      List.pairwise_map.mp (placed_ofEntities es).nodup
    refine hpaths.imp_of_mem fun {f g} hf hg hne => ?_
    intro e hef heg
    exact hne ((file_of_mem_files hf hef).symm.trans (file_of_mem_files hg heg))

/-- What is kept under a raw name of a file is the last entity that came with both. -/
theorem find?_file?_ofEntities (es : List Entity) (path raw : String) :
    ((ofEntities es).file? path).bind (·.find? (·.rawName = raw)) =
      (es.filter fun e => e.file = path ∧ e.rawName = raw).getLast? := by
  have hlast : (es.filter fun e => e.file = path ∧ e.rawName = raw).getLast? =
      lastNamed? (es.filter (·.file = path)) raw := by
    rw [lastNamed?_eq_getLast?, List.filter_filter]
    simp only [Bool.decide_and, Bool.and_comm]
  rw [hlast, file?_ofEntities]
  split
  · rename_i hn
    rw [List.isEmpty_iff.mp hn]
    rfl
  · rw [Option.bind_some, FileEntities.find?_ofEntities]

theorem under_empty (x : Index) : x.under "" = x.entities := by
  have hall : x.files.filter (fun f => isUnder f.path "") = x.files :=
    List.filter_eq_self.mpr fun f _ => by simp [isUnder]
  rw [under, hall, entities]

theorem mem_entities_iff {es : List Entity} {e : Entity} :
    e ∈ (ofEntities es).entities ↔ ∃ kept, (ofEntities es).file? e.file = some kept ∧ e ∈ kept := by
  constructor
  · intro h
    obtain ⟨f, hf, he⟩ := List.mem_flatMap.mp h
    refine ⟨f.entities, ?_, he⟩
    rw [file_of_mem_files hf he]
    exact (placed_ofEntities es).file?_eq hf
  · rintro ⟨kept, hf, he⟩
    exact mem_of_file? hf he

theorem file?_ofEntities_filter (es : List Entity) (path : String) :
    (ofEntities (es.filter (·.file = path))).file? path = (ofEntities es).file? path := by
  rw [file?_ofEntities, file?_ofEntities, List.filter_filter]
  simp only [Bool.and_self]

/-- An index that has all entities already stays as it is. -/
theorem ofEntities_append_self (es : List Entity) : ofEntities (es ++ es) = ofEntities es := by
  apply (placed_ofEntities _).eq_of_files (placed_ofEntities _)
  rw [files_ofEntities, files_ofEntities, List.map_append, eraseDups_append_self]
  simp only [List.filter_append, lastOfEach_append_self]

/-- What an index has of the entities that it was made of. -/
structure Records (es : List Entity) (x : Index) : Prop where
  paths : x.files.map (·.path) = (es.map (·.file)).eraseDups
  paths_nodup : (x.files.map (·.path)).Nodup
  positions : ∀ path position,
    x.positions.get? path = some position ↔ (x.files.map (·.path))[position]? = some path
  files : ∀ f ∈ x.files, ∀ e ∈ f.entities, e.file = f.path
  rawNames : ∀ f ∈ x.files,
    f.entities.map (·.rawName) = ((es.filter (·.file = f.path)).map (·.rawName)).eraseDups
  rawNames_nodup : ∀ f ∈ x.files, (f.entities.map (·.rawName)).Nodup
  last : ∀ path raw, (x.file? path).bind (·.find? (·.rawName = raw)) =
    (es.filter fun e => e.file = path ∧ e.rawName = raw).getLast?

/-- An index records its entities by file and raw name. So a file keeps what comes of its own
entities, every kept entity is listed once, and nothing changes if all entities come again. -/
theorem ofEntities_records (es : List Entity) :
    Records es (ofEntities es) ∧
      (∀ path, (ofEntities es).file? path =
        (ofEntities (es.filter (·.file = path))).file? path) ∧
      ((ofEntities es).under "").Nodup ∧
      (∀ e, e ∈ (ofEntities es).under "" ↔
        ∃ kept, (ofEntities es).file? e.file = some kept ∧ e ∈ kept) ∧
      ((ofEntities es).under "").length = (ofEntities es).entityCount ∧
      ofEntities (es ++ es) = ofEntities es := by
  have hplaced := placed_ofEntities es
  have hrecords : Records es (ofEntities es) :=
    { paths := paths_ofEntities es
      paths_nodup := hplaced.nodup
      positions := fun _ _ => hplaced.get?_eq_some_iff
      files := fun _ hf _ he => file_of_mem_files hf he
      rawNames := fun _ hf => rawNames_of_mem_files hf
      rawNames_nodup := fun _ hf => nodup_rawNames hf
      last := find?_file?_ofEntities es }
  refine ⟨hrecords, fun path => (file?_ofEntities_filter es path).symm, ?_⟩
  rw [under_empty]
  refine ⟨nodup_entities es, fun e => mem_entities_iff, ?_, ofEntities_append_self es⟩
  rw [entityCount, entities]

end Index

end Exports
