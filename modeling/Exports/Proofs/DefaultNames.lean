import Exports.Files.Memory
import Exports.Proofs.KeyNames

namespace Exports

namespace ModuleName

variable {path path' : String} {entries : List String} {declared : Option String}

theorem stem_of_lastPiece (h : Text.lastPiece '/' path = Text.lastPiece '/' path') :
    stem path = stem path' := by
  rw [stem, h, stem]

theorem isEntry_of_stem (h : stem path = stem path') :
    isEntry entries path = isEntry entries path' := by
  rw [isEntry, h, isEntry]

/-- An entry file takes the name that its default export is declared under, then that of its
directory, and any other file its own. -/
theorem ofDefault_eq (entries : List String) (path : String) (declared : Option String) :
    ofDefault entries path declared =
      if isEntry entries path then
        ((declared.filter (· ≠ "")).or (directory? path)).getD (stem path)
      else stem path := by
  unfold ofDefault ofPath
  cases isEntry entries path <;> cases declared.filter (· ≠ "") <;> cases directory? path <;> rfl

/-- A path with the directory `above` over all that `path` has gives the default export the same
name, unless it is `above` that names an entry file. -/
theorem ofDefault_eq_iff {above : Option String} (hs : stem path' = stem path)
    (hd : directory? path' = (directory? path).or above) :
    ofDefault entries path declared = ofDefault entries path' declared ↔
      ¬ (isEntry entries path = true ∧ declared.filter (· ≠ "") = none ∧
        directory? path = none ∧ ∃ dir, above = some dir ∧ dir ≠ stem path) := by
  rw [ofDefault_eq, ofDefault_eq, isEntry_of_stem hs, hs, hd]
  generalize stem path = file
  cases isEntry entries path <;> cases declared.filter (· ≠ "") <;>
    cases directory? path <;> cases above <;> simp [eq_comm]

end ModuleName

namespace Place

variable {place base below : Place}

theorem segments_append (base below : Place) :
    segments (base ++ below) = base.segments ++ below.segments := by
  rw [segments, List.filterMap_append, segments, segments]

theorem directory?_slashed (h : ∀ s, .name s ∈ place → (Component.name s).Proper) :
    ModuleName.directory? place.slashed = place.segments.dropLast.getLast? := by
  by_cases hn : place.segments = []
  · rw [(slashed_eq_empty_iff h).mpr hn, hn]
    decide
  · obtain ⟨front, file, hs⟩ := List.eq_nil_or_concat place.segments |>.resolve_left hn
    rw [ModuleName.directory?, split_slashed h hn, hs]
    rcases List.eq_nil_or_concat front with rfl | ⟨above, dir, rfl⟩
    · rfl
    · have hdir : dir ∈ place.segments := by simp [hs]
      simp [(piece_of_mem_segments h hdir).1]

theorem stem_slashed_append (h : ∀ s, .name s ∈ base ++ below → (Component.name s).Proper)
    (hn : below.segments ≠ []) :
    ModuleName.stem (slashed (base ++ below)) = ModuleName.stem below.slashed := by
  have hbelow : ∀ s, .name s ∈ below → (Component.name s).Proper :=
    fun s hs => h s (List.mem_append_right _ hs)
  have hall : segments (base ++ below) ≠ [] := by simp [segments_append, hn]
  apply ModuleName.stem_of_lastPiece
  rw [lastPiece_slashed h hall, lastPiece_slashed hbelow hn]
  simp only [segments_append, List.getLast_append_of_ne_nil _ hn]

/-- A key has the directory that it has below some place, or else that place is the directory. -/
theorem directory?_slashed_append (h : ∀ s, .name s ∈ base ++ below → (Component.name s).Proper)
    (hn : below.segments ≠ []) :
    ModuleName.directory? (slashed (base ++ below)) =
      (ModuleName.directory? below.slashed).or base.segments.getLast? := by
  have hbelow : ∀ s, .name s ∈ below → (Component.name s).Proper :=
    fun s hs => h s (List.mem_append_right _ hs)
  rw [directory?_slashed h, directory?_slashed hbelow, segments_append,
    List.dropLast_append_of_ne_nil hn, List.getLast?_append]

end Place

namespace Path

variable {root file : Path} {entries : List String} {declared : Option String}

def IsBelow (root file : Path) : Prop :=
  ∃ below : Place, below ≠ [] ∧ (absolute root file).place = root.normalize.place ++ below

/-- An entry file without a declared name, right in a root that goes by another name. -/
structure NamedByRoot (entries : List String) (declared : Option String) (root file : Path) :
    Prop where
  isEntry : ModuleName.isEntry entries (relative root file) = true
  undeclared : declared.filter (· ≠ "") = none
  direct : ∃ c, (absolute root file).place = root.normalize.place ++ [c]
  otherName : ∃ dir, root.normalize.place.segments.getLast? = some dir ∧
    dir ≠ ModuleName.stem (relative root file)

/-- The key of a file right in the root has no directory, and that of any other has one. -/
theorem directory?_relative_eq_none_iff (hr : root.isAbsolute = true) (hb : IsBelow root file) :
    ModuleName.directory? (relative root file) = none ↔
      ∃ c, (absolute root file).place = root.normalize.place ++ [c] := by
  obtain ⟨below, hne, hplace⟩ := hb
  have hproper := proper_of_below hr hplace
  rw [relative_eq, hplace, Place.within_append,
    Place.directory?_slashed fun s hs => hproper _ hs, Place.segments_of_proper hproper,
    List.getLast?_eq_none_iff, ← List.map_dropLast, List.map_eq_nil_iff]
  constructor
  · intro hd
    have hlast := List.dropLast_append_getLast hne
    rw [hd, List.nil_append] at hlast
    exact ⟨below.getLast hne, by rw [hlast]⟩
  · rintro ⟨c, hc⟩
    rw [List.append_cancel_left_eq] at hc
    rw [hc]
    rfl

theorem stem_and_directory?_absolute (hr : root.isAbsolute = true) (hb : IsBelow root file) :
    ModuleName.stem (absolute root file).slashed = ModuleName.stem (relative root file) ∧
      ModuleName.directory? (absolute root file).slashed =
        (ModuleName.directory? (relative root file)).or
          root.normalize.place.segments.getLast? := by
  obtain ⟨below, hne, hplace⟩ := hb
  have hproper : ∀ s, .name s ∈ root.normalize.place ++ below → (Component.name s).Proper := by
    intro s hs
    rw [← hplace] at hs
    exact proper_of_mem_place hs
  have hn : below.segments ≠ [] := by
    rw [Place.segments_of_proper (proper_of_below hr hplace)]
    simpa using hne
  rw [slashed, relative_eq, hplace, Place.within_append]
  exact ⟨Place.stem_slashed_append hproper hn, Place.directory?_slashed_append hproper hn⟩

/-- The key of a file below the root and its whole path give its default export one name, unless
it is named by the root. Then the key gives the name of the file, and the path that of the root. -/
theorem ofDefault_relative_iff (hr : root.isAbsolute = true) (hb : IsBelow root file)
    (entries : List String) (declared : Option String) :
    (ModuleName.ofDefault entries (relative root file) declared =
        ModuleName.ofDefault entries (absolute root file).slashed declared ↔
      ¬ NamedByRoot entries declared root file) ∧
    (NamedByRoot entries declared root file →
      ModuleName.ofDefault entries (relative root file) declared =
          ModuleName.stem (relative root file) ∧
        root.normalize.place.segments.getLast? =
          some (ModuleName.ofDefault entries (absolute root file).slashed declared)) := by
  obtain ⟨hstem, hdir⟩ := stem_and_directory?_absolute hr hb
  have hnone := directory?_relative_eq_none_iff hr hb
  rw [ModuleName.ofDefault_eq_iff hstem hdir, hnone]
  refine ⟨not_congr ⟨fun h => ⟨h.1, h.2.1, h.2.2.1, h.2.2.2⟩, fun h => ?_⟩, fun h => ?_⟩
  · exact ⟨h.isEntry, h.undeclared, h.direct, h.otherName⟩
  · obtain ⟨dir, hlast, -⟩ := h.otherName
    have hentry := h.isEntry
    rw [← ModuleName.isEntry_of_stem hstem] at hentry
    rw [ModuleName.ofDefault_eq, ModuleName.ofDefault_eq, if_pos h.isEntry, if_pos hentry,
      h.undeclared, hdir, hnone.mpr h.direct, hlast, Option.none_or, Option.none_or,
      Option.getD_none, Option.none_or, Option.getD_some]
    exact ⟨rfl, rfl⟩

/-- The entry file of a directory inside the root is named after the directory in both. -/
theorem ofDefault_of_inner_entry :
    IsBelow ⟨"/repo/app/.."⟩ ⟨"card/./index.vue"⟩ ∧
      ModuleName.ofDefault ["index.ts", "index.vue"]
          (relative ⟨"/repo/app/.."⟩ ⟨"card/./index.vue"⟩) none =
        ModuleName.ofDefault ["index.ts", "index.vue"]
          (absolute ⟨"/repo/app/.."⟩ ⟨"card/./index.vue"⟩).slashed none := by
  have hb : IsBelow ⟨"/repo/app/.."⟩ ⟨"card/./index.vue"⟩ :=
    ⟨[.name "card", .name "index.vue"], by decide, by decide +kernel⟩
  refine ⟨hb, ((ofDefault_relative_iff (by decide) hb _ none).1).mpr ?_⟩
  intro h
  have hnone := (directory?_relative_eq_none_iff (by decide) hb).mpr h.direct
  exact absurd hnone (by decide +kernel)

def rootEntry : Files :=
  (({} : MemoryFiles).write ⟨"/repo/index.vue"⟩ "<script setup></script>").view

/-- The entry file of the root is extracted under its own name, and inferred under the name of the
root. -/
theorem ofDefault_of_root_entry :
    IsBelow ⟨"/repo"⟩ ⟨"index.vue"⟩ ∧
      ModuleName.ofDefault ["index.vue"] (relative ⟨"/repo"⟩ ⟨"index.vue"⟩) none = "index" ∧
      ModuleName.ofDefault ["index.vue"] (absolute ⟨"/repo"⟩ ⟨"index.vue"⟩).slashed none =
        "repo" ∧
      ((Engine.ofSettings {}).extract rootEntry ⟨"/repo"⟩ ⟨"index.vue"⟩).1.map (·.map (·.id)) =
        some ["Component:index"] ∧
      ((Engine.ofSettings {}).generate rootEntry (absolute ⟨"/repo"⟩ ⟨"index.vue"⟩) "default" true
        none none).1.id = "Component:repo" := by
  refine ⟨⟨[.name "index.vue"], by decide, by decide +kernel⟩, ?_⟩
  decide +kernel

end Path

end Exports
