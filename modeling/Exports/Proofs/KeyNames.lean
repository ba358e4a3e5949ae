import Exports.Language
import Exports.ModuleName
import Exports.Proofs.FileKeys
import Exports.Proofs.Script

namespace Exports

open Text (Bytes)

namespace ModuleName

variable {path : String}

theorem stem_ne_empty (h : Text.lastPiece '/' path ≠ "") : stem path ≠ "" := by
  unfold stem
  generalize Text.lastPiece '/' path = name at h
  simp only
  split
  · exact h
  · exact h
  · rename_i before hb _
    intro he
    exact hb (String.ofList_eq_empty_iff.mp he)

theorem ofPath_ne_empty (h : Text.lastPiece '/' path ≠ "") (entries : List String) :
    ofPath entries path ≠ "" := by
  unfold ofPath
  split
  · rename_i dir _ hd
    unfold directory? at hd
    split at hd
    · split at hd
      · cases hd
      · rename_i hne
        cases hd
        exact hne
    · cases hd
  · exact stem_ne_empty h

theorem ofDefault_ne_empty (h : Text.lastPiece '/' path ≠ "") (entries : List String)
    (declared : Option String) : ofDefault entries path declared ≠ "" := by
  unfold ofDefault
  split
  · rename_i name _ hn
    simpa using (Option.filter_eq_some_iff.mp hn).2
  · exact ofPath_ne_empty h entries

end ModuleName

namespace Place

variable {place : Place}

/-- Names and steps up are pieces between slashes. -/
theorem piece_of_mem_segments (h : ∀ bytes, .name bytes ∈ place → (Component.name bytes).Proper)
    {piece : String} (hp : piece ∈ place.segments) : piece ≠ "" ∧ '/' ∉ piece.toList := by
  obtain ⟨c, hc, he⟩ := List.mem_filterMap.mp hp
  cases c with
  | root | here => cases he
  | up =>
    cases he
    decide
  | name bytes =>
    cases he
    refine ⟨?_, Text.slash_not_mem_shown (h bytes hc).2⟩
    intro hempty
    obtain rfl := Text.shown_eq_empty_iff.mp hempty
    exact absurd (h [] hc).1 (by decide)

theorem split_slashed (h : ∀ bytes, .name bytes ∈ place → (Component.name bytes).Proper)
    (hn : place.segments ≠ []) : Text.split '/' place.slashed = place.segments :=
  Text.split_intercalate hn fun _ hp => (piece_of_mem_segments h hp).2

theorem slashed_eq_empty_iff (h : ∀ bytes, .name bytes ∈ place → (Component.name bytes).Proper) :
    place.slashed = "" ↔ place.segments = [] := by
  constructor
  · intro he
    by_contra hn
    have hs := split_slashed h hn
    rw [he] at hs
    have hmem : "" ∈ place.segments := by
      rw [← hs]
      decide
    exact (piece_of_mem_segments h hmem).1 rfl
  · intro hs
    rw [slashed, hs]
    rfl

theorem lastPiece_slashed (h : ∀ bytes, .name bytes ∈ place → (Component.name bytes).Proper)
    (hn : place.segments ≠ []) :
    Text.lastPiece '/' place.slashed = place.segments.getLast hn := by
  rw [Text.lastPiece, split_slashed h hn, List.getLastD_eq_getLast?,
    List.getLast?_eq_some_getLast hn, Option.getD_some]

/-- A key that is not empty has a last piece. -/
theorem lastPiece_slashed_ne_empty (h : ∀ bytes, .name bytes ∈ place → (Component.name bytes).Proper)
    (hne : place.slashed ≠ "") : Text.lastPiece '/' place.slashed ≠ "" := by
  have hn : place.segments ≠ [] := fun hn => hne ((slashed_eq_empty_iff h).mpr hn)
  rw [lastPiece_slashed h hn]
  exact (piece_of_mem_segments h (List.getLast_mem hn)).1

end Place

namespace Path

theorem lastPiece_slashed_ne_empty {p : Path} (h : p.slashed ≠ "") :
    Text.lastPiece '/' p.slashed ≠ "" :=
  Place.lastPiece_slashed_ne_empty (fun _ hs => proper_of_mem_place hs) h

theorem lastPiece_relative_ne_empty {root p : Path} (h : relative root p ≠ "") :
    Text.lastPiece '/' (relative root p) ≠ "" :=
  Place.lastPiece_slashed_ne_empty
    (fun _ hs => proper_of_mem_place (Place.mem_of_mem_within hs)) h

/-- The key of an absolute path is empty for the root of all files only. -/
theorem slashed_ne_empty {p : Path} (ha : p.isAbsolute = true) (h : p.place ≠ [.root]) :
    p.slashed ≠ "" := by
  have hproper : ∀ c ∈ steps p.bytes, c.Proper := fun c hc => proper_of_mem_steps hc
  rw [place_of_absolute ha] at h
  intro he
  rw [slashed, place_of_absolute ha, Place.slashed_root,
    Place.slashed_eq_empty_iff (fun _ hs => hproper _ hs), Place.segments_of_proper hproper] at he
  exact h (by rw [List.map_eq_nil_iff.mp he])

theorem place_of_fileName? {p : Path} {name : Bytes} (h : p.fileName? = some name) :
    ∃ front, p.place = front ++ [.name name] := by
  unfold fileName? at h
  split at h
  · rename_i s hl
    cases h
    obtain ⟨front, hf⟩ := List.getLast?_eq_some_iff.mp hl
    exact ⟨front, hf⟩
  · cases h

theorem slashed_ne_empty_of_fileName? {p : Path} {name : Bytes} (h : p.fileName? = some name) :
    p.slashed ≠ "" := by
  obtain ⟨front, hf⟩ := place_of_fileName? h
  intro he
  have hs := (Place.slashed_eq_empty_iff fun _ hs => proper_of_mem_place hs).mp he
  rw [hf, Place.segments, List.filterMap_append] at hs
  simp at hs

/-- The key of a file that is not the root itself ends in the name of the file. -/
theorem exists_relative_of_fileName? {root file : Path} {name : Bytes}
    (h : (absolute root file).fileName? = some name)
    (hne : absolute root file ≠ root.normalize) :
    ∃ front : Place, relative root file = Place.slashed (front ++ [.name name]) := by
  obtain ⟨front, hf⟩ := place_of_fileName? h
  rw [relative_eq]
  by_cases hb : root.normalize.place <+: (absolute root file).place
  · obtain ⟨below, hbelow⟩ := hb
    rw [← hbelow, Place.within_append]
    rcases List.eq_nil_or_concat below with rfl | ⟨above, last, rfl⟩
    · rw [List.append_nil] at hbelow
      refine absurd ?_ hne
      rw [← plain_absolute root file, ← plain_congr hbelow, plain_normalize]
    · rw [hf, List.concat_eq_append, ← List.append_assoc] at hbelow
      have hlast := (List.append_inj' hbelow rfl).2
      exact ⟨above, by rw [List.concat_eq_append, hlast]⟩
  · rw [Place.within_of_outside hb]
    exact ⟨front, by rw [hf]⟩

theorem relative_ne_empty {root file : Path} {name : Bytes}
    (h : (absolute root file).fileName? = some name)
    (hne : absolute root file ≠ root.normalize) : relative root file ≠ "" := by
  obtain ⟨front, hf⟩ := exists_relative_of_fileName? h hne
  obtain ⟨above, ha⟩ := place_of_fileName? h
  have hsegment : Text.shown name ∈ (absolute root file).place.segments := by
    rw [ha, Place.segments, List.filterMap_append]
    simp
  have hname := (Place.piece_of_mem_segments (fun _ hs => proper_of_mem_place hs) hsegment).1
  rw [hf]
  rcases Place.slashed_concat front name with he | he
  · rwa [he]
  · rw [he]
    intro hempty
    simpa using congrArg String.toList hempty

end Path

namespace Language

theorem exists_fileName? {p : Path} {language : Language} (h : ofPath p = .ok language) :
    ∃ name, p.fileName? = some name := by
  cases hn : p.fileName? with
  | some name => exact ⟨name, rfl⟩
  | none => simp [ofPath, Path.extension?, hn] at h

theorem lowerAscii_of_vue {extension : String} (h : ofExtension extension = .ok .vue) :
    Text.lowerAscii extension = "vue" := by
  unfold ofExtension at h
  split at h <;> first | assumption | cases h

theorem endsIn_of_vue {p : Path} {name : Bytes} (hn : p.fileName? = some name)
    (h : ofPath p = .ok .vue) : Text.endsIn (Text.lowerAscii (Text.shown name)) ".vue" = true := by
  unfold ofPath at h
  split at h
  · rename_i extension he
    have hlow := congrArg String.toList (lowerAscii_of_vue h)
    obtain ⟨bytes, hext, hdecode⟩ := Option.bind_eq_some_iff.mp he
    unfold Path.extension? at hext
    rw [hn, Option.bind_eq_bind, Option.bind_some] at hext
    obtain ⟨stem, hs, hafter⟩ := Option.bind_eq_some_iff.mp hext
    obtain ⟨rest, hr⟩ := Text.exists_of_beforeLast hs
    split at hafter
    · cases hafter
    · obtain rfl : rest = bytes := by
        simpa [hr] using Option.some.inj hafter
      have hshown : Text.shownChars rest = extension.toList := by
        have htext := Text.shown_encode extension
        rwa [← Text.decode?_eq_some hdecode, Text.shown, ← String.toList_inj,
          String.toList_ofList] at htext
      rw [Text.lowerAscii, String.toList_map] at hlow
      have hname : (Text.shown name).toList = Text.shownChars stem ++ '.' :: extension.toList := by
        rw [Text.shown, String.toList_ofList, hr, Text.shownChars_append_ascii (by decide), hshown]
        rfl
      apply List.isSuffixOf_iff_suffix.mpr
      refine ⟨(Text.shownChars stem).map Char.toLower, ?_⟩
      rw [Text.lowerAscii, String.toList_map, hname, List.map_append, List.map_cons, hlow]
      rfl
  · cases h

end Language

/-- The key of a component file that is not the root itself ends like one. -/
theorem isComponentPath_relative {root file : Path}
    (h : Language.ofPath (Path.absolute root file) = .ok .vue)
    (hne : Path.absolute root file ≠ root.normalize) :
    isComponentPath (Path.relative root file) = true := by
  obtain ⟨name, hn⟩ := Language.exists_fileName? h
  obtain ⟨front, hf⟩ := Path.exists_relative_of_fileName? hn hne
  have hend := Language.endsIn_of_vue hn h
  rw [isComponentPath, hf]
  rcases Place.slashed_concat front name with he | he
  · rwa [he]
  · have hlow : (Text.lowerAscii (front.slashed ++ "/" ++ Text.shown name)).toList =
        (front.slashed ++ "/").toList.map Char.toLower ++
          (Text.lowerAscii (Text.shown name)).toList := by
      simp [Text.lowerAscii]
    rw [he]
    apply List.isSuffixOf_iff_suffix.mpr
    rw [hlow]
    exact (List.isSuffixOf_iff_suffix.mp hend).trans (List.suffix_append ..)

end Exports
