import Exports.Proofs.FileKeys

namespace Exports

theorem Component.shown_shown (c : Component) : c.shown.shown = c.shown := by
  cases c with
  | root | here | up => rfl
  | name bytes => rw [shown, shown, Text.shown_encode]

namespace Place

variable {place base below : Place}

theorem isAbsolute_slashed (h : ∀ c ∈ place, c.Proper) :
    Path.isAbsolute ⟨place.slashed⟩ = false := by
  rw [encode_slashed h, Bool.eq_false_iff]
  intro ha
  have hstart := start_of_proper (proper_map_shown h)
  rw [Path.start, if_pos ha] at hstart
  cases hstart

theorem follow_of_normal (hb : base.normalize = base)
    (h : normalize (base ++ below) = base ++ below) : follow base below = base ++ below := by
  rw [normalize_append, hb] at h
  exact h

theorem settled_map_shown (kept : Place) : Settled (kept.map Component.shown) ↔ Settled kept := by
  match kept with
  | [] | [.root] | [.up] | [.up, .root] => exact Iff.rfl
  | .name _ :: below => exact settled_map_shown below
  | .here :: _ | .root :: _ :: _ | .up :: .here :: _ | .up :: .up :: _ | .up :: .name _ :: _
  | .up :: .root :: _ :: _ => exact Iff.rfl

theorem settled_reverse (h : place.normalize = place) : Settled place.reverse := by
  rw [← h, normalize, List.reverse_reverse]
  exact settled_nil.foldl place

/-- What a normal form is read back into is in normal form, wherever the reading starts. -/
theorem normalize_append_shown (h : normalize (base ++ below) = base ++ below) :
    normalize (base ++ below.map Component.shown) = base ++ below.map Component.shown := by
  have hmap : (base ++ below.map Component.shown).map Component.shown =
      (base ++ below).map Component.shown := by
    rw [List.map_append, List.map_append, List.map_map]
    exact congrArg _ (List.map_congr_left fun c _ => c.shown_shown)
  have hs : Settled (base ++ below.map Component.shown).reverse := by
    rw [← settled_map_shown, List.map_reverse, hmap, ← List.map_reverse, settled_map_shown]
    exact settled_reverse h
  have hback := hs.foldl_reverse
  rw [List.reverse_reverse] at hback
  rw [normalize, hback, List.reverse_reverse]

end Place

namespace Path

variable {root file : Path} {below : Place}

/-- The file is the root or lies below it. -/
def IsWithin (root file : Path) : Prop := root.normalize.place <+: (absolute root file).place

instance : Decidable (IsWithin root file) :=
  inferInstanceAs (Decidable (root.normalize.place <+: (absolute root file).place))

theorem normalize_place_normalize (p : Path) : p.normalize.place.normalize = p.normalize.place := by
  rw [place_normalize, Place.normalize_normalize]

/-- The key of a file within the root leads from the root to what it shows. -/
theorem place_absolute_key (hr : root.isAbsolute = true)
    (h : (absolute root file).place = root.normalize.place ++ below) :
    (absolute root ⟨relative root file⟩).place =
      root.normalize.place ++ below.map Component.shown := by
  have hproper := proper_of_below hr h
  have hkey : relative root file = Place.slashed below := by
    rw [relative_eq, h, Place.within_append]
  have hnormal : Place.normalize (root.normalize.place ++ below) =
      root.normalize.place ++ below := by
    rw [← h]
    exact normalize_place_normalize (root.join file)
  rw [hkey, place_absolute (Place.isAbsolute_slashed hproper), Place.steps_slashed hproper]
  exact Place.follow_of_normal (normalize_place_normalize root)
    (Place.normalize_append_shown hnormal)

/-- It leads back to the file exactly if the names in it are texts. -/
theorem IsWithin.absolute_key_iff (h : IsWithin root file) (hr : root.isAbsolute = true) :
    absolute root ⟨relative root file⟩ = absolute root file ↔ HasTextKey root file := by
  obtain ⟨below, hbelow⟩ := h
  rw [absolute_eq_iff, place_absolute_key hr hbelow.symm, HasTextKey, ← hbelow,
    Place.within_append, List.append_cancel_left_eq, Place.isText_iff]

theorem relative_congr {other : Path} (h : absolute root file = absolute root other) :
    relative root file = relative root other := by
  rw [relative_eq, h, relative_eq]

/-- Two names that are no texts, of which a key shows the same. -/
example :
    let file (b : UInt8) : Path := ⟨"/repo/" ++ b :: ".ts"⟩
    relative ⟨"/repo"⟩ (file 0xFF) = relative ⟨"/repo"⟩ (file 0xFE) ∧
      absolute ⟨"/repo"⟩ (file 0xFF) ≠ absolute ⟨"/repo"⟩ (file 0xFE) := by
  decide +kernel

end Path

end Exports
