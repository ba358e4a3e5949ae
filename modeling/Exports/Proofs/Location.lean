import Exports.Files.Disk
import Exports.Proofs.FileKeys

namespace Exports

namespace Location

def step (here : Location) : Component → Location
  | .root => []
  | .here => here
  | .up => here.dropLast
  | .name s => here ++ [s]

/-- Where a place leads from a directory. -/
def walk (base : Location) (place : Place) : Location := place.foldl step base

theorem walk_cons (base : Location) (c : Component) (rest : Place) :
    base.walk (c :: rest) = (base.step c).walk rest := rfl

theorem walk_append (base : Location) (place rest : Place) :
    base.walk (place ++ rest) = (base.walk place).walk rest := List.foldl_append

end Location

/-- Steps by which a place climbs above its start: each `..` is one, and a name before it takes
one back. -/
def Place.ascent : Place → Nat
  | [] => 0
  | .root :: rest | .here :: rest => ascent rest
  | .up :: rest => ascent rest + 1
  | .name _ :: rest => ascent rest - 1

open Location Place

variable {place : Place}

/-- A place climbs away from its base as far as it can, and then goes down as it would from the
root. -/
theorem Location.walk_eq (base : Location) (h : .root ∉ place) :
    base.walk place = base.take (base.length - place.ascent) ++ walk [] place := by
  induction place generalizing base with
  | nil => simp [walk, ascent]
  | cons c rest ih =>
    have hrest : .root ∉ rest := fun hm => h (List.mem_cons_of_mem _ hm)
    cases c with
    | root => exact absurd List.mem_cons_self h
    | here => exact ih base hrest
    | up =>
      have htake : base.dropLast.take (base.dropLast.length - ascent rest) =
          base.take (base.length - (ascent rest + 1)) := by
        rw [List.dropLast_eq_take, List.take_take, List.length_take]
        congr 1
        omega
      rw [walk_cons, step, ih _ hrest, htake]
      rfl
    | name s =>
      have htake : (base ++ [s]).take ((base ++ [s]).length - ascent rest) =
          base.take (base.length - (ascent rest - 1)) ++ [s].take (1 - ascent rest) := by
        rw [List.take_append, List.length_append, List.length_singleton]
        congr 1
        · cases ascent rest with
          | zero => simp
          | succ n => congr 1; omega
        · congr 1
          omega
      rw [walk_cons, walk_cons, step, step, ih _ hrest, List.nil_append, ih [s] hrest, htake,
        List.append_assoc]
      rfl

namespace Place

theorem ascent_append (h : .root ∉ place) (rest : Place) :
    ascent (place ++ rest) = place.ascent + (rest.ascent - (walk [] place).length) := by
  induction place with
  | nil => simp [walk, ascent]
  | cons c front ih =>
    have hroot : .root ∉ front := fun hm => h (List.mem_cons_of_mem _ hm)
    have hfront := ih hroot
    cases c with
    | root => exact absurd List.mem_cons_self h
    | here => exact hfront
    | up =>
      have hwalk : walk [] (.up :: front) = walk [] front := rfl
      rw [List.cons_append, ascent, ascent, hfront, hwalk]
      omega
    | name s =>
      have hwalk : walk [] (.name s :: front) = [s].take (1 - ascent front) ++ walk [] front :=
        walk_eq [s] hroot
      have hlength := congrArg List.length hwalk
      rw [List.length_append, List.length_take, List.length_singleton] at hlength
      rw [List.cons_append, ascent, ascent, hfront, hlength]
      omega

theorem Down.ascent_eq_zero (h : place.Down) : place.ascent = 0 := by
  induction place with
  | nil => rfl
  | cons c rest ih =>
    obtain ⟨s, rfl⟩ := h c List.mem_cons_self
    rw [ascent, ih fun d hd => h d (List.mem_cons_of_mem _ hd)]

namespace Unrooted

theorem ascent_le_one (h : place.Unrooted) : place.ascent ≤ 1 := by
  cases h with
  | down h => simp [h.ascent_eq_zero]
  | up h => simp [ascent, h.ascent_eq_zero]

theorem eq_or_concat (h : place.Unrooted) :
    place = [] ∨ place = [.up] ∨ ∃ front s, place = front ++ [.name s] := by
  cases h with
  | down h =>
    rcases List.eq_nil_or_concat place with rfl | ⟨front, last, rfl⟩
    · exact .inl rfl
    · obtain ⟨s, rfl⟩ := h last (by simp)
      exact .inr (.inr ⟨front, s, List.concat_eq_append⟩)
  | @up rest h =>
    rcases List.eq_nil_or_concat rest with rfl | ⟨front, last, rfl⟩
    · exact .inr (.inl rfl)
    · obtain ⟨s, rfl⟩ := h last (by simp)
      exact .inr (.inr ⟨.up :: front, s, by simp⟩)

/-- To follow one component from a settled place leads where it should from the root, and keeps the
parity of the climb. -/
theorem walk_follow (h : place.Unrooted) {c : Component} (hc : c ≠ .root) :
    walk [] (follow place [c]) = walk [] (place ++ [c]) ∧
      ascent (follow place [c]) = ascent (place ++ [c]) % 2 := by
  have hle := h.ascent_le_one
  have happend := ascent_append h.root_not_mem [c]
  cases c with
  | root => exact absurd rfl hc
  | here =>
    have hfollow : follow place [.here] = place := List.reverse_reverse place
    rw [happend, hfollow, walk_append]
    refine ⟨rfl, ?_⟩
    simp only [ascent]
    omega
  | name s =>
    have hfollow : follow place [.name s] = place ++ [.name s] :=
      follow_down place (by simp [Down])
    rw [hfollow]
    refine ⟨rfl, ?_⟩
    rw [happend]
    simp only [ascent]
    omega
  | up =>
    rcases h.eq_or_concat with rfl | rfl | ⟨front, s, rfl⟩
    · exact ⟨rfl, rfl⟩
    · -- The step up before is removed, where two of them should be kept.
      exact ⟨rfl, rfl⟩
    · have hfront : .root ∉ front := fun hm => h.root_not_mem (List.mem_append_left _ hm)
      have hfollow : follow (front ++ [.name s]) [.up] = front := by
        rw [follow_up (by simp) h.root_not_mem (by simp [Down])]
        simp
      rw [ascent_append hfront] at hle
      rw [hfollow, List.append_assoc, ascent_append hfront, walk_append]
      refine ⟨by simp [walk, step], ?_⟩
      simp only [ascent, List.cons_append, List.nil_append] at hle ⊢
      omega

end Unrooted

/-- Normalization keeps where a place leads from the root, and of its climb the parity. -/
theorem walk_normalize (h : .root ∉ place) :
    walk [] place.normalize = walk [] place ∧
      place.normalize.ascent = place.ascent % 2 := by
  induction place using List.reverseRecOn with
  | nil => exact ⟨rfl, rfl⟩
  | append_singleton front c ih =>
    have hfront : .root ∉ front := fun hm => h (List.mem_append_left _ hm)
    have hc : c ≠ .root := by
      rintro rfl
      exact h (by simp)
    have hsettled := unrooted_normalize hfront
    obtain ⟨hwalk, hascent⟩ := ih hfront
    obtain ⟨hstep, hparity⟩ := hsettled.walk_follow hc
    rw [normalize_append]
    constructor
    · rw [hstep, walk_append, hwalk, ← walk_append]
    · rw [hparity, ascent_append hsettled.root_not_mem, ascent_append hfront, hwalk, hascent]
      omega

theorem foldl_keep_concat_root (kept : Place) (h : .root ∉ place) :
    place.foldl keep (kept ++ [.root]) = place.foldl keep kept ++ [.root] := by
  induction place generalizing kept with
  | nil => rfl
  | cons c rest ih =>
    have hrest := fun kept => ih kept fun hm => h (List.mem_cons_of_mem _ hm)
    cases c with
    | root => exact absurd List.mem_cons_self h
    | here => exact hrest kept
    | name s => exact hrest (.name s :: kept)
    | up =>
      match kept with
      | [] => exact hrest [.up]
      | .root :: below => exact hrest (.up :: .root :: below)
      | .here :: below | .up :: below | .name _ :: below => exact hrest below

theorem normalize_root (h : .root ∉ place) :
    normalize (.root :: place) = .root :: place.normalize := by
  have hkept : (Component.root :: place).foldl keep [] = place.foldl keep [] ++ [.root] :=
    foldl_keep_concat_root [] h
  rw [normalize, hkept, List.reverse_append]
  rfl

end Place

namespace Location

/-- From anywhere but the root on, a place and its normal form lead to one location exactly if the
place climbs by one step at most, or both climbs come to the root. -/
theorem walk_normalize_iff_of_unrooted (base : Location) (h : .root ∉ place) :
    base.walk place.normalize = base.walk place ↔
      place.ascent ≤ 1 ∨ base.length ≤ place.ascent % 2 := by
  obtain ⟨hwalk, hascent⟩ := Place.walk_normalize h
  rw [walk_eq base (unrooted_normalize h).root_not_mem, walk_eq base h, hwalk, hascent,
    List.append_left_inj, List.take_eq_take_iff]
  omega

/-- The normal form of a path leads to the location of the path exactly if the path is absolute, it
climbs by one step at most, or the parity of its climb is enough to come to the root. So it does
from every directory exactly if the path is absolute or climbs by one step at most. -/
theorem walk_normalize_iff (p : Path) :
    (∀ base : Location, base.walk p.normalize.place = base.walk p.place ↔
      p.isAbsolute = true ∨ p.place.ascent ≤ 1 ∨ base.length ≤ p.place.ascent % 2) ∧
    ((∀ base : Location, base.walk p.normalize.place = base.walk p.place) ↔
      p.isAbsolute = true ∨ p.place.ascent ≤ 1) := by
  have hbase : ∀ base : Location, base.walk p.normalize.place = base.walk p.place ↔
      p.isAbsolute = true ∨ p.place.ascent ≤ 1 ∨ base.length ≤ p.place.ascent % 2 := by
    intro base
    rw [Path.place_normalize]
    cases ha : p.isAbsolute with
    | true =>
      have hsteps : .root ∉ Path.steps p.bytes :=
        fun hm => (Path.proper_of_mem_steps hm).ne_root rfl
      rw [Path.place_of_absolute ha, normalize_root hsteps]
      exact iff_of_true (Place.walk_normalize hsteps).1 (.inl rfl)
    | false =>
      rw [walk_normalize_iff_of_unrooted base (Path.root_not_mem_place ha)]
      simp
  refine ⟨hbase, fun h => ?_, fun h base => (hbase base).mpr (h.imp_right .inl)⟩
  -- From two directories down, no parity comes to the root.
  have htwo := (hbase ["a", "b"]).mp (h ["a", "b"])
  rw [List.length_cons, List.length_singleton] at htwo
  refine htwo.imp_right fun h => h.resolve_right ?_
  omega

/-- Two steps up are none in the normal form. -/
theorem walk_normalize_of_two_up :
    walk ["x", "y"] (Path.normalize ⟨"../../a"⟩).place = ["x", "y", "a"] ∧
      walk ["x", "y"] (⟨"../../a"⟩ : Path).place = ["a"] := by
  decide +kernel

end Location

end Exports
