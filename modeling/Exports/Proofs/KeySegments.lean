import Exports.Proofs.Directories
import Mathlib.Data.List.Flatten
import Mathlib.Data.List.Permutation

namespace Exports

/-- The segments of a key. None of them is empty or holds a slash. -/
structure Segments where
  list : List String
  nonempty : "" ∉ list
  noSlash : ∀ s ∈ list, '/' ∉ s.toList

def Segments.key (k : Segments) : String := "/".intercalate k.list

/-- What stands between the slashes of a key, empty pieces apart. -/
def segmentsOf (key : String) : List String := (Text.split '/' key).filter (· ≠ "")

theorem segmentsOf_slash (front back : String) :
    segmentsOf (front ++ "/" ++ back) = segmentsOf front ++ segmentsOf back := by
  rw [segmentsOf, Text.split_slash, List.filter_append]
  rfl

namespace Segments

theorem segmentsOf_key (k : Segments) : segmentsOf k.key = k.list := by
  by_cases hn : k.list = []
  · rw [key, hn]
    decide
  · have hsplit : Text.split '/' k.key = k.list := Text.split_intercalate hn k.noSlash
    rw [segmentsOf, hsplit, List.filter_eq_self]
    intro s hs
    have hne : s ≠ "" := fun he => k.nonempty (he ▸ hs)
    simpa using hne

theorem liesUnder_iff (path top : Segments) :
    LiesUnder path.key top.key ↔ top.list <+: path.list := by
  constructor
  · intro h
    rw [← path.segmentsOf_key, ← top.segmentsOf_key]
    rcases h with h | h | ⟨rest, h⟩
    · rw [h]
      exact List.nil_prefix
    · rw [h]
    · rw [h, segmentsOf_slash]
      exact List.prefix_append _ _
  · rintro ⟨rest, h⟩
    rw [key, ← h]
    exact liesUnder_intercalate top.list rest

end Segments

theorem LiesUnder.trans {path middle top : String} (h : LiesUnder path middle)
    (h' : LiesUnder middle top) : LiesUnder path top := by
  rcases h' with rfl | rfl | ⟨rest, rfl⟩
  · exact .inl rfl
  · exact h
  · rcases h with h | rfl | ⟨more, rfl⟩
    · -- What has a slash is not the empty key.
      have hlength := congrArg String.length h
      simp at hlength
    · exact .inr (.inr ⟨rest, rfl⟩)
    · exact .inr (.inr ⟨rest ++ "/" ++ more, by simp [String.append_assoc]⟩)

namespace Index

theorem isUnder_trans {path lower top : String} (h : LiesUnder lower top)
    (hp : isUnder path lower = true) : isUnder path top = true :=
  isUnder_iff.mpr ((isUnder_iff.mp hp).trans h)

theorem under_sublist (x : Index) {lower top : String} (h : LiesUnder lower top) :
    (x.under lower).Sublist (x.under top) := by
  refine List.Sublist.flatMap ?_ _
  apply List.monotone_filter_right
  intro f hf
  exact isUnder_trans h hf

theorem candidates_subperm (x : Index) {lower top : String} (h : LiesUnder lower top) :
    (x.candidates lower).Subperm (x.candidates top) := by
  have hsorted : ∀ key, (x.candidates key).Perm (x.under key) := fun key => List.mergeSort_perm ..
  exact (hsorted lower).subperm.trans ((x.under_sublist h).subperm.trans (hsorted top).symm.subperm)

/-- What lies under a key, told by segments, where the keys of all files are made of segments. -/
theorem under_key {x : Index} (h : ∀ f ∈ x.files, ∃ k : Segments, f.path = k.key)
    (top : Segments) :
    x.under top.key =
      (x.files.filter fun f => top.list <+: segmentsOf f.path).flatMap (·.entities) := by
  rw [under]
  congr 1
  apply List.filter_congr
  intro f hf
  obtain ⟨k, hk⟩ := h f hf
  rw [Bool.eq_iff_iff, isUnder_iff, decide_eq_true_iff, hk, k.segmentsOf_key, k.liesUnder_iff]

/-- A key lies under another exactly if its segments begin with those of the other. So candidates
only get more from a directory to those above it, as a search goes through them, and what lies under
a key are the entities of the files whose segments begin with its own, in the order of the files. -/
theorem isUnder_segments :
    (∀ path top : Segments, isUnder path.key top.key = true ↔ top.list <+: path.list) ∧
    (∀ (x : Index) (lower top : Segments), top.list <+: lower.list →
      (x.under lower.key).Sublist (x.under top.key) ∧
        (x.candidates lower.key).Subperm (x.candidates top.key)) ∧
    (∀ (x : Index) (r : Request), r.directories.Pairwise fun lower top =>
      (x.candidates lower).Subperm (x.candidates top)) ∧
    ∀ x : Index, (∀ f ∈ x.files, ∃ k : Segments, f.path = k.key) → ∀ top : Segments,
      x.under top.key =
        (x.files.filter fun f => top.list <+: segmentsOf f.path).flatMap (·.entities) := by
  refine ⟨fun path top => ?_, fun x lower top h => ?_, fun x r => ?_, fun x h => under_key h⟩
  · rw [isUnder_iff, Segments.liesUnder_iff]
  · have hunder := (lower.liesUnder_iff top).mpr h
    exact ⟨x.under_sublist hunder, x.candidates_subperm hunder⟩
  · exact r.pairwise_directories.imp x.candidates_subperm

/-- Two directories, of which the one has a name that begins with the name of the other. -/
theorem isUnder_segments_of_longer_name :
    let a : Entity := ⟨"Function:a", .function, "src/a.ts", ⟨1, 1⟩, "a", false, ""⟩
    let b : Entity := ⟨"Function:b", .function, "srcx/b.ts", ⟨1, 1⟩, "b", false, ""⟩
    let all : Segments := ⟨[], by decide, by decide⟩
    let src : Segments := ⟨["src"], by decide, by decide⟩
    let x := ofEntities [a, b]
    (∀ f ∈ x.files, ∃ k : Segments, f.path = k.key) ∧ all.list <+: src.list ∧
      (x.under src.key).Sublist (x.under all.key) ∧
      x.under src.key =
        (x.files.filter fun f => src.list <+: segmentsOf f.path).flatMap (·.entities) ∧
      x.under src.key = [a] ∧ x.under all.key = [a, b] := by
  intro a b all src x
  have hkeys : ∀ f ∈ x.files, ∃ k : Segments, f.path = k.key := by
    have hfiles : x.files = [⟨"src/a.ts", [a]⟩, ⟨"srcx/b.ts", [b]⟩] := by decide +kernel
    intro f hf
    rw [hfiles] at hf
    simp only [List.mem_cons, List.not_mem_nil, or_false] at hf
    rcases hf with rfl | rfl
    · exact ⟨⟨["src", "a.ts"], by decide, by decide⟩, by decide⟩
    · exact ⟨⟨["srcx", "b.ts"], by decide, by decide⟩, by decide⟩
  obtain ⟨-, hgrow, -, hunder⟩ := isUnder_segments
  exact ⟨hkeys, List.nil_prefix, (hgrow x src all List.nil_prefix).1, hunder x hkeys src,
    by decide +kernel, by decide +kernel⟩

end Index

end Exports
