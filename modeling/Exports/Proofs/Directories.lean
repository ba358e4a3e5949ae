import Exports.Lookup
import Exports.Proofs.Path
import Mathlib.Data.List.Infix

namespace Exports

/-- A key is `top` or lies below it. Every key lies below the empty one. -/
def LiesUnder (path top : String) : Prop :=
  top = "" ∨ path = top ∨ ∃ rest, path = top ++ "/" ++ rest

theorem Index.isUnder_iff {path top : String} :
    Index.isUnder path top = true ↔ LiesUnder path top := by
  unfold Index.isUnder LiesUnder
  rw [Bool.or_eq_true, decide_eq_true_iff]
  refine or_congr_right ?_
  constructor
  · intro h
    split at h
    · rename_i rest hp
      have hpath : path.toList = top.toList ++ rest :=
        (List.isPrefixOf?_eq_some_iff_append_eq.mp hp).symm
      cases rest with
      | nil => exact .inl (String.toList_inj.mp (by simpa using hpath))
      | cons c cs =>
        obtain rfl : c = '/' := by simpa using h
        refine .inr ⟨String.ofList cs, String.toList_inj.mp ?_⟩
        simpa using hpath
    · cases h
  · rintro (rfl | ⟨rest, rfl⟩)
    · have hp : path.toList.isPrefixOf? path.toList = some [] :=
        List.isPrefixOf?_eq_some_iff_append_eq.mpr (List.append_nil _)
      rw [hp]
      rfl
    · have hp : top.toList.isPrefixOf? (top ++ "/" ++ rest).toList = some ('/' :: rest.toList) :=
        List.isPrefixOf?_eq_some_iff_append_eq.mpr (by simp)
      rw [hp]
      rfl

theorem liesUnder_intercalate (front back : List String) :
    LiesUnder ("/".intercalate (front ++ back)) ("/".intercalate front) := by
  by_cases hf : front = []
  · exact .inl (by rw [hf, String.intercalate_nil])
  · by_cases hb : back = []
    · exact .inr (.inl (by rw [hb, List.append_nil]))
    · exact .inr (.inr ⟨_, String.intercalate_append_of_ne_nil hf hb⟩)

/-- Keys that slashes divide into pieces, none of them empty. -/
def IsKey (path : String) : Prop := "" ∉ Text.split '/' path

instance : DecidablePred IsKey := fun path =>
  inferInstanceAs (Decidable ("" ∉ Text.split '/' path))

theorem IsKey.ne_empty {path : String} (h : IsKey path) : path ≠ "" := by
  rintro rfl
  exact h (by decide)

namespace Request

variable {r : Request} {top : String}

theorem directories_eq (h : IsKey r.path) :
    r.directories = (List.range (Text.split '/' r.path).length).reverse.map fun level =>
      "/".intercalate ((Text.split '/' r.path).take level) := by
  have hall : (Text.split '/' r.path).filter (· ≠ "") = Text.split '/' r.path := by
    apply List.filter_eq_self.mpr
    intro piece hp
    have hne : piece ≠ "" := fun he => h (he ▸ hp)
    simpa using hne
  rw [directories, hall]

/-- The directories of a request are all that lie above its file. -/
theorem mem_directories_iff (h : IsKey r.path) :
    top ∈ r.directories ↔ LiesUnder r.path top ∧ top ≠ r.path := by
  have hpath := Text.intercalate_split r.path
  rw [directories_eq h, List.mem_map]
  constructor
  · rintro ⟨level, hl, rfl⟩
    have hlevel : level < (Text.split '/' r.path).length := by simpa using hl
    have hunder := liesUnder_intercalate ((Text.split '/' r.path).take level)
      ((Text.split '/' r.path).drop level)
    rw [List.take_append_drop, hpath] at hunder
    refine ⟨hunder, fun he => ?_⟩
    -- What is left out is not empty, so the whole key is longer.
    have hn : (Text.split '/' r.path).take level ≠ [] := by
      intro hn
      rw [hn, String.intercalate_nil] at he
      exact h.ne_empty he.symm
    have hd : (Text.split '/' r.path).drop level ≠ [] := by
      intro hd
      have := List.drop_eq_nil_iff.mp hd
      omega
    have hsplit := String.intercalate_append_of_ne_nil hn hd (s := "/")
    rw [List.take_append_drop, hpath, he] at hsplit
    have hlength := congrArg String.length hsplit
    simp only [String.length_append] at hlength
    have hslash : "/".length = 1 := by decide
    omega
  · rintro ⟨hunder | hunder | ⟨rest, hunder⟩, hne⟩
    · refine ⟨0, ?_, by rw [List.take_zero, String.intercalate_nil, hunder]⟩
      have := List.length_pos_iff.mpr (Text.split_ne_nil '/' r.path)
      simpa using this
    · exact absurd hunder.symm hne
    · have hsplit : Text.split '/' r.path = Text.split '/' top ++ Text.split '/' rest := by
        rw [hunder, Text.split_slash]
      refine ⟨(Text.split '/' top).length, ?_, ?_⟩
      · have := List.length_pos_iff.mpr (Text.split_ne_nil '/' rest)
        rw [hsplit, List.mem_reverse, List.mem_range, List.length_append]
        omega
      · rw [hsplit, List.take_left, Text.intercalate_split]

/-- Each directory lies below those that come after it. -/
theorem pairwise_directories (r : Request) : r.directories.Pairwise LiesUnder := by
  rw [directories, List.pairwise_map, List.pairwise_reverse]
  refine List.pairwise_lt_range.imp fun {i j} hij => ?_
  generalize (Text.split '/' r.path).filter (· ≠ "") = parts
  have hunder := liesUnder_intercalate ((parts.take j).take i) ((parts.take j).drop i)
  rwa [List.take_append_drop, List.take_take, Nat.min_eq_left (Nat.le_of_lt hij)] at hunder

end Request

end Exports
