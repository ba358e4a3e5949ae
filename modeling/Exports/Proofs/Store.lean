import Exports.Proofs.Table
import Exports.SourceCache
import Mathlib.Algebra.Ring.Nat

namespace Exports

namespace SourceCache

variable {cache after : SourceCache} {limits : CacheLimits} {files : Files}
  {extractor : Extractor} {path : Path} {entities : List Entity} {n : Nat} {w : UInt64}

theorem word?_eq_none_iff : word? n = none ↔ 2 ^ 64 ≤ n := by
  rw [word?, ite_eq_right_iff, ← Nat.not_lt]
  simp [UInt64.size]

theorem word?_eq_some_iff : word? n = some w ↔ w.toNat = n := by
  unfold word?
  split
  · rename_i hlt
    have hn : n.toUInt64.toNat = n := UInt64.toNat_ofNat_of_lt' hlt
    rw [Option.some.injEq, ← UInt64.toNat_inj, hn, eq_comm]
  · rename_i hge
    have hw := w.toNat_lt
    refine iff_of_false (by simp) ?_
    rintro rfl
    exact hge hw

theorem exists_word (h : n < 2 ^ 64) : ∃ w : UInt64, w.toNat = n :=
  ⟨n.toUInt64, UInt64.toNat_ofNat_of_lt' h⟩

/-- What the estimate adds up, whether or not a word holds it. -/
def footprint (cache : SourceCache) (limits : CacheLimits) : Nat :=
  cache.files.size * limits.parsedFileBytes.toNat + cache.entityCount * limits.entityBytes.toNat

@[simp]
theorem footprint_empty (limits : CacheLimits) : footprint {} limits = 0 := by
  simp [footprint, entityCount, Table.size]

/-- The steps of the sum fit into words if the sum does. -/
theorem estimatedBytes?_eq_some_iff :
    cache.estimatedBytes? limits = some w ↔ w.toNat = cache.footprint limits := by
  simp only [estimatedBytes?, bind, Option.bind_eq_some_iff, word?_eq_some_iff]
  constructor
  · rintro ⟨files, hfiles, entities, hentities, hsum⟩
    rw [hsum, hfiles, hentities, footprint]
  · intro hw
    have hlt := w.toNat_lt
    rw [hw, footprint] at hlt
    obtain ⟨files, hfiles⟩ := exists_word (Nat.lt_of_le_of_lt (Nat.le_add_right ..) hlt)
    obtain ⟨entities, hentities⟩ := exists_word (Nat.lt_of_le_of_lt (Nat.le_add_left ..) hlt)
    exact ⟨files, hfiles, entities, hentities, by rw [hw, hfiles, hentities, footprint]⟩

theorem estimatedBytes?_eq (cache : SourceCache) (limits : CacheLimits) :
    cache.estimatedBytes? limits = word? (cache.footprint limits) := by
  apply Option.ext
  intro w
  rw [estimatedBytes?_eq_some_iff, word?_eq_some_iff]

theorem estimatedBytes?_eq_none_iff :
    cache.estimatedBytes? limits = none ↔ 2 ^ 64 ≤ cache.footprint limits := by
  rw [estimatedBytes?_eq, word?_eq_none_iff]

/-- The cache as it is when a result is stored. -/
def cleaned (cache : SourceCache) (limits : CacheLimits) : SourceCache :=
  if limits.trigger.toNat < cache.footprint limits then cache.dropOlderHalf else cache

theorem cleaned_nextSeq (cache : SourceCache) (limits : CacheLimits) :
    (cache.cleaned limits).nextSeq = cache.nextSeq := by
  unfold cleaned
  split <;> rfl

theorem cleaned_files (cache : SourceCache) (limits : CacheLimits) :
    (cache.cleaned limits).files = cache.files := by
  unfold cleaned
  split <;> rfl

theorem get?_of_cleaned {key : Extractor × Place} {result : CachedResult}
    (h : (cache.cleaned limits).results.get? key = some result) :
    cache.results.get? key = some result := by
  unfold cleaned at h
  split at h
  · exact Table.get?_of_keep h
  · exact h

theorem setResult?_disabled (h : limits.enabled = false) :
    cache.setResult? limits files extractor path entities = some cache := by
  simp [setResult?, h]

/-- A result is stored if a word holds the estimate. -/
theorem setResult?_enabled (he : limits.enabled = true) :
    cache.setResult? limits files extractor path entities =
      if cache.footprint limits < 2 ^ 64 then
        some ((cache.cleaned limits).store files extractor path entities)
      else none := by
  simp only [setResult?, he, Bool.not_true, Bool.false_eq_true, if_false]
  split
  · rename_i hlt
    obtain ⟨w, hw⟩ := exists_word hlt
    simp only [estimatedBytes?_eq_some_iff.mpr hw, cleaned, ← hw, UInt64.lt_iff_toNat_lt]
    rfl
  · rename_i hge
    rw [estimatedBytes?_eq_none_iff.mpr (Nat.not_lt.mp hge)]
    rfl

theorem setResult?_eq_none_iff :
    cache.setResult? limits files extractor path entities = none ↔
      limits.enabled = true ∧ 2 ^ 64 ≤ cache.footprint limits := by
  cases he : limits.enabled with
  | false => simp [setResult?_disabled he]
  | true => simp [setResult?_enabled he]

/-- The cache after a result was to be stored, whether or not it was. -/
def setResult (cache : SourceCache) (limits : CacheLimits) (files : Files)
    (extractor : Extractor) (path : Path) (entities : List Entity) : SourceCache :=
  (cache.setResult? limits files extractor path entities).getD cache

theorem setResult?_of_lt (h : cache.footprint limits < 2 ^ 64) :
    cache.setResult? limits files extractor path entities =
      some (cache.setResult limits files extractor path entities) := by
  rw [setResult]
  cases hs : cache.setResult? limits files extractor path entities with
  | none => exact absurd (setResult?_eq_none_iff.mp hs).2 (Nat.not_le.mpr h)
  | some after => rfl

theorem setResult_cases (cache : SourceCache) (limits : CacheLimits) (files : Files)
    (extractor : Extractor) (path : Path) (entities : List Entity) :
    cache.setResult limits files extractor path entities = cache ∨
      limits.enabled = true ∧ cache.footprint limits < 2 ^ 64 ∧
        cache.setResult limits files extractor path entities =
          (cache.cleaned limits).store files extractor path entities := by
  unfold setResult
  cases he : limits.enabled with
  | false =>
    rw [setResult?_disabled he]
    exact .inl rfl
  | true =>
    rw [setResult?_enabled he]
    split
    · rename_i hlt
      exact .inr ⟨rfl, hlt, rfl⟩
    · exact .inl rfl

theorem setResult_disabled (h : limits.enabled = false) (cache : SourceCache) (files : Files)
    (extractor : Extractor) (path : Path) (entities : List Entity) :
    cache.setResult limits files extractor path entities = cache := by
  rw [setResult, setResult?_disabled h, Option.getD_some]

theorem setResult_enabled (he : limits.enabled = true) (hlt : cache.footprint limits < 2 ^ 64)
    (files : Files) (extractor : Extractor) (path : Path) (entities : List Entity) :
    cache.setResult limits files extractor path entities =
      (cache.cleaned limits).store files extractor path entities := by
  rw [setResult, setResult?_enabled he, if_pos hlt, Option.getD_some]

theorem setResult_files (cache : SourceCache) (limits : CacheLimits) (files : Files)
    (extractor : Extractor) (path : Path) (entities : List Entity) :
    (cache.setResult limits files extractor path entities).files = cache.files := by
  rcases cache.setResult_cases limits files extractor path entities with h | ⟨-, -, h⟩
  · rw [h]
  · rw [h]
    exact cleaned_files ..

/-- What is left after a result was stored is this result, or was there before. -/
theorem get?_of_setResult {key : Extractor × Place} {result : CachedResult}
    (h : (cache.setResult limits files extractor path entities).results.get? key = some result) :
    cache.results.get? key = some result ∨
      key = (extractor, path.place) ∧ limits.enabled = true ∧ cache.footprint limits < 2 ^ 64 ∧
        result.entities = entities ∧ result.stamp = cache.sourceStamp files path := by
  rcases cache.setResult_cases limits files extractor path entities with hs | ⟨he, hlt, hs⟩
  · rw [hs] at h
    exact .inl h
  · rw [hs, store, Table.get?_insert] at h
    split at h
    · rename_i hkey
      obtain rfl := Option.some.inj h
      exact .inr ⟨hkey, he, hlt, rfl, by rw [sourceStamp, cleaned_files, sourceStamp]⟩
    · exact .inl (get?_of_cleaned h)

end SourceCache

end Exports
