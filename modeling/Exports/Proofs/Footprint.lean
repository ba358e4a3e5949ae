import Exports.Proofs.Cleanup
import Exports.Proofs.EntityFiles
import Mathlib.Algebra.Ring.Nat
import Mathlib.Data.List.Flatten

namespace Exports

namespace CacheLimits

variable {limits : CacheLimits}

/-- What an entity takes. Where results are not kept, it takes nothing. -/
def keptBytes (limits : CacheLimits) : Nat :=
  if limits.enabled then limits.entityBytes.toNat else 0

theorem keptBytes_of_enabled (h : limits.enabled = true) :
    limits.keptBytes = limits.entityBytes.toNat := by
  rw [keptBytes, if_pos h]

theorem enabled_of_keptBytes (h : limits.keptBytes ≠ 0) : limits.enabled = true := by
  by_contra hne
  rw [keptBytes, if_neg hne] at h
  exact h rfl

end CacheLimits

namespace SourceCache

variable {cache : SourceCache} {limits : CacheLimits}

/-- Entities are counted result by result, in any order. -/
theorem entityCount_eq_sum {entries : List (ResultKey × CachedResult)}
    (h : cache.results.entries.Perm entries) :
    cache.entityCount = (entries.map (·.2.entities.length)).sum := by
  rw [entityCount, (h.flatMap_right fun r => r.2.entities).length_eq, List.length_flatMap]

theorem entityCount_keep_le (cache : SourceCache) (may : ResultKey → Bool) :
    entityCount { cache with results := cache.results.keep may } ≤ cache.entityCount := by
  have hsub : (cache.results.keep may).entries.Sublist cache.results.entries := List.filter_sublist
  exact (hsub.flatMap fun r => r.2.entities).length_le

theorem entityCount_cleaned_le (cache : SourceCache) (limits : CacheLimits) :
    (cache.cleaned limits).entityCount ≤ cache.entityCount := by
  unfold cleaned
  split
  · exact cache.entityCount_keep_le _
  · exact Nat.le_refl _

theorem entityCount_getResult_le (cache : SourceCache) (limits : CacheLimits) (files : Files)
    (extractor : Extractor) (path : Path) :
    (cache.getResult limits files extractor path).2.entityCount ≤ cache.entityCount := by
  rcases cache.getResult_cases limits files extractor path with ⟨_, -, -, -, h⟩ | h | h
  · rw [h]
  · rw [h]
  · rw [h]
    exact cache.entityCount_keep_le _

theorem entityCount_parse? (cache : SourceCache) (files : Files) (path : Path)
    (content : Option String) :
    (cache.parse? files path content).2.entityCount = cache.entityCount := by
  rcases cache.parse?_snd_cases files path content with h | ⟨c, h⟩
  · rw [h]
  · rw [h]
    rfl

/-- A result adds its entities, at most. -/
theorem entityCount_store_le (h : cache.results.Distinct) (files : Files) (extractor : Extractor)
    (path : Path) (entities : List Entity) :
    (cache.store files extractor path entities).entityCount ≤
      cache.entityCount + entities.length := by
  rw [store, entityCount_eq_sum (h.insert_perm _ _), List.map_cons, List.sum_cons,
    ← List.length_flatMap, Nat.add_comm]
  exact Nat.add_le_add_right (cache.entityCount_keep_le _) _

end SourceCache

namespace Kept

variable {limits : CacheLimits} {log : List ResultKey} {cache : SourceCache}

/-- Where results are not kept, there are none. -/
theorem entityCount_of_disabled (h : Kept limits log cache) (he : limits.enabled = false) :
    cache.entityCount = 0 := by
  induction h with
  | start => rfl
  | parse h files path content ih => rw [SourceCache.entityCount_parse?, ih]
  | @getResult log cache h files extractor path ih =>
    have hle := cache.entityCount_getResult_le limits files extractor path
    omega
  | setResult h hs ih =>
    rw [SourceCache.setResult?_disabled he] at hs
    cases hs
    exact ih
  | clear h ih => rfl
  | @clearExtractor log cache h extractor ih =>
    have hle := cache.entityCount_keep_le (·.1 ≠ extractor)
    exact Nat.eq_zero_of_le_zero (Nat.le_trans hle (Nat.le_of_eq ih))
  | @clearFile log cache h path ih =>
    have hle := cache.entityCount_keep_le (·.2 ≠ path.place)
    exact Nat.eq_zero_of_le_zero (Nat.le_trans hle (Nat.le_of_eq ih))

theorem footprint_eq (h : Kept limits log cache) :
    cache.footprint limits =
      cache.files.size * limits.parsedFileBytes.toNat + cache.entityCount * limits.keptBytes := by
  unfold SourceCache.footprint CacheLimits.keptBytes
  split
  · rfl
  · rename_i he
    rw [h.entityCount_of_disabled (by simpa using he), Nat.zero_mul, Nat.zero_mul]

end Kept

/-- A component file so many directories below the root. -/
def cardPlace (depth : Nat) : Place :=
  .root :: (List.replicate depth (.name "src") ++ [.name "Card.vue"])

def cardPath (depth : Nat) : Path := (cardPlace depth).toPath

theorem cardPlace_injective : Function.Injective cardPlace := by
  intro m n h
  have hlen := congrArg List.length h
  simpa [cardPlace] using hlen

theorem place_cardPath (depth : Nat) : (cardPath depth).place = cardPlace depth := by
  apply Place.Clean.place_toPath
  refine ⟨_, ?_, .inr (.inl rfl)⟩
  intro c hc
  rcases List.mem_append.mp hc with hc | hc
  · rw [List.eq_of_mem_replicate hc]
    exact ⟨by decide, by decide⟩
  · rw [List.mem_singleton.mp hc]
    exact ⟨by decide, by decide⟩

theorem ofPath_cardPath (depth : Nat) : Language.ofPath (cardPath depth) = .ok .vue := by
  have hname : (cardPath depth).fileName? = some "Card.vue" := by
    rw [Path.fileName?, place_cardPath, cardPlace, List.getLast?_cons]
    simp
  simp only [Language.ofPath, Path.extension?, hname]
  decide +kernel

/-- The files of a cache are so many cards. -/
def HoldsCards (files : Table Place CachedFile) (n : Nat) : Prop :=
  files.entries.map Prod.fst = (List.range n).map cardPlace

namespace HoldsCards

variable {files : Table Place CachedFile} {n : Nat}

theorem size (h : HoldsCards files n) : files.size = n := by
  have hlen := congrArg List.length h
  rwa [List.length_map, List.length_map, List.length_range] at hlen

theorem not_mem (h : HoldsCards files n) : cardPlace n ∉ files.entries.map Prod.fst := by
  rw [h]
  intro hm
  obtain ⟨k, hk, heq⟩ := List.mem_map.mp hm
  have hlt := List.mem_range.mp hk
  have hkn := cardPlace_injective heq
  omega

theorem insert (h : HoldsCards files n) (file : CachedFile) :
    HoldsCards (files.insert (cardPlace n) file) (n + 1) := by
  rw [HoldsCards, Table.entries_insert_of_not_mem h.not_mem, List.map_append, h, List.range_succ,
    List.map_append]
  rfl

end HoldsCards

end Exports
