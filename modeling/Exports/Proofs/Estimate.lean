import Exports.Proofs.Footprint
import Exports.Proofs.IntegerRange

namespace Exports

namespace SourceCache

variable {cache : SourceCache} {limits : CacheLimits}

/-- Each step of the estimate fits into a word. -/
structure Exact (cache : SourceCache) (limits : CacheLimits) : Prop where
  files : cache.files.size * limits.parsedFileBytes.toNat < 2 ^ 64
  entities : cache.entityCount * limits.entityBytes.toNat < 2 ^ 64
  sum : cache.footprint limits < 2 ^ 64
  estimate : ∃ bytes, cache.estimatedBytes? limits = some bytes ∧
    bytes.toNat = cache.footprint limits

theorem exact_iff : cache.Exact limits ↔ cache.footprint limits < 2 ^ 64 := by
  refine ⟨Exact.sum, fun h => ⟨?_, ?_, h, ?_⟩⟩
  · exact Nat.lt_of_le_of_lt (Nat.le_add_right ..) h
  · exact Nat.lt_of_le_of_lt (Nat.le_add_left ..) h
  · obtain ⟨bytes, hbytes⟩ := exists_word h
    exact ⟨bytes, estimatedBytes?_eq_some_iff.mpr hbytes, hbytes⟩

theorem cleaned_empty (limits : CacheLimits) : cleaned {} limits = {} := by
  rw [cleaned, footprint_empty, if_neg (Nat.not_lt_zero _)]

theorem parse?_card {n : Nat} (h : HoldsCards cache.files n) (files : Files) (content : String) :
    ∃ c, (cache.parse? files (cardPath n) (some content)).2 =
      { cache with files := cache.files.insert (cardPlace n) c } := by
  have hnone : cache.files.get? (cardPath n).place = none := by
    rw [place_cardPath]
    exact Table.get?_of_not_mem h.not_mem
  rw [← place_cardPath]
  refine ⟨⟨.ofContent .vue content, files.stamp (cardPath n)⟩, ?_⟩
  simp only [parse?, parse, ofPath_cardPath, hnone]
  rfl

end SourceCache

namespace Kept

variable {limits : CacheLimits} {log : List ResultKey} {cache : SourceCache}

theorem exists_entities (limits : CacheLimits) (m : Nat) (hm : limits.enabled = false → m = 0) :
    ∃ log cache, Kept limits log cache ∧ cache.files = {} ∧ cache.entityCount = m := by
  cases he : limits.enabled with
  | false => exact ⟨[], {}, .start, rfl, (hm he).symm⟩
  | true =>
    let card : Entity := ⟨"Component:Card", .component, "Card.vue", ⟨1, 1⟩, "setup", true, ""⟩
    have hfits : SourceCache.footprint {} limits < 2 ^ 64 := by simp
    have hstored : SourceCache.setResult? {} limits ({} : MemoryFiles).view .component
        ⟨"/Card.vue"⟩ (List.replicate m card) = some _ := SourceCache.setResult?_of_lt hfits
    refine ⟨_, _, .setResult .start hstored, SourceCache.setResult_files .., ?_⟩
    rw [SourceCache.setResult_enabled he hfits, SourceCache.cleaned_empty]
    simp [SourceCache.entityCount, SourceCache.store, Table.insert, Table.contains]

theorem exists_files (h : Kept limits log cache) (hf : cache.files = {}) (n : Nat) :
    ∃ after, Kept limits log after ∧ HoldsCards after.files n ∧
      after.entityCount = cache.entityCount := by
  induction n with
  | zero => exact ⟨cache, h, by rw [hf]; rfl, rfl⟩
  | succ n ih =>
    obtain ⟨after, ha, hcards, hcount⟩ := ih
    obtain ⟨c, hc⟩ := SourceCache.parse?_card hcards ({} : MemoryFiles).view ""
    refine ⟨_, ha.parse ({} : MemoryFiles).view (cardPath n) (some ""), ?_, ?_⟩
    · rw [hc]
      exact hcards.insert c
    · rw [SourceCache.entityCount_parse?, hcount]

theorem exists_holding (limits : CacheLimits) (n m : Nat) (hm : limits.enabled = false → m = 0) :
    ∃ log cache, Kept limits log cache ∧ cache.files.size = n ∧ cache.entityCount = m := by
  obtain ⟨log, cache, h, hf, hcount⟩ := exists_entities limits m hm
  obtain ⟨after, ha, hcards, hsame⟩ := exists_files h hf n
  exact ⟨log, after, ha, hcards.size, hsame.trans hcount⟩

/-- The caches of a certain size are told exactly if the largest one is. -/
theorem exact_within_iff (limits : CacheLimits) (n m : Nat) :
    (∀ log cache, Kept limits log cache → cache.files.size ≤ n → cache.entityCount ≤ m →
        cache.Exact limits) ↔
      n * limits.parsedFileBytes.toNat + m * limits.keptBytes < 2 ^ 64 := by
  constructor
  · intro hall
    obtain ⟨log, cache, h, hn, hm⟩ := exists_holding limits n (if limits.enabled then m else 0)
      (by intro he; simp [he])
    have hsum := (hall log cache h (by omega) (by rw [hm]; split <;> omega)).sum
    rw [h.footprint_eq, hn, hm] at hsum
    by_cases he : limits.enabled = true
    · rwa [if_pos he] at hsum
    · have hzero : limits.keptBytes = 0 := by rw [CacheLimits.keptBytes, if_neg he]
      rw [hzero, Nat.mul_zero] at hsum ⊢
      exact hsum
  · intro hlt log cache h hn hm
    rw [SourceCache.exact_iff, h.footprint_eq]
    have hfiles := Nat.mul_le_mul_right limits.parsedFileBytes.toNat hn
    have hentities := Nat.mul_le_mul_right limits.keptBytes hm
    omega

theorem exact_always_iff (limits : CacheLimits) :
    (∀ log cache, Kept limits log cache → cache.Exact limits) ↔
      limits.parsedFileBytes.toNat = 0 ∧ limits.keptBytes = 0 := by
  constructor
  · intro hall
    have hwithin : ∀ n m, n * limits.parsedFileBytes.toNat + m * limits.keptBytes < 2 ^ 64 :=
      fun n m => (exact_within_iff limits n m).mp fun log cache h _ _ => hall log cache h
    have hfiles := hwithin (2 ^ 64) 0
    have hentities := hwithin 0 (2 ^ 64)
    omega
  · rintro ⟨hP, hE⟩ log cache h
    rw [SourceCache.exact_iff, h.footprint_eq, hP, hE]
    omega

/-- With the settings of a document, there is an exact estimate of all caches if neither files nor
entities that are kept take any bytes, and only then. Of caches up to a certain size there is one if
the largest of them fits in a word. Two files or entities do, whatever the document says. -/
theorem exact_iff_of_ofDocument {read : String → Option Toml.Entries} (hr : Toml.Ranged read)
    {text : String} {s : Settings} (hs : Settings.ofDocumentBy read text = .ok s) :
    let limits := CacheLimits.ofSettings s.cache
    ((∀ log cache, Kept limits log cache → cache.Exact limits) ↔
        limits.parsedFileBytes.toNat = 0 ∧ limits.keptBytes = 0) ∧
      (∀ n m, (∀ log cache, Kept limits log cache → cache.files.size ≤ n →
          cache.entityCount ≤ m → cache.Exact limits) ↔
        n * limits.parsedFileBytes.toNat + m * limits.keptBytes < 2 ^ 64) ∧
      ∀ log cache, Kept limits log cache → cache.files.size + cache.entityCount ≤ 2 →
        cache.Exact limits := by
  intro limits
  refine ⟨exact_always_iff limits, exact_within_iff limits, ?_⟩
  intro log cache h hle
  have hbounded := Settings.bounded_of_ofDocumentBy hr hs
  have hP : limits.parsedFileBytes.toNat < 2 ^ 63 := hbounded.parsedFileBytes
  have hE : limits.keptBytes < 2 ^ 63 := by
    unfold CacheLimits.keptBytes
    split
    · exact hbounded.entityBytes
    · decide
  rw [SourceCache.exact_iff, h.footprint_eq]
  have hfiles := Nat.mul_le_mul_left cache.files.size (Nat.le_sub_one_of_lt hP)
  have hentities := Nat.mul_le_mul_left cache.entityCount (Nat.le_sub_one_of_lt hE)
  omega

/-- With the settings of an empty document, a thousand million files and as many entities are told
exactly, and some caches are not. -/
theorem exact_of_empty_document :
    ∃ s, Settings.ofDocument "" = .ok s ∧
      (∀ log cache, Kept (.ofSettings s.cache) log cache → cache.files.size ≤ 10 ^ 9 →
        cache.entityCount ≤ 10 ^ 9 → cache.Exact (.ofSettings s.cache)) ∧
      ∃ log cache, Kept (.ofSettings s.cache) log cache ∧ ¬ cache.Exact (.ofSettings s.cache) := by
  have hs : Settings.ofDocument "" = .ok {} := by rfl
  obtain ⟨hall, hwithin, -⟩ := exact_iff_of_ofDocument Toml.ranged_parse? hs
  refine ⟨{}, hs, (hwithin _ _).mpr (by decide), ?_⟩
  by_contra hnone
  have hzero := hall.mp fun log cache h => by
    by_contra hnot
    exact hnone ⟨log, cache, h, hnot⟩
  exact absurd hzero.1 (by decide)

/-- A document may set the size of a file to a quarter of what a word holds, and then there is no
estimate of four files. -/
theorem estimatedBytes?_outgrown :
    let text := "[cache]\nparsed_file_bytes = 4611686018427387904\n"
    let files := ({} : MemoryFiles).view
    let one := (SourceCache.parse? {} files ⟨"/repo/a.vue"⟩ (some "")).2
    let two := (one.parse? files ⟨"/repo/b.vue"⟩ (some "")).2
    let three := (two.parse? files ⟨"/repo/c.vue"⟩ (some "")).2
    let four := (three.parse? files ⟨"/repo/d.vue"⟩ (some "")).2
    ∃ s, Settings.ofDocument text = .ok s ∧ Kept (.ofSettings s.cache) [] four ∧
      four.footprint (.ofSettings s.cache) = 2 ^ 64 ∧
      four.estimatedBytes? (.ofSettings s.cache) = none := by
  intro text files one two three four
  have hread : (Settings.ofDocument text).toOption.map (·.cache.parsedFileBytes) =
      some 4611686018427387904 := by decide +kernel
  have hfiles : four.files.size = 4 := by decide +kernel
  have hentities : four.entityCount = 0 := by decide +kernel
  obtain ⟨s, hs, hsize⟩ := Option.map_eq_some_iff.mp hread
  have hfoot : four.footprint (.ofSettings s.cache) = 2 ^ 64 := by
    simp [SourceCache.footprint, hfiles, hentities, CacheLimits.ofSettings, hsize]
  refine ⟨s, ?_, .parse (.parse (.parse (.parse .start ..) ..) ..) .., hfoot, ?_⟩
  · cases hd : Settings.ofDocument text with
    | error error =>
      rw [hd] at hs
      cases hs
    | ok t =>
      rw [hd] at hs
      cases hs
      rfl
  · rw [SourceCache.estimatedBytes?_eq_none_iff, hfoot]

end Kept

end Exports
