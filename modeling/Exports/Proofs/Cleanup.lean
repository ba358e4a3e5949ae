import Exports.Files.Memory
import Exports.Proofs.Extract

namespace Exports

abbrev ResultKey := Extractor × Place

/-- A key was last stored as the entry of the log at this place. -/
def LastAt (log : List ResultKey) (key : ResultKey) (n : Nat) : Prop :=
  log[n]? = some key ∧ ∀ m, n < m → log[m]? ≠ some key

namespace LastAt

variable {log : List ResultKey} {key other : ResultKey} {n : Nat}

theorem lt_length (h : LastAt log key n) : n < log.length := (List.getElem?_eq_some_iff.mp h.1).1

theorem concat (h : LastAt log key n) (hne : key ≠ other) : LastAt (log ++ [other]) key n := by
  have hlt := h.lt_length
  refine ⟨by rw [List.getElem?_append_left hlt, h.1], ?_⟩
  intro m hm heq
  by_cases hmlt : m < log.length
  · rw [List.getElem?_append_left hmlt] at heq
    exact h.2 m hm heq
  · rw [List.getElem?_append_right (by omega)] at heq
    have hlast := List.mem_of_getElem? heq
    exact hne (List.mem_singleton.mp hlast)

theorem of_concat (log : List ResultKey) (key : ResultKey) :
    LastAt (log ++ [key]) key log.length := by
  refine ⟨List.getElem?_concat_length, ?_⟩
  intro m hm heq
  have hend : (log ++ [key]).length ≤ m := by
    simp
    omega
  rw [List.getElem?_eq_none hend] at heq
  cases heq

end LastAt

namespace SourceCache

variable {cache : SourceCache} {limits : CacheLimits} {files : Files} {log : List ResultKey}

theorem mem_of_mem_cleaned {r : ResultKey × CachedResult}
    (h : r ∈ (cache.cleaned limits).results.entries) : r ∈ cache.results.entries := by
  unfold cleaned at h
  split at h
  · exact (List.mem_filter.mp h).1
  · exact h

/-- The results are those that were stored last under their keys. -/
structure Ordered (cache : SourceCache) (log : List ResultKey) : Prop where
  distinct : cache.results.Distinct
  count : cache.nextSeq = log.length
  last : ∀ e ∈ cache.results.entries, LastAt log e.1 e.2.seq

namespace Ordered

theorem empty : Ordered {} [] := ⟨List.nodup_nil, rfl, by simp⟩

theorem seq_lt (h : cache.Ordered log) : ∀ e ∈ cache.results.entries, e.2.seq < cache.nextSeq := by
  intro e he
  rw [h.count]
  exact (h.last e he).lt_length

theorem eq_of_seq (h : cache.Ordered log) {d e : ResultKey × CachedResult}
    (hd : d ∈ cache.results.entries) (he : e ∈ cache.results.entries)
    (hseq : d.2.seq = e.2.seq) : d = e := by
  have hkey := (h.last d hd).1
  rw [hseq, (h.last e he).1] at hkey
  exact h.distinct.eq_of_mem hd he (Option.some.inj hkey).symm

theorem nodup_seq (h : cache.Ordered log) : (cache.results.entries.map (·.2.seq)).Nodup := by
  rw [List.nodup_map_iff_inj_on h.distinct.nodup]
  intro d hd e he
  exact h.eq_of_seq hd he

theorem keep (h : cache.Ordered log) (may : ResultKey → Bool) (files : Table Place CachedFile) :
    Ordered { cache with files, results := cache.results.keep may } log :=
  ⟨h.distinct.keep may, h.count, fun e he => h.last e (List.mem_filter.mp he).1⟩

theorem withFiles (h : cache.Ordered log) (files : Table Place CachedFile) :
    Ordered { cache with files } log :=
  ⟨h.distinct, h.count, h.last⟩

theorem clear (h : cache.Ordered log) : cache.clear.Ordered log :=
  ⟨List.nodup_nil, h.count, by simp [SourceCache.clear]⟩

theorem cleaned (h : cache.Ordered log) (limits : CacheLimits) :
    (cache.cleaned limits).Ordered log := by
  unfold SourceCache.cleaned
  split
  · exact h.keep _ cache.files
  · exact h

theorem store (h : cache.Ordered log) (files : Files) (extractor : Extractor) (path : Path)
    (entities : List Entity) :
    (cache.store files extractor path entities).Ordered (log ++ [(extractor, path.place)]) := by
  refine ⟨h.distinct.insert _ _, by simp [SourceCache.store, h.count], ?_⟩
  intro e he
  rcases Table.mem_insert.mp he with rfl | ⟨he, hne⟩
  · rw [h.count]
    exact .of_concat log _
  · exact (h.last e he).concat hne

end Ordered

def byAge (cache : SourceCache) : List (ResultKey × CachedResult) :=
  cache.results.entries.mergeSort fun a b => a.2.seq ≤ b.2.seq

theorem byAge_perm (cache : SourceCache) : cache.byAge.Perm cache.results.entries :=
  List.mergeSort_perm ..

theorem olderHalf_eq (cache : SourceCache) :
    cache.olderHalf = (cache.byAge.take (cache.results.size / 2)).map (·.1) := by
  rw [Table.size, ← cache.byAge_perm.length_eq]
  rfl

theorem byAge_sorted (cache : SourceCache) :
    cache.byAge.Pairwise fun a b => a.2.seq ≤ b.2.seq := by
  have hsorted : cache.byAge.Pairwise fun a b => decide (a.2.seq ≤ b.2.seq) = true := by
    apply List.pairwise_mergeSort
    · intro a b c hab hbc
      simp only [decide_eq_true_eq] at *
      omega
    · intro a b
      simp only [Bool.or_eq_true, decide_eq_true_eq]
      omega
  simpa only [decide_eq_true_eq] using hsorted

namespace Ordered

theorem byAge_strict (h : cache.Ordered log) :
    cache.byAge.Pairwise fun a b => a.2.seq < b.2.seq := by
  have hseq := (cache.byAge_perm.map (·.2.seq)).nodup_iff.mpr h.nodup_seq
  have hne := List.pairwise_map.mp hseq
  exact (cache.byAge_sorted.and hne).imp fun hle => Nat.lt_of_le_of_ne hle.1 hle.2

/-- There is one order of age. -/
theorem byAge_eq {entries : List (ResultKey × CachedResult)} (h : cache.Ordered log)
    (hp : cache.results.entries.Perm entries)
    (hs : entries.Pairwise fun a b => a.2.seq < b.2.seq) : cache.byAge = entries := by
  refine List.Perm.eq_of_pairwise ?_ h.byAge_strict hs (cache.byAge_perm.trans hp)
  intro a b _ _ hab hba
  exact absurd hab (Nat.lt_asymm hba)

theorem older (h : cache.Ordered log) (n : Nat) :
    ∀ d ∈ cache.byAge.take n, ∀ k ∈ cache.byAge.drop n, d.2.seq < k.2.seq := by
  have hstrict := h.byAge_strict
  rw [← List.take_append_drop n cache.byAge] at hstrict
  exact (List.pairwise_append.mp hstrict).2.2

/-- A cleanup leaves the younger half. -/
theorem dropOlderHalf_perm (h : cache.Ordered log) :
    cache.dropOlderHalf.results.entries.Perm (cache.byAge.drop (cache.results.size / 2)) := by
  have hperm := cache.byAge_perm.symm.filter fun e => !cache.olderHalf.contains e.1
  have hfilter : (cache.byAge.filter fun e => !cache.olderHalf.contains e.1) =
      cache.byAge.drop (cache.results.size / 2) := by
    conv_lhs => rw [← List.take_append_drop (cache.results.size / 2) cache.byAge]
    rw [List.filter_append]
    have hold : (cache.byAge.take (cache.results.size / 2)).filter
        (fun e => !cache.olderHalf.contains e.1) = [] := by
      apply List.filter_eq_nil_iff.mpr
      intro e he
      have hmem : e.1 ∈ cache.olderHalf := by
        rw [olderHalf_eq]
        exact List.mem_map_of_mem he
      simp [hmem]
    have hnew : (cache.byAge.drop (cache.results.size / 2)).filter
        (fun e => !cache.olderHalf.contains e.1) = cache.byAge.drop (cache.results.size / 2) := by
      apply List.filter_eq_self.mpr
      intro e he
      have hmem : e.1 ∉ cache.olderHalf := by
        rw [olderHalf_eq]
        intro hm
        obtain ⟨d, hd, hkey⟩ := List.mem_map.mp hm
        have heq := h.distinct.eq_of_mem (cache.byAge_perm.mem_iff.mp (List.mem_of_mem_take hd))
          (cache.byAge_perm.mem_iff.mp (List.mem_of_mem_drop he)) hkey
        exact absurd (h.older _ d hd e he) (by simp [heq])
      simpa using hmem
    rw [hold, hnew, List.nil_append]
  rw [← hfilter]
  exact hperm

theorem byAge_dropOlderHalf (h : cache.Ordered log) :
    cache.dropOlderHalf.byAge = cache.byAge.drop (cache.results.size / 2) :=
  Ordered.byAge_eq (h.keep _ cache.files) h.dropOlderHalf_perm
    (h.byAge_strict.sublist (List.drop_sublist ..))

/-- A result under a new key is the youngest one. -/
theorem byAge_store (h : cache.Ordered log) {extractor : Extractor} {path : Path}
    (hnew : (extractor, path.place) ∉ cache.results.entries.map Prod.fst) (files : Files)
    (entities : List Entity) :
    (cache.store files extractor path entities).byAge = cache.byAge ++
      [((extractor, path.place), ⟨entities, cache.sourceStamp files path, cache.nextSeq⟩)] := by
  apply (h.store files extractor path entities).byAge_eq
  · rw [SourceCache.store, Table.entries_insert_of_not_mem hnew]
    exact cache.byAge_perm.symm.append_right _
  · refine List.pairwise_append.mpr ⟨h.byAge_strict, List.pairwise_singleton .., ?_⟩
    intro a ha b hb
    rw [List.mem_singleton.mp hb]
    exact h.seq_lt a (cache.byAge_perm.mem_iff.mp ha)

end Ordered

/-- The table lists the same results in another order. -/
def relisted (cache : SourceCache) (entries : List (ResultKey × CachedResult)) : SourceCache :=
  { cache with results := ⟨entries⟩ }

theorem footprint_relisted {entries : List (ResultKey × CachedResult)}
    (hp : entries.Perm cache.results.entries) (limits : CacheLimits) :
    (cache.relisted entries).footprint limits = cache.footprint limits := by
  have hlen := (hp.flatMap_right fun r => r.2.entities).length_eq
  simp only [footprint, entityCount, relisted, hlen]

namespace Ordered

variable {entries : List (ResultKey × CachedResult)}

theorem relisted (h : cache.Ordered log) (hp : entries.Perm cache.results.entries) :
    (cache.relisted entries).Ordered log :=
  ⟨(hp.map Prod.fst).nodup_iff.mpr h.distinct, h.count, fun e he => h.last e (hp.mem_iff.mp he)⟩

/-- In whatever order they are listed, sorting finds one order of age. -/
theorem byAge_relisted (h : cache.Ordered log) (hp : entries.Perm cache.results.entries) :
    (cache.relisted entries).byAge = cache.byAge :=
  (h.relisted hp).byAge_eq (hp.trans cache.byAge_perm.symm) h.byAge_strict

theorem cleaned_relisted (h : cache.Ordered log) (hp : entries.Perm cache.results.entries)
    (limits : CacheLimits) :
    ((cache.relisted entries).cleaned limits).results.entries.Perm
      (cache.cleaned limits).results.entries := by
  have hbytes := footprint_relisted hp limits
  have hsize : (cache.relisted entries).results.size = cache.results.size := hp.length_eq
  unfold SourceCache.cleaned
  rw [hbytes]
  split
  · have hhalf := (h.relisted hp).dropOlderHalf_perm
    rw [h.byAge_relisted hp, hsize] at hhalf
    exact hhalf.trans h.dropOlderHalf_perm.symm
  · exact hp

end Ordered

/-- The results after one was stored: of those before, some older ones are dropped and the others
are kept, apart from the one that is replaced. -/
structure Stores (limits : CacheLimits) (cache after : SourceCache) (key : ResultKey)
    (entities : List Entity) (dropped kept : List (ResultKey × CachedResult)) : Prop where
  parts : cache.results.entries.Perm (dropped ++ kept)
  count : dropped.length =
    if limits.trigger.toNat < cache.footprint limits then cache.results.size / 2 else 0
  older : ∀ d ∈ dropped, ∀ k ∈ kept, d.2.seq < k.2.seq
  others : ∀ e, e.1 ≠ key → (e ∈ after.results.entries ↔ e ∈ kept)
  stored : ∃ result, after.results.get? key = some result ∧ result.entities = entities ∧
    ∀ e ∈ after.results.entries, e.1 ≠ key → e.2.seq < result.seq

/-- What a cleanup drops and keeps. -/
theorem Ordered.exists_parts (h : cache.Ordered log) (limits : CacheLimits) :
    ∃ dropped, cache.results.entries.Perm (dropped ++ (cache.cleaned limits).results.entries) ∧
      dropped.length =
        (if limits.trigger.toNat < cache.footprint limits then cache.results.size / 2 else 0) ∧
      ∀ d ∈ dropped, ∀ k ∈ (cache.cleaned limits).results.entries, d.2.seq < k.2.seq := by
  unfold SourceCache.cleaned
  split
  · have hhalf := h.dropOlderHalf_perm
    refine ⟨cache.byAge.take (cache.results.size / 2), ?_, ?_, ?_⟩
    · calc cache.results.entries
        _ |>.Perm cache.byAge := cache.byAge_perm.symm
        _ = _ := (List.take_append_drop (cache.results.size / 2) cache.byAge).symm
        _ |>.Perm _ := hhalf.symm.append_left _
    · rw [List.length_take, cache.byAge_perm.length_eq]
      exact Nat.min_eq_left (Nat.div_le_self ..)
    · intro d hd k hk
      exact h.older _ d hd k (hhalf.mem_iff.mp hk)
  · exact ⟨[], .refl _, rfl, by simp⟩

theorem Ordered.stores (h : cache.Ordered log) (limits : CacheLimits) (files : Files)
    (extractor : Extractor) (path : Path) (entities : List Entity) :
    ∃ dropped kept, Stores limits cache
      ((cache.cleaned limits).store files extractor path entities) (extractor, path.place) entities
      dropped kept := by
  obtain ⟨dropped, hparts, hcount, holder⟩ := h.exists_parts limits
  have hclean := h.cleaned limits
  rw [SourceCache.store]
  refine ⟨dropped, (cache.cleaned limits).results.entries, hparts, hcount, holder, ?_, ?_⟩
  · intro e hne
    rw [Table.mem_insert]
    constructor
    · rintro (rfl | ⟨hm, -⟩)
      · exact absurd rfl hne
      · exact hm
    · intro hm
      exact .inr ⟨hm, hne⟩
  · refine ⟨_, by rw [Table.get?_insert, if_pos rfl], rfl, ?_⟩
    intro e hm hne
    rcases Table.mem_insert.mp hm with rfl | ⟨hm, -⟩
    · exact absurd rfl hne
    · exact hclean.seq_lt e hm

/-- The order in which the table lists the results does not matter to what is stored, nor to
whether it is. -/
theorem Ordered.setResult?_relisted {entries : List (ResultKey × CachedResult)}
    (h : cache.Ordered log) (hp : entries.Perm cache.results.entries)
    (he : limits.enabled = true) (files : Files) (extractor : Extractor) (path : Path)
    (es : List Entity) :
    Option.Rel (fun other after => other.results.entries.Perm after.results.entries)
      ((cache.relisted entries).setResult? limits files extractor path es)
      (cache.setResult? limits files extractor path es) := by
  have hseq : ((cache.relisted entries).cleaned limits).nextSeq =
      (cache.cleaned limits).nextSeq := by
    rw [cleaned_nextSeq, cleaned_nextSeq]
    rfl
  have hstamp : ((cache.relisted entries).cleaned limits).sourceStamp files path =
      (cache.cleaned limits).sourceStamp files path := by
    rw [sourceStamp, cleaned_files, sourceStamp, cleaned_files]
    rfl
  rw [setResult?_enabled he, setResult?_enabled he, footprint_relisted hp]
  split
  · refine .some ?_
    rw [SourceCache.store, SourceCache.store, hseq, hstamp]
    exact (h.cleaned limits).distinct.insert_congr (h.cleaned_relisted hp limits) _ _
  · exact .none

end SourceCache

/-- A source cache that was worked on, and the keys that results were stored under, in order. The
files may be other ones each time. A result that cannot be stored leaves the cache as it is. -/
inductive Kept (limits : CacheLimits) : List ResultKey → SourceCache → Prop where
  | start : Kept limits [] {}
  | parse {log : List ResultKey} {cache : SourceCache} (h : Kept limits log cache) (files : Files)
      (path : Path) (content : Option String) :
      Kept limits log (cache.parse? files path content).2
  | getResult {log : List ResultKey} {cache : SourceCache} (h : Kept limits log cache)
      (files : Files) (extractor : Extractor) (path : Path) :
      Kept limits log (cache.getResult limits files extractor path).2
  | setResult {log : List ResultKey} {cache : SourceCache} (h : Kept limits log cache)
      {files : Files} {extractor : Extractor} {path : Path} {entities : List Entity}
      {after : SourceCache}
      (hs : cache.setResult? limits files extractor path entities = some after) :
      Kept limits (if limits.enabled then log ++ [(extractor, path.place)] else log) after
  | clear {log : List ResultKey} {cache : SourceCache} (h : Kept limits log cache) :
      Kept limits log cache.clear
  | clearExtractor {log : List ResultKey} {cache : SourceCache} (h : Kept limits log cache)
      (extractor : Extractor) : Kept limits log (cache.clearExtractor extractor).2
  | clearFile {log : List ResultKey} {cache : SourceCache} (h : Kept limits log cache)
      (path : Path) : Kept limits log (cache.clearFile path)

namespace Kept

variable {limits : CacheLimits} {log : List ResultKey} {cache : SourceCache}

theorem ordered (h : Kept limits log cache) : cache.Ordered log := by
  induction h with
  | start => exact .empty
  | @parse log cache h files path content ih =>
    rcases cache.parse?_snd_cases files path content with hc | ⟨c, hc⟩
    · rw [hc]
      exact ih
    · rw [hc]
      exact ih.withFiles _
  | @getResult log cache h files extractor path ih =>
    rcases cache.getResult_cases limits files extractor path with ⟨_, -, -, -, hc⟩ | hc | hc
    · rw [hc]
      exact ih
    · rw [hc]
      exact ih
    · rw [hc]
      exact ih.keep _ cache.files
  | setResult h hs ih =>
    cases he : limits.enabled with
    | false =>
      rw [SourceCache.setResult?_disabled he] at hs
      cases hs
      exact ih
    | true =>
      rw [SourceCache.setResult?_enabled he, Option.ite_none_right_eq_some] at hs
      obtain ⟨-, hs⟩ := hs
      cases hs
      exact (ih.cleaned limits).store _ _ _ _
  | clear h ih => exact ih.clear
  | clearExtractor h extractor ih => exact ih.keep _ _
  | clearFile h path ih => exact ih.keep _ _

/-- The results of a cache are numbered by when they were stored last, each by a number of its own.
To store a result drops the older half of the others if too much is kept before, and nothing
otherwise; it becomes the latest result and leaves the others as they are, in whatever order the
table lists them. Nothing is stored exactly if no word holds what is kept before. -/
theorem setResult_drops_older (h : Kept limits log cache) :
    (cache.results.entries.map (·.2.seq)).Nodup ∧
      (∀ e ∈ cache.results.entries, e.2.seq < cache.nextSeq ∧ LastAt log e.1 e.2.seq) ∧
      (limits.enabled = true → ∀ files extractor path entities,
        (cache.setResult? limits files extractor path entities = none ↔
          2 ^ 64 ≤ cache.footprint limits) ∧
        (∀ after, cache.setResult? limits files extractor path entities = some after →
          ∃ dropped kept, SourceCache.Stores limits cache after (extractor, path.place) entities
            dropped kept) ∧
        ∀ entries, entries.Perm cache.results.entries →
          Option.Rel (fun other after => other.results.entries.Perm after.results.entries)
            ((cache.relisted entries).setResult? limits files extractor path entities)
            (cache.setResult? limits files extractor path entities)) := by
  have ho := h.ordered
  refine ⟨ho.nodup_seq, fun e he => ⟨ho.seq_lt e he, ho.last e he⟩, ?_⟩
  intro he files extractor path entities
  refine ⟨?_, ?_, fun entries hp => ho.setResult?_relisted hp he files extractor path entities⟩
  · rw [SourceCache.setResult?_eq_none_iff, he]
    exact ⟨fun h => h.2, fun h => ⟨rfl, h⟩⟩
  · intro after hs
    rw [SourceCache.setResult?_enabled he, Option.ite_none_right_eq_some] at hs
    obtain ⟨-, hs⟩ := hs
    cases hs
    exact ho.stores limits files extractor path entities

/-- Two results of one entity each are too much where one entity is allowed: before a third one is
stored, the first is dropped. -/
theorem setResult_drops_first :
    let limits : CacheLimits := ⟨true, 1, 0, 1⟩
    let x : Entity := ⟨"Function:a", .function, "a.ts", ⟨1, 1⟩, "a", false, ""⟩
    let files := ({} : MemoryFiles).view
    ∃ log cache after, Kept limits log cache ∧ log.length = 2 ∧ limits.enabled = true ∧
      cache.setResult? limits files .script ⟨"/c.ts"⟩ [x] = some after ∧
      ∃ dropped kept, SourceCache.Stores limits cache after (.script, (⟨"/c.ts"⟩ : Path).place) [x]
        dropped kept ∧ dropped.length = 1 ∧ kept.length = 1 := by
  intro limits x files
  let first := SourceCache.setResult {} limits files .script ⟨"/a.ts"⟩ [x]
  let cache := first.setResult limits files .script ⟨"/b.ts"⟩ [x]
  let after := cache.setResult limits files .script ⟨"/c.ts"⟩ [x]
  have h : Kept limits _ cache :=
    .setResult (.setResult .start (SourceCache.setResult?_of_lt (by decide +kernel)))
      (SourceCache.setResult?_of_lt (by decide +kernel))
  have hafter : cache.setResult? limits files .script ⟨"/c.ts"⟩ [x] = some after :=
    SourceCache.setResult?_of_lt (by decide +kernel)
  obtain ⟨-, hstores, -⟩ := (setResult_drops_older h).2.2 rfl files .script ⟨"/c.ts"⟩ [x]
  obtain ⟨dropped, kept, hs⟩ := hstores after hafter
  have hdropped : dropped.length = 1 := hs.count.trans (by decide +kernel)
  have hsize : cache.results.entries.length = 2 := by decide +kernel
  have hboth := hs.parts.length_eq
  rw [hsize, List.length_append, hdropped] at hboth
  exact ⟨_, cache, after, h, rfl, rfl, hafter, dropped, kept, hs, hdropped, by omega⟩

/-- Four files of a quarter of a word each were parsed, and now no result can be stored. -/
theorem setResult?_outgrown :
    let limits : CacheLimits := ⟨true, 0xFFFFFFFFFFFFFFFF, 0x4000000000000000, 0⟩
    let files := ({} : MemoryFiles).view
    ∃ cache, Kept limits [] cache ∧
      cache.setResult? limits files .component ⟨"/d.vue"⟩ [] = none := by
  intro limits files
  refine ⟨_, .parse (.parse (.parse (.parse .start files ⟨"/a.vue"⟩ (some "")) files ⟨"/b.vue"⟩
    (some "")) files ⟨"/c.vue"⟩ (some "")) files ⟨"/d.vue"⟩ (some ""), ?_⟩
  exact SourceCache.setResult?_eq_none_iff.mpr ⟨rfl, by decide +kernel⟩

end Kept

end Exports
