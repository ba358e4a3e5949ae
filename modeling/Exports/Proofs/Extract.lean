import Exports.Engine
import Exports.Proofs.Source
import Exports.Proofs.Store

namespace Exports

namespace SourceCache

variable {cache after : SourceCache} {limits : CacheLimits} {files : Files}
  {extractor : Extractor} {path : Path}

/-- A result is served while the file bears its stamp; nothing but stale results is dropped. -/
theorem getResult_cases (cache : SourceCache) (limits : CacheLimits) (files : Files)
    (extractor : Extractor) (path : Path) :
    (∃ result, cache.results.get? (extractor, path.place) = some result ∧
      (files.stamp path).isSome ∧ files.stamp path = result.stamp ∧
      cache.getResult limits files extractor path = (some result.entities, cache)) ∨
    cache.getResult limits files extractor path = (none, cache) ∨
    cache.getResult limits files extractor path =
      (none, { cache with results := cache.results.erase (extractor, path.place) }) := by
  cases he : limits.enabled with
  | false => exact .inr (.inl (by simp [getResult, he]))
  | true =>
    cases hg : cache.results.get? (extractor, path.place) with
    | none => exact .inr (.inl (by simp [getResult, he, hg]))
    | some result =>
      by_cases hs : (files.stamp path).isSome ∧ files.stamp path = result.stamp
      · obtain ⟨hsome, heq⟩ := hs
        exact .inl ⟨result, rfl, hsome, heq, by simp [getResult, he, hg, hsome, ← heq]⟩
      · exact .inr (.inr (by simp [getResult, he, hg, hs]))

theorem getResult_files (cache : SourceCache) (limits : CacheLimits) (files : Files)
    (extractor : Extractor) (path : Path) :
    (cache.getResult limits files extractor path).2.files = cache.files := by
  rcases cache.getResult_cases limits files extractor path with ⟨_, -, -, -, h⟩ | h | h <;>
    rw [h]

theorem get?_of_missed {key : Extractor × Place} {result : CachedResult}
    (h : cache.getResult limits files extractor path = (none, after))
    (hk : after.results.get? key = some result) :
    cache.results.get? key = some result ∧
      (key = (extractor, path.place) → limits.enabled = false) := by
  unfold getResult at h
  cases he : limits.enabled with
  | false =>
    simp only [he, Bool.not_false, ↓reduceIte, Prod.mk.injEq, true_and] at h
    subst h
    exact ⟨hk, fun _ => rfl⟩
  | true =>
    simp only [he, Bool.not_true, Bool.false_eq_true, ↓reduceIte] at h
    split at h
    · rename_i hnone
      cases h
      refine ⟨hk, ?_⟩
      rintro rfl
      rw [hnone] at hk
      cases hk
    · split at h
      · cases h
      · cases h
        refine ⟨Table.get?_of_erase hk, ?_⟩
        rintro rfl
        simp [Table.get?_erase] at hk

end SourceCache

namespace Path

variable {root file : Path}

def resultKey? (root file : Path) : Option (Extractor × Place) :=
  (Language.ofPath (absolute root file)).toOption.map fun language =>
    (.ofLanguage language, (absolute root file).place)

theorem exists_of_resultKey? {key : Extractor × Place} (h : resultKey? root file = some key) :
    ∃ language, Language.ofPath (absolute root file) = .ok language ∧
      key = (.ofLanguage language, (absolute root file).place) := by
  unfold resultKey? at h
  generalize absolute root file = path at h ⊢
  cases hl : Language.ofPath path with
  | error error =>
    rw [hl] at h
    cases h
  | ok language =>
    rw [hl] at h
    exact ⟨language, rfl, (Option.some.inj h).symm⟩

theorem place_of_resultKey? {extractor : Extractor} {place : Place}
    (h : resultKey? root file = some (extractor, place)) : (absolute root file).place = place := by
  obtain ⟨language, -, he⟩ := exists_of_resultKey? h
  exact (Prod.mk.inj he).2.symm

theorem resultKey?_ok {language : Language}
    (hl : Language.ofPath (absolute root file) = .ok language) :
    resultKey? root file = some (.ofLanguage language, (absolute root file).place) := by
  rw [resultKey?, hl]
  rfl

end Path

namespace Engine

variable {e : Engine} {files : Files} {root file : Path} {language : Language}
  {cache after : SourceCache}

theorem extract_unsupported {error : Error}
    (h : Language.ofPath (Path.absolute root file) = .error error) :
    e.extract files root file = (some [], e) := by
  unfold extract
  generalize Path.absolute root file = path at h ⊢
  simp only [h]

theorem extract_served {entities : List Entity}
    (hl : Language.ofPath (Path.absolute root file) = .ok language)
    (hg : e.cache.getResult e.limits files (.ofLanguage language) (Path.absolute root file) =
      (some entities, cache)) :
    e.extract files root file = (some entities, { e with cache }) := by
  unfold extract
  generalize Path.absolute root file = path at hl hg ⊢
  simp only [hl, hg]

theorem extract_unparsed
    (hl : Language.ofPath (Path.absolute root file) = .ok language)
    (hg : e.cache.getResult e.limits files (.ofLanguage language) (Path.absolute root file) =
      (none, cache))
    (hp : cache.parse? files (Path.absolute root file) none = (none, after)) :
    e.extract files root file = (some [], { e with cache := after }) := by
  unfold extract
  generalize Path.absolute root file = path at hl hg hp ⊢
  simp only [hl, hg, hp]

theorem extract_parsed {parsed : ParsedSource} {entities : List Entity}
    (hl : Language.ofPath (Path.absolute root file) = .ok language)
    (hg : e.cache.getResult e.limits files (.ofLanguage language) (Path.absolute root file) =
      (none, cache))
    (hp : cache.parse? files (Path.absolute root file) none = (some parsed, after))
    (he : (Extractor.ofLanguage language).entities
      ⟨Path.relative root (Path.absolute root file), e.resolve⟩ parsed = entities) :
    e.extract files root file =
      ((after.setResult? e.limits files (.ofLanguage language) (Path.absolute root file)
          entities).map fun _ => entities,
        { e with
          cache := after.setResult e.limits files (.ofLanguage language)
            (Path.absolute root file) entities }) := by
  unfold extract
  generalize Path.absolute root file = path at hl hg hp he ⊢
  simp only [hl, hg, hp, he]
  rfl

/-- An extraction touches the cache only, and its sources only as a parse does. -/
theorem extract_snd (e : Engine) (files : Files) (root file : Path) :
    ∃ after, (e.extract files root file).2 = { e with cache := after } ∧
      (after.files = e.cache.files ∨
        ∃ cache : SourceCache, cache.files = e.cache.files ∧
          after.files = (cache.parse? files (Path.absolute root file) none).2.files) := by
  cases hl : Language.ofPath (Path.absolute root file) with
  | error error =>
    rw [extract_unsupported hl]
    exact ⟨e.cache, rfl, .inl rfl⟩
  | ok language =>
    have hf := e.cache.getResult_files e.limits files (.ofLanguage language)
      (Path.absolute root file)
    rcases hg : e.cache.getResult e.limits files (.ofLanguage language) (Path.absolute root file)
      with ⟨_ | entities, cache⟩
    · rw [hg] at hf
      rcases hp : cache.parse? files (Path.absolute root file) none with ⟨_ | parsed, after⟩
      · rw [extract_unparsed hl hg hp]
        exact ⟨after, rfl, .inr ⟨cache, hf, by rw [hp]⟩⟩
      · rw [extract_parsed hl hg hp rfl]
        exact ⟨_, rfl, .inr ⟨cache, hf, by rw [SourceCache.setResult_files, hp]⟩⟩
    · rw [hg] at hf
      rw [extract_served hl hg]
      exact ⟨cache, rfl, .inl hf⟩

theorem extractAll_cons (e : Engine) (files : Files) (root file : Path) (rest : List Path) :
    e.extractAll files root (file :: rest) =
      match e.extract files root file with
      | (none, after) => (none, after)
      | (some entities, after) =>
        let (more, last) := after.extractAll files root rest
        (more.map (entities ++ ·), last) := by
  rfl

/-- Extractions one after the other end with the first one that does not return. -/
theorem extractAll_snd_cons (e : Engine) (files : Files) (root file : Path) (rest : List Path) :
    (e.extractAll files root (file :: rest)).2 = (e.extract files root file).2 ∨
      (e.extractAll files root (file :: rest)).2 =
        ((e.extract files root file).2.extractAll files root rest).2 := by
  rw [extractAll_cons]
  rcases e.extract files root file with ⟨_ | entities, after⟩
  · exact .inl rfl
  · exact .inr rfl

/-- The entities that an extraction gives: none, if it does not return. -/
def extracted (e : Engine) (files : Files) (root file : Path) : List Entity :=
  (e.extract files root file).1.getD []

theorem exists_of_mem_extracted {x : Entity} (h : x ∈ e.extracted files root file) :
    ∃ es, (e.extract files root file).1 = some es ∧ x ∈ es := by
  unfold extracted at h
  cases hx : (e.extract files root file).1 with
  | none =>
    rw [hx] at h
    cases h
  | some es =>
    rw [hx] at h
    exact ⟨es, rfl, h⟩

/-- Whether an extraction is given the result of an earlier one. -/
def isServed (e : Engine) (files : Files) (root file : Path) : Bool :=
  (Path.resultKey? root file).any fun key =>
    (e.cache.getResult e.limits files key.1 (Path.absolute root file)).1.isSome

/-- What is drawn from the source of a file, if it has one. -/
def drawFrom (e : Engine) (root file : Path) (source : Option ParsedSource) : List Entity :=
  ((Path.resultKey? root file).bind fun key => source.map fun parsed =>
    key.1.entities ⟨Path.relative root (Path.absolute root file), e.resolve⟩ parsed).getD []

theorem drawFrom_none (e : Engine) (root file : Path) : e.drawFrom root file none = [] := by
  simp [drawFrom]

theorem drawFrom_some {key : Extractor × Place} (hk : Path.resultKey? root file = some key)
    (parsed : ParsedSource) :
    e.drawFrom root file (some parsed) =
      key.1.entities ⟨Path.relative root (Path.absolute root file), e.resolve⟩ parsed := by
  rw [drawFrom, hk, Option.bind_some, Option.map_some, Option.getD_some]

theorem mem_drawFrom {source : Option ParsedSource} {x : Entity}
    (hx : x ∈ e.drawFrom root file source) :
    ∃ key parsed, Path.resultKey? root file = some key ∧ source = some parsed ∧
      x ∈ key.1.entities ⟨Path.relative root (Path.absolute root file), e.resolve⟩ parsed := by
  cases hk : Path.resultKey? root file with
  | none =>
    rw [drawFrom, hk] at hx
    cases hx
  | some key =>
    cases source with
    | none =>
      rw [drawFrom_none] at hx
      cases hx
    | some parsed =>
      rw [drawFrom_some hk] at hx
      exact ⟨key, parsed, rfl, rfl, hx⟩

/-- The cache as it is when an extraction comes to store its result. -/
def cacheAtStore (e : Engine) (files : Files) (root file : Path) : SourceCache :=
  let path := Path.absolute root file
  match Language.ofPath path with
  | .error _ => e.cache
  | .ok language =>
    ((e.cache.getResult e.limits files (.ofLanguage language) path).2.parse? files path none).2

theorem cacheAtStore_error (e : Engine) (files : Files) {error : Error}
    (hl : Language.ofPath (Path.absolute root file) = .error error) :
    e.cacheAtStore files root file = e.cache := by
  unfold cacheAtStore
  generalize Path.absolute root file = path at hl ⊢
  simp only [hl]

theorem cacheAtStore_ok (e : Engine) (files : Files)
    (hl : Language.ofPath (Path.absolute root file) = .ok language) :
    e.cacheAtStore files root file =
      ((e.cache.getResult e.limits files (.ofLanguage language)
        (Path.absolute root file)).2.parse? files (Path.absolute root file) none).2 := by
  unfold cacheAtStore
  generalize Path.absolute root file = path at hl ⊢
  simp only [hl]

/-- Whether an extraction draws entities and then finds the cache too large for an estimate. -/
def isOutgrown (e : Engine) (files : Files) (root file : Path) : Bool :=
  e.limits.enabled && !e.isServed files root file &&
    (e.cache.parse? files (Path.absolute root file) none).1.isSome &&
    2 ^ 64 ≤ (e.cacheAtStore files root file).footprint e.limits

theorem extract_of_no_key (e : Engine) (files : Files) (h : Path.resultKey? root file = none) :
    e.extract files root file = (some [], e) ∧
      e.cache.parse? files (Path.absolute root file) none = (none, e.cache) := by
  cases hl : Language.ofPath (Path.absolute root file) with
  | error error => exact ⟨extract_unsupported hl, by rw [SourceCache.parse?_eq, hl]⟩
  | ok language =>
    rw [Path.resultKey?_ok hl] at h
    cases h

/-- What an extraction does that is not served: it drops the result that is not good any more,
parses the file, and comes to keep what it draws from the source. -/
theorem extract_missed_cases {key : Extractor × Place} (hk : Path.resultKey? root file = some key)
    (hs : e.isServed files root file = false) :
    ∃ cache : SourceCache, cache.files = e.cache.files ∧
      (∀ k result, cache.results.get? k = some result →
        e.cache.results.get? k = some result ∧ (k = key → e.limits.enabled = false)) ∧
      ((cache.parse? files (Path.absolute root file) none =
            (none, e.cacheAtStore files root file) ∧
          e.extract files root file =
            (some [], { e with cache := e.cacheAtStore files root file })) ∨
        ∃ parsed entities,
          cache.parse? files (Path.absolute root file) none =
            (some parsed, e.cacheAtStore files root file) ∧
          key.1.entities ⟨Path.relative root (Path.absolute root file), e.resolve⟩ parsed =
            entities ∧
          e.extract files root file =
            (((e.cacheAtStore files root file).setResult? e.limits files key.1
                (Path.absolute root file) entities).map fun _ => entities,
              { e with
                cache := (e.cacheAtStore files root file).setResult e.limits files key.1
                  (Path.absolute root file) entities })) := by
  obtain ⟨language, hl, rfl⟩ := Path.exists_of_resultKey? hk
  have hfiles := e.cache.getResult_files e.limits files (.ofLanguage language)
    (Path.absolute root file)
  have hat := e.cacheAtStore_ok files hl
  rcases hg : e.cache.getResult e.limits files (.ofLanguage language) (Path.absolute root file)
    with ⟨_ | entities, cache⟩
  · rw [hg] at hfiles hat
    refine ⟨cache, hfiles, fun k result hr => SourceCache.get?_of_missed hg hr, ?_⟩
    rcases hp : cache.parse? files (Path.absolute root file) none with ⟨_ | parsed, after⟩
    · rw [hp] at hat
      rw [hat]
      exact .inl ⟨rfl, extract_unparsed hl hg hp⟩
    · rw [hp] at hat
      rw [hat]
      exact .inr ⟨parsed, _, rfl, rfl, extract_parsed hl hg hp rfl⟩
  · rw [isServed, hk, Option.any_some, hg] at hs
    cases hs

/-- An extraction that is not served draws from what a parse gives now. It does not return if the
cache has outgrown the estimate. -/
theorem extract_fst_of_missed (hs : e.isServed files root file = false) :
    (e.extract files root file).1 =
      if e.isOutgrown files root file then none
      else some (e.drawFrom root file
        (e.cache.parse? files (Path.absolute root file) none).1) := by
  cases hk : Path.resultKey? root file with
  | none =>
    obtain ⟨hx, hp⟩ := e.extract_of_no_key files hk
    simp [hx, hp, isOutgrown, drawFrom_none]
  | some key =>
    obtain ⟨cache, hfiles, -, h⟩ := extract_missed_cases hk hs
    have hp : (cache.parse? files (Path.absolute root file) none).1 =
        (e.cache.parse? files (Path.absolute root file) none).1 :=
      SourceCache.parse?_fst_congr (.refl files _) (by rw [hfiles])
    rcases h with ⟨ha, hx⟩ | ⟨parsed, entities, ha, hd, hx⟩
    · rw [ha] at hp
      simp [hx, ← hp, isOutgrown, drawFrom_none]
    · rw [ha] at hp
      rw [hx, ← hp, drawFrom_some hk, hd]
      have hout : e.isOutgrown files root file = true ↔
          (e.cacheAtStore files root file).setResult? e.limits files key.1
            (Path.absolute root file) entities = none := by
        rw [SourceCache.setResult?_eq_none_iff]
        simp [isOutgrown, hs, ← hp]
      cases hr : (e.cacheAtStore files root file).setResult? e.limits files key.1
          (Path.absolute root file) entities with
      | none => rw [if_pos (hout.mpr hr), Option.map_none]
      | some after => rw [if_neg (fun ho => nomatch (hout.mp ho).symm.trans hr), Option.map_some]

theorem extract_of_served (hs : e.isServed files root file = true) :
    ∃ key result, Path.resultKey? root file = some key ∧
      e.cache.results.get? key = some result ∧
      (files.stamp (Path.absolute root file)).isSome ∧
      files.stamp (Path.absolute root file) = result.stamp ∧
      e.extract files root file = (some result.entities, e) := by
  cases hl : Language.ofPath (Path.absolute root file) with
  | error error =>
    rw [isServed, Path.resultKey?, hl] at hs
    cases hs
  | ok language =>
    have hk := Path.resultKey?_ok hl
    rw [isServed, hk, Option.any_some] at hs
    rcases e.cache.getResult_cases e.limits files (.ofLanguage language)
      (Path.absolute root file) with ⟨result, hr, hsome, hstamp, h⟩ | h | h
    · exact ⟨_, result, hk, hr, hsome, hstamp, extract_served hl h⟩
    · rw [h] at hs
      cases hs
    · rw [h] at hs
      cases hs

theorem not_isOutgrown_of_served (hs : e.isServed files root file = true) :
    e.isOutgrown files root file = false := by
  simp [isOutgrown, hs]

theorem not_isOutgrown_of_unparsed
    (hp : (e.cache.parse? files (Path.absolute root file) none).1 = none) :
    e.isOutgrown files root file = false := by
  simp [isOutgrown, hp]

/-- A single file is never too large. -/
theorem not_isOutgrown_of_new (resolve : ResolveSettings) (limits : CacheLimits) (files : Files)
    (root file : Path) : isOutgrown { resolve, limits } files root file = false := by
  have hget : ∀ extractor path,
      (SourceCache.getResult {} limits files extractor path).2 = ({} : SourceCache) := by
    intro extractor path
    cases he : limits.enabled <;> simp [SourceCache.getResult, he]
  have hat : (cacheAtStore { resolve, limits } files root file).footprint limits < 2 ^ 64 := by
    cases hl : Language.ofPath (Path.absolute root file) with
    | error error =>
      rw [cacheAtStore_error _ _ hl, SourceCache.footprint_empty]
      decide
    | ok language =>
      rw [cacheAtStore_ok _ _ hl, hget]
      rcases SourceCache.parse?_snd_cases {} files (Path.absolute root file) none with h | ⟨c, h⟩
      · simp [h]
      · have hP := limits.parsedFileBytes.toNat_lt
        simpa [h, SourceCache.footprint, SourceCache.entityCount, Table.size, Table.insert,
          Table.contains] using hP
  rw [isOutgrown, decide_eq_false (Nat.not_le.mpr hat), Bool.and_false]

/-- An extraction does not return exactly if the cache has outgrown the estimate. -/
theorem extract_fst_eq_none_iff :
    (e.extract files root file).1 = none ↔ e.isOutgrown files root file = true := by
  cases hs : e.isServed files root file with
  | true =>
    obtain ⟨_, _, -, -, -, -, hx⟩ := extract_of_served hs
    simp [hx, not_isOutgrown_of_served hs]
  | false =>
    rw [extract_fst_of_missed hs]
    split <;> simp_all

end Engine

end Exports
