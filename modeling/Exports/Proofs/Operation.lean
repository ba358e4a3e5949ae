import Exports.Proofs.Extract
import Exports.Proofs.Lookup

namespace Exports

inductive Operation where
  | extract (root file : Path)
  | setIndex (es : List Entity)
  | lookup (root file : Path) (name : String) (isDefault : Bool)
  | generate (file : Path) (name : String) (isDefault : Bool) (d : Option Declaration)
      (markup : Option Bool)
  | clearMemo
  | clearLookups
  | clear
  | clearExtractor (extractor : Extractor)
  | invalidate (root file : Path)

namespace SourceCache

variable {cache : SourceCache} {files : Files} {path : Path}

/-- A source that is cached after a parse was cached before, or is that of the file now. -/
theorem get?_of_parse? {place : Place} {c : CachedFile}
    (h : (cache.parse? files path none).2.files.get? place = some c) :
    cache.files.get? place = some c ∨
      path.place = place ∧ files.source? path = some c.parsed ∧ c.stamp = files.stamp path := by
  rcases cache.parse?_cases files path with ⟨_, -, he⟩ | ⟨parsed, -, hs, he⟩ | ⟨-, he⟩
  · rw [he] at h
    exact .inl h
  · rw [he, remember, Table.get?_insert] at h
    split at h
    · rename_i hp
      cases h
      exact .inr ⟨hp.symm, hs, rfl⟩
    · exact .inl h
  · rw [he] at h
    exact .inl h

end SourceCache

namespace Engine

variable {e e' : Engine} {files : Files}

/-- The engine after an operation. -/
def perform (e : Engine) (files : Files) : Operation → Engine
  | .extract root file => (e.extract files root file).2
  | .setIndex es => e.setIndex es
  | .lookup root file name isDefault => (e.lookup files root file name isDefault).2
  | .generate file name isDefault d markup => (e.generate files file name isDefault d markup).2
  | .clearMemo => e.clearMemo
  | .clearLookups => e.clearLookups
  | .clear => e.clear
  | .clearExtractor extractor => { e with cache := (e.cache.clearExtractor extractor).2 }
  | .invalidate root file => e.invalidate root file

/-- An engine before and after it was asked something over these files. -/
structure Drew (files : Files) (e e' : Engine) : Prop where
  resolve : e'.resolve = e.resolve
  sources : ∀ place c, e'.cache.files.get? place = some c →
    e.cache.files.get? place = some c ∨
      ∃ path : Path, path.place = place ∧ files.source? path = some c.parsed ∧
        c.stamp = files.stamp path
  identities : ∀ r identity, e'.memo.identities.get? r = some identity →
    e.memo.identities.get? r = some identity ∨
      ∃ file markup, file.slashed = r.path ∧
        (e.classify files file r.name r.isDefault markup).1 = some identity

namespace Drew

theorem of_less (hr : e'.resolve = e.resolve)
    (hs : ∀ place c, e'.cache.files.get? place = some c → e.cache.files.get? place = some c)
    (hi : ∀ r identity, e'.memo.identities.get? r = some identity →
      e.memo.identities.get? r = some identity) : Drew files e e' :=
  ⟨hr, fun place c hc => .inl (hs place c hc), fun r identity hk => .inl (hi r identity hk)⟩

theorem of_parse {target : Path} (hr : e'.resolve = e.resolve)
    (hm : e'.memo.identities = e.memo.identities)
    (hc : e'.cache.files = e.cache.files ∨
      ∃ cache : SourceCache, cache.files = e.cache.files ∧
        e'.cache.files = (cache.parse? files target none).2.files) : Drew files e e' := by
  refine ⟨hr, fun place c h => ?_, fun r identity h => .inl (hm ▸ h)⟩
  rcases hc with hc | ⟨cache, hcache, hc⟩
  · rw [hc] at h
    exact .inl h
  · rw [hc] at h
    rcases SourceCache.get?_of_parse? h with h | h
    · rw [hcache] at h
      exact .inl h
    · exact .inr ⟨target, h⟩

end Drew

theorem extract_drew (e : Engine) (files : Files) (root file : Path) :
    Drew files e (e.extract files root file).2 := by
  obtain ⟨after, he, hc⟩ := e.extract_snd files root file
  rw [he]
  exact .of_parse rfl rfl hc

theorem classify_fst_of_kept (hr : e'.resolve = e.resolve) (hc : e'.cache = e.cache)
    (files : Files) (file : Path) (name : String) (isDefault : Bool) (markup : Option Bool) :
    (e'.classify files file name isDefault markup).1 =
      (e.classify files file name isDefault markup).1 := by
  rw [classify_fst, classify_fst, target?, target?, hr, hc]

theorem classify_drew (e : Engine) (files : Files) (file : Path) (name : String)
    (isDefault : Bool) (markup : Option Bool) :
    Drew files e (e.classify files file name isDefault markup).2 ∧
      (e.classify files file name isDefault markup).2.memo = e.memo := by
  rcases e.classify_snd files file name isDefault markup with h | ⟨target, -, h⟩
  · rw [h]
    exact ⟨.of_less rfl (fun _ _ hc => hc) fun _ _ hi => hi, rfl⟩
  · rw [h]
    exact ⟨.of_parse rfl rfl (.inr ⟨e.cache, rfl, rfl⟩), rfl⟩

/-- An inference keeps at most what the content told of the very request. -/
theorem infer_drew (e : Engine) (files : Files) (file : Path) (name : String) (isDefault : Bool)
    (markup : Option Bool) : Drew files e (e.infer files file name isDefault markup).2 := by
  obtain ⟨hd, hmemo⟩ := e.classify_drew files file name isDefault markup
  rcases e.infer_cases files file name isDefault markup with
    ⟨identity, -, hi⟩ | ⟨-, ⟨identity, after, ha, hi⟩ | ⟨after, ha, hi⟩⟩
  · rw [hi]
    exact .of_less rfl (fun _ _ hc => hc) fun _ _ hk => hk
  · rw [ha] at hd hmemo
    rw [hi]
    refine ⟨hd.resolve, hd.sources, fun r told hk => ?_⟩
    rw [get?_keepIdentity] at hk
    split at hk
    · rename_i hr
      cases hk
      subst hr
      exact .inr ⟨file, markup, rfl, by rw [ha]⟩
    · rw [hmemo] at hk
      exact .inl hk
  · rw [ha] at hd
    rw [hi]
    exact hd

theorem lookup_snd (e : Engine) (files : Files) (root file : Path) (name : String)
    (isDefault : Bool) :
    ∃ after : Engine, Searched e after ∧
      ((e.lookup files root file name isDefault).2 = after ∨
        ∃ path flag, (e.lookup files root file name isDefault).2 =
          (after.infer files path name flag none).2) := by
  rcases e.lookup_cases files root file name isDefault with
    ⟨id, after, hid, hl⟩ | ⟨after, -, hs, -, hl⟩
  · have hs := (e.findIndexed_same (e.request files root file name isDefault)).1
    rw [hid] at hs
    exact ⟨after, hs, .inl (by rw [hl])⟩
  · exact ⟨after, hs, .inr ⟨_, _, by rw [hl]⟩⟩

theorem lookup_drew (e : Engine) (files : Files) (root file : Path) (name : String)
    (isDefault : Bool) : Drew files e (e.lookup files root file name isDefault).2 := by
  obtain ⟨after, hs, h | ⟨path, flag, h⟩⟩ := e.lookup_snd files root file name isDefault
  · rw [h]
    exact .of_less hs.resolve (fun _ _ hc => hs.cache ▸ hc) fun _ _ hi => hs.identities ▸ hi
  · rw [h]
    -- The search leaves the cache alone, so the contents tell what they would have told before.
    have hd := after.infer_drew files path name flag none
    refine ⟨hd.resolve.trans hs.resolve, fun place c hc => ?_, fun r identity hi => ?_⟩
    · rw [← hs.cache]
      exact hd.sources place c hc
    · rcases hd.identities r identity hi with hi | ⟨spelled, markup, hspelled, hi⟩
      · rw [hs.identities] at hi
        exact .inl hi
      · rw [classify_fst_of_kept hs.resolve hs.cache] at hi
        exact .inr ⟨spelled, markup, hspelled, hi⟩

/-- What an engine keeps after an operation was kept before, or is drawn from the files now. -/
theorem perform_drew (e : Engine) (files : Files) (operation : Operation) :
    Drew files e (e.perform files operation) := by
  cases operation with
  | extract root file => exact e.extract_drew files root file
  | lookup root file name isDefault => exact e.lookup_drew files root file name isDefault
  | generate file name isDefault d markup =>
    cases d with
    | some d => exact .of_less rfl (fun _ _ hc => hc) fun _ _ hi => hi
    | none => exact e.infer_drew files file name isDefault markup
  | setIndex | clearLookups | clearExtractor =>
    exact .of_less rfl (fun _ _ hc => hc) fun _ _ hi => hi
  | clearMemo => exact .of_less rfl (fun _ _ hc => hc) fun _ _ hi => nomatch hi
  | clear => exact .of_less rfl (fun _ _ hc => nomatch hc) fun _ _ hi => nomatch hi
  | invalidate root file =>
    exact .of_less rfl (fun _ _ hc => Table.get?_of_erase hc) fun _ _ hi => hi

theorem results_of_perform {operation : Operation}
    (h : ∀ root file, operation ≠ .extract root file) {key : Extractor × Place}
    {result : CachedResult}
    (hr : (e.perform files operation).cache.results.get? key = some result) :
    e.cache.results.get? key = some result := by
  have hparse : ∀ cache : SourceCache,
      (cache = e.cache ∨ ∃ target, cache = (e.cache.parse? files target none).2) →
        cache.results = e.cache.results := by
    rintro cache (rfl | ⟨target, rfl⟩)
    · rfl
    · exact e.cache.parse?_results files target none
  cases operation with
  | extract root file => exact absurd rfl (h root file)
  | lookup root file name isDefault =>
    rwa [perform, hparse _ (e.lookup_cache files root file name isDefault)] at hr
  | generate file name isDefault d markup =>
    cases d with
    | some d => exact hr
    | none =>
      rw [← hparse _ (e.infer_cache files file name isDefault markup)]
      exact hr
  | setIndex | clearMemo | clearLookups => exact hr
  | clear => cases hr
  | clearExtractor | invalidate => exact Table.get?_of_keep hr

end Engine

end Exports
