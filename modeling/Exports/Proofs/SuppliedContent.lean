import Exports.Proofs.EntityFiles

namespace Exports

namespace SourceCache

variable {cache : SourceCache} {files : Files} {path : Path} {c : CachedFile}

/-- Whether the source that is cached for a path gives way to a content that is supplied. -/
def givesWay (cache : SourceCache) (path : Path) (content : Option String) : Bool :=
  (cache.files.get? path.place).any fun c => content.any fun text => c.parsed.content ≠ text

theorem content_of_givesWay {text : String} (hc : cache.files.get? path.place = some c)
    (h : cache.givesWay path (some text) = false) : c.parsed.content = text := by
  simpa [givesWay, hc] using h

theorem parse?_supplied_cached (hc : cache.files.get? path.place = some c) (files : Files) :
    (cache.parse? files path (some c.parsed.content)).2 = cache := by
  cases hl : Language.ofPath path with
  | error error => simp only [parse?, parse, hl]
  | ok language =>
    have hserved : cache.parse files path (some c.parsed.content) =
        (.ok (c.parsed, .cached), cache) := parse_of_fresh hl hc (by simp [isFresh])
    rw [parse?, hserved]

theorem get?_parse?_of_ne (cache : SourceCache) (files : Files) (content : Option String)
    {place : Place} (h : place ≠ path.place) :
    (cache.parse? files path content).2.files.get? place = cache.files.get? place := by
  rcases cache.parse?_snd_cases files path content with hs | ⟨c, hs⟩
  · rw [hs]
  · rw [hs, Table.get?_insert, if_neg h]

theorem get?_of_parse?_fst {parsed : ParsedSource}
    (h : (cache.parse? files path none).1 = some parsed) :
    (cache.parse? files path none).2.files.get? path.place =
      some ⟨parsed, files.stamp path⟩ := by
  rcases cache.parse?_cases files path with ⟨c, hs, he⟩ | ⟨source, -, -, he⟩ | ⟨-, he⟩
  · obtain ⟨hg, -, hstamp⟩ := served?_stamp hs
    rw [he] at h ⊢
    cases h
    rw [hg, ← hstamp]
  · rw [he] at h ⊢
    cases h
    rw [remember, Table.get?_insert, if_pos rfl]
  · rw [he] at h
    cases h

theorem parse?_files_congr {cache' : SourceCache} (h : cache'.files = cache.files) :
    (cache'.parse? files path none).2.files = (cache.parse? files path none).2.files := by
  have hserved : cache'.served? files path = cache.served? files path :=
    served?_congr (by rw [h]) rfl
  rw [parse?_eq, parse?_eq, hserved]
  cases Language.ofPath path with
  | error error => exact h
  | ok language =>
    cases cache.served? files path with
    | some c => exact h
    | none =>
      cases files.source? path with
      | none => exact h
      | some parsed => simp only [remember, h]

/-- A source that may be served stays, unless it gives way to a content that is supplied. -/
theorem get?_parse?_of_fresh {m : MemoryFiles} (hc : cache.files.get? path.place = some c)
    (hsome : c.stamp.isSome) (hstamp : m.view.stamp path = c.stamp) {p : Path}
    {content : Option String} (hg : path.place = p.place → cache.givesWay p content = false) :
    (cache.parse? m.view p content).2.files.get? path.place = some c := by
  cases content with
  | some text =>
    by_cases hp : path.place = p.place
    · rw [hp] at hc
      obtain rfl := content_of_givesWay hc (hg hp)
      rw [parse?_supplied_cached hc, hp, hc]
    · rw [cache.get?_parse?_of_ne m.view _ hp, hc]
  | none =>
    rcases cache.parse?_cases m.view p with ⟨_, -, he⟩ | ⟨parsed, hs, -, he⟩ | ⟨-, he⟩
    · rw [he, hc]
    · rw [he, remember, Table.get?_insert, if_neg, hc]
      -- The file would have been served and not read.
      intro hp
      rw [← served?_congr (by rw [hp]) (m.view_alike hp).stamp, served?, hc] at hs
      simp [isFresh, hsome, hstamp] at hs
    · rw [he, hc]

end SourceCache

namespace Engine

variable {e e' : Engine} {files : Files} {root file other : Path}

theorem drawFrom_of_resolve (hr : e'.resolve = e.resolve) (root file : Path)
    (source : Option ParsedSource) :
    e'.drawFrom root file source = e.drawFrom root file source := by
  rw [drawFrom, hr, drawFrom]

theorem drawFrom_spelled (e : Engine) (hp : Path.absolute root other = Path.absolute root file)
    (source : Option ParsedSource) :
    e.drawFrom root other source = e.drawFrom root file source := by
  have hk : Path.resultKey? root other = Path.resultKey? root file := by
    rw [Path.resultKey?, hp, Path.resultKey?]
  rw [drawFrom, hk, hp, drawFrom]

theorem files_of_missed (hs : e.isServed files root file = false) :
    (e.extract files root file).2.cache.files =
      (e.cache.parse? files (Path.absolute root file) none).2.files := by
  cases hk : Path.resultKey? root file with
  | none =>
    obtain ⟨hx, hp⟩ := e.extract_of_no_key files hk
    rw [hx, hp]
  | some key =>
    obtain ⟨cache, hfiles, -, h⟩ := extract_missed_cases hk hs
    rw [← SourceCache.parse?_files_congr hfiles]
    rcases h with ⟨ha, hx⟩ | ⟨parsed, entities, ha, -, hx⟩
    · rw [hx, ha]
    · rw [hx, ha, SourceCache.setResult_files]

end Engine

/-- What a result was drawn from, and whether that has given way to a supplied content since. -/
structure Origin where
  source : ParsedSource
  isReplaced : Bool

/-- The origin of each result. -/
abbrev Origins := Extractor × Place → Option Origin

namespace Origins

/-- The origins after an extraction: one that is not served draws from what a parse gives. -/
def draw (origins : Origins) (e : Engine) (files : Files) (root file : Path) : Origins :=
  fun key =>
    if Path.resultKey? root file = some key ∧ e.limits.enabled = true ∧
        e.isServed files root file = false then
      (e.cache.parse? files (Path.absolute root file) none).1.map (⟨·, false⟩)
    else origins key

/-- The origins after a parse that is perhaps supplied a content. -/
def supply (origins : Origins) (cache : SourceCache) (path : Path) (content : Option String) :
    Origins :=
  fun key => (origins key).map fun o =>
    { o with isReplaced := o.isReplaced || (key.2 = path.place && cache.givesWay path content) }

/-- The source that an extraction is about: the origin of the result that it is given, otherwise
what a parse gives. -/
def source? (origins : Origins) (e : Engine) (files : Files) (root file : Path) :
    Option ParsedSource :=
  if e.isServed files root file then
    ((Path.resultKey? root file).bind origins).map (·.source)
  else (e.cache.parse? files (Path.absolute root file) none).1

/-- Whether an extraction is given a result whose origin was replaced. -/
def isReplaced (origins : Origins) (e : Engine) (files : Files) (root file : Path) : Bool :=
  e.isServed files root file && ((Path.resultKey? root file).bind origins).any (·.isReplaced)

end Origins

/-- Files in memory that are written and removed while a new engine extracts them, with one root,
and parses them, perhaps with contents that are supplied. -/
inductive Editing (root : Path) (resolve : ResolveSettings) (limits : CacheLimits) :
    Origins → MemoryFiles → Engine → Prop where
  | start : Editing root resolve limits (fun _ => none) {} { resolve, limits }
  | write {origins : Origins} {m : MemoryFiles} {e : Engine}
      (h : Editing root resolve limits origins m e) (path : Path) (content : String) :
      Editing root resolve limits origins (m.write path content) e
  | remove {origins : Origins} {m : MemoryFiles} {e : Engine}
      (h : Editing root resolve limits origins m e) (path : Path) :
      Editing root resolve limits origins (m.remove path) e
  | extract {origins : Origins} {m : MemoryFiles} {e : Engine}
      (h : Editing root resolve limits origins m e) (file : Path) :
      Editing root resolve limits (origins.draw e m.view root file) m
        (e.extract m.view root file).2
  | parse {origins : Origins} {m : MemoryFiles} {e : Engine}
      (h : Editing root resolve limits origins m e) (path : Path) (content : Option String) :
      Editing root resolve limits (origins.supply e.cache path content) m
        { e with cache := (e.cache.parse? m.view path content).2 }

/-- While the file bears the stamp of a result, the origin of the result is what is cached, unless
it was replaced. -/
structure Origin.Lasts (o : Origin) (m : MemoryFiles) (cache : SourceCache) (path : Path)
    (stamp : Option Stamp) : Prop where
  past : ∃ tick, tick ≤ m.clock ∧ stamp = some (.written tick)
  cached : o.isReplaced = false → m.view.stamp path = stamp →
    cache.files.get? path.place = some ⟨o.source, stamp⟩

namespace Origin.Lasts

variable {o : Origin} {m : MemoryFiles} {cache cache' : SourceCache} {path : Path}
  {stamp : Option Stamp}

theorem write (h : o.Lasts m cache path stamp) (p : Path) (content : String) :
    o.Lasts (m.write p content) cache path stamp := by
  obtain ⟨tick, hle, rfl⟩ := h.past
  refine ⟨⟨tick, Nat.le_succ_of_le hle, rfl⟩, fun hr hnow => h.cached hr ?_⟩
  rw [← hnow, MemoryFiles.stamp_eq, MemoryFiles.stamp_eq, MemoryFiles.file?_write,
    if_neg (MemoryFiles.place_ne_of_write hle hnow)]

theorem remove (h : o.Lasts m cache path stamp) (p : Path) :
    o.Lasts (m.remove p) cache path stamp := by
  obtain ⟨tick, hle, rfl⟩ := h.past
  refine ⟨⟨tick, hle, rfl⟩, fun hr hnow => h.cached hr ?_⟩
  rw [← hnow, MemoryFiles.stamp_eq, MemoryFiles.stamp_eq, MemoryFiles.file?_remove,
    if_neg (MemoryFiles.place_ne_of_remove hnow)]

theorem of_files (h : o.Lasts m cache path stamp) (hf : cache'.files = cache.files) :
    o.Lasts m cache' path stamp :=
  ⟨h.past, fun hr hnow => by rw [hf, h.cached hr hnow]⟩

/-- A parse takes the origin away only by what it is supplied. -/
theorem parse (h : o.Lasts m cache path stamp) (p : Path) (content : Option String) :
    Origin.Lasts
      { o with isReplaced := o.isReplaced || (path.place = p.place && cache.givesWay p content) }
      m (cache.parse? m.view p content).2 path stamp := by
  refine ⟨h.past, fun hr hnow => ?_⟩
  obtain ⟨ho, hg⟩ := Bool.or_eq_false_iff.mp hr
  obtain ⟨tick, -, rfl⟩ := h.past
  apply SourceCache.get?_parse?_of_fresh (h.cached ho hnow) rfl hnow
  intro hp
  simpa [hp] using hg

theorem parse_none (h : o.Lasts m cache path stamp) (p : Path) :
    o.Lasts m (cache.parse? m.view p none).2 path stamp := by
  have hnone : cache.givesWay p none = false := by simp [SourceCache.givesWay]
  have hparse := h.parse p none
  rwa [hnone, Bool.and_false, Bool.or_false] at hparse

theorem now (ht : m.Timed) {parsed : ParsedSource}
    (hp : (cache.parse? m.view path none).1 = some parsed) :
    Origin.Lasts ⟨parsed, false⟩ m (cache.parse? m.view path none).2 path
      (m.view.stamp path) := by
  refine ⟨?_, fun _ _ => SourceCache.get?_of_parse?_fst hp⟩
  have hfound : m.view.isFile path = true := by
    rcases cache.parse?_cases m.view path with ⟨c, hs, -⟩ | ⟨_, -, hs, -⟩ | ⟨-, he⟩
    · obtain ⟨-, hsome, hstamp⟩ := SourceCache.served?_stamp hs
      rwa [hstamp, MemoryFiles.stamp_eq, Option.isSome_map] at hsome
    · exact Files.isFile_of_source? hs
    · rw [he] at hp
      cases hp
  obtain ⟨file, hf⟩ := Option.isSome_iff_exists.mp hfound
  exact ⟨file.tick, ht _ file hf, by rw [MemoryFiles.stamp_eq, hf, Option.map_some]⟩

end Origin.Lasts

/-- Every result is what is drawn from its origin. -/
def Origins.Explain (origins : Origins) (m : MemoryFiles) (root : Path) (e : Engine) : Prop :=
  ∀ file key result, Path.resultKey? root file = some key →
    e.cache.results.get? key = some result →
      ∃ o, origins key = some o ∧ result.entities = e.drawFrom root file (some o.source) ∧
        o.Lasts m e.cache (Path.absolute root file) result.stamp

namespace Origins.Explain

variable {origins : Origins} {m : MemoryFiles} {root : Path} {e : Engine}

theorem write (h : origins.Explain m root e) (path : Path) (content : String) :
    origins.Explain (m.write path content) root e := by
  intro file key result hk hr
  obtain ⟨o, ho, hd, hl⟩ := h file key result hk hr
  exact ⟨o, ho, hd, hl.write path content⟩

theorem remove (h : origins.Explain m root e) (path : Path) :
    origins.Explain (m.remove path) root e := by
  intro file key result hk hr
  obtain ⟨o, ho, hd, hl⟩ := h file key result hk hr
  exact ⟨o, ho, hd, hl.remove path⟩

theorem parse (h : origins.Explain m root e) (path : Path) (content : Option String) :
    (origins.supply e.cache path content).Explain m root
      { e with cache := (e.cache.parse? m.view path content).2 } := by
  intro file key result hk hr
  simp only [SourceCache.parse?_results] at hr
  obtain ⟨o, ho, hd, hl⟩ := h file key result hk hr
  obtain ⟨extractor, place⟩ := key
  obtain rfl := Path.place_of_resultKey? hk
  refine ⟨_, by rw [supply, ho, Option.map_some], ?_, hl.parse path content⟩
  rw [hd, ← Engine.drawFrom_of_resolve]
  rfl

theorem extract (h : origins.Explain m root e) (ht : m.Timed) (file : Path) :
    (origins.draw e m.view root file).Explain m root (e.extract m.view root file).2 := by
  cases hs : e.isServed m.view root file with
  | true =>
    obtain ⟨_, _, -, -, -, -, hx⟩ := Engine.extract_of_served hs
    intro other key result hk hr
    rw [hx] at hr ⊢
    rw [draw, if_neg (by simp [hs])]
    exact h other key result hk hr
  | false =>
    have hresolve := (e.extract_drew m.view root file).resolve
    have hfiles := Engine.files_of_missed hs
    intro other key result hk hr
    rcases Engine.results_of_missed hs hr with ⟨hr, hn⟩ | ⟨hown, he, hentities, hstamp, hsome⟩
    · obtain ⟨o, ho, hd, hl⟩ := h other key result hk hr
      refine ⟨o, ?_, ?_, (hl.parse_none (Path.absolute root file)).of_files hfiles⟩
      · rw [draw, if_neg fun hnew => by simp [hn hnew.1] at hnew, ho]
      · rw [hd, Engine.drawFrom_of_resolve hresolve]
    · -- The result is the one just drawn, for the same path however it is spelled.
      obtain ⟨parsed, hp⟩ := Option.isSome_iff_exists.mp hsome
      obtain ⟨extractor, place⟩ := key
      have hplace := (Path.place_of_resultKey? hk).trans (Path.place_of_resultKey? hown).symm
      have hpath : Path.absolute root other = Path.absolute root file :=
        Path.absolute_eq_iff.mpr hplace
      refine ⟨⟨parsed, false⟩, ?_, ?_, ?_⟩
      · rw [draw, if_pos ⟨hown, he, hs⟩, hp, Option.map_some]
      · rw [Engine.extract_fst_of_missed hs, hp, Option.ite_none_left_eq_some] at hentities
        rw [← Option.some.inj hentities.2, Engine.drawFrom_of_resolve hresolve,
          Engine.drawFrom_spelled e hpath]
      · rw [hpath, hstamp]
        exact (Origin.Lasts.now ht hp).of_files hfiles

theorem extract_fst (h : origins.Explain m root e) (file : Path) :
    (e.extract m.view root file).1 =
      if e.isOutgrown m.view root file then none
      else some (e.drawFrom root file (origins.source? e m.view root file)) := by
  cases hs : e.isServed m.view root file with
  | true =>
    obtain ⟨key, result, hk, hr, -, -, hx⟩ := Engine.extract_of_served hs
    obtain ⟨o, ho, hd, -⟩ := h file key result hk hr
    rw [hx, hd, source?, if_pos hs, hk, Option.bind_some, ho, Option.map_some,
      Engine.not_isOutgrown_of_served hs]
    rfl
  | false =>
    have hdraws : origins.source? e m.view root file =
        (e.cache.parse? m.view (Path.absolute root file) none).1 := by
      simp [source?, hs]
    rw [Engine.extract_fst_of_missed hs, hdraws]

/-- An origin that was not replaced is what a parse gives. -/
theorem source?_eq_parse? (h : origins.Explain m root e) (file : Path)
    (hn : origins.isReplaced e m.view root file = false) :
    origins.source? e m.view root file =
      (e.cache.parse? m.view (Path.absolute root file) none).1 := by
  cases hs : e.isServed m.view root file with
  | false => rw [source?, if_neg (by simp [hs])]
  | true =>
    obtain ⟨key, result, hk, hr, hsome, hstamp, -⟩ := Engine.extract_of_served hs
    obtain ⟨o, ho, -, hl⟩ := h file key result hk hr
    have hreplaced : o.isReplaced = false := by simpa [isReplaced, hs, hk, ho] using hn
    have hcached := hl.cached hreplaced hstamp
    have hserved : e.cache.served? m.view (Path.absolute root file) =
        some ⟨o.source, result.stamp⟩ := by
      rw [SourceCache.served?, hcached]
      simp [SourceCache.isFresh, ← hstamp, hsome]
    obtain ⟨language, hl, -⟩ := Path.exists_of_resultKey? hk
    rw [source?, if_pos hs, hk, Option.bind_some, ho, Option.map_some, SourceCache.parse?_eq, hl,
      hserved]

end Origins.Explain

namespace Editing

variable {root : Path} {resolve : ResolveSettings} {limits : CacheLimits} {origins : Origins}
  {m : MemoryFiles} {e : Engine}

theorem timed (h : Editing root resolve limits origins m e) : m.Timed := by
  induction h with
  | start =>
    intro place file hf
    cases hf
  | write _ path content ih => exact ih.write path content
  | remove _ path ih => exact ih.remove path
  | extract | parse => assumption

theorem explain (h : Editing root resolve limits origins m e) : origins.Explain m root e := by
  induction h with
  | start =>
    intro file key result hk hr
    cases hr
  | write _ path content ih => exact ih.write path content
  | remove _ path ih => exact ih.remove path
  | extract h file ih => exact ih.extract h.timed file
  | parse _ path content ih => exact ih.parse path content

/-- However files are edited and contents supplied, an extraction gives what is drawn from its
origin: from what a parse gave when the result was drawn. Unless the origin has given way to a
supplied content since, a parse still gives it. It does not return if the cache has outgrown the
estimate. -/
theorem extract_from_origin (h : Editing root resolve limits origins m e) (file : Path) :
    (e.extract m.view root file).1 =
        (if e.isOutgrown m.view root file then none
          else some (e.drawFrom root file (origins.source? e m.view root file))) ∧
      (origins.isReplaced e m.view root file = false →
        (e.extract m.view root file).1 =
          if e.isOutgrown m.view root file then none
          else some (e.drawFrom root file
            (e.cache.parse? m.view (Path.absolute root file) none).1)) := by
  have hdrawn := h.explain.extract_fst file
  refine ⟨hdrawn, fun hn => ?_⟩
  rw [hdrawn, h.explain.source?_eq_parse? file hn]

/-- A component that is supplied for an empty file, and extracted twice. -/
theorem extract_supplied :
    ∃ origins m e, Editing ⟨"/repo"⟩ {} ⟨true, 0, 0, 0⟩ origins m e ∧
      e.isServed m.view ⟨"/repo"⟩ ⟨"src/Card.vue"⟩ = true ∧
      (e.extract m.view ⟨"/repo"⟩ ⟨"src/Card.vue"⟩).1.map (·.map (·.id)) =
        some ["Component:Card"] ∧
      (e.extract m.view ⟨"/repo"⟩ ⟨"src/Card.vue"⟩).1 =
        some (e.drawFrom ⟨"/repo"⟩ ⟨"src/Card.vue"⟩
          (e.cache.parse? m.view (Path.absolute ⟨"/repo"⟩ ⟨"src/Card.vue"⟩) none).1) := by
  have hs : Editing ⟨"/repo"⟩ {} ⟨true, 0, 0, 0⟩ _ _ _ :=
    .extract (.parse (.write .start ⟨"/repo/src/Card.vue"⟩ "") ⟨"/repo/src/Card.vue"⟩
      (some "<script setup></script>")) ⟨"src/Card.vue"⟩
  have hdrawn := (extract_from_origin hs ⟨"src/Card.vue"⟩).2 (by decide +kernel)
  rw [if_neg (by decide +kernel)] at hdrawn
  exact ⟨_, _, _, hs, by decide +kernel, by decide +kernel, hdrawn⟩

/-- A component that was extracted is served on after an empty content was supplied for it. -/
theorem extract_not_supplied :
    ∃ origins m e, Editing ⟨"/repo"⟩ {} ⟨true, 0, 0, 0⟩ origins m e ∧
      (e.extract m.view ⟨"/repo"⟩ ⟨"src/Card.vue"⟩).1.map (·.map (·.id)) =
        some ["Component:Card"] ∧
      e.drawFrom ⟨"/repo"⟩ ⟨"src/Card.vue"⟩
        (e.cache.parse? m.view (Path.absolute ⟨"/repo"⟩ ⟨"src/Card.vue"⟩) none).1 = [] :=
  ⟨_, _, _, .parse (.extract (.write .start ⟨"/repo/src/Card.vue"⟩ "<script setup></script>")
    ⟨"src/Card.vue"⟩) ⟨"/repo/src/Card.vue"⟩ (some ""), by decide +kernel, by decide +kernel⟩

end Editing

end Exports
