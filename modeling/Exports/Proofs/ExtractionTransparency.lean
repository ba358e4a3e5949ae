import Exports.Proofs.Extract
import Exports.Proofs.Lookup

namespace Exports

namespace Files

def entities (files : Files) (resolve : ResolveSettings) (root file : Path) : List Entity :=
  match Language.ofPath (Path.absolute root file), files.source? (Path.absolute root file) with
  | .ok language, some parsed =>
    (Extractor.ofLanguage language).entities
      ⟨Path.relative root (Path.absolute root file), resolve⟩ parsed
  | _, _ => []

variable {files : Files} {resolve : ResolveSettings} {root file : Path}

theorem entities_unsupported {error : Error}
    (h : Language.ofPath (Path.absolute root file) = .error error) :
    files.entities resolve root file = [] := by
  unfold entities
  generalize Path.absolute root file = path at h ⊢
  simp only [h]

theorem entities_unparsed (h : files.source? (Path.absolute root file) = none) :
    files.entities resolve root file = [] := by
  unfold entities
  rw [h]
  cases Language.ofPath (Path.absolute root file) <;> rfl

theorem entities_parsed {language : Language} {parsed : ParsedSource}
    (hl : Language.ofPath (Path.absolute root file) = .ok language)
    (hs : files.source? (Path.absolute root file) = some parsed) :
    files.entities resolve root file =
      (Extractor.ofLanguage language).entities
        ⟨Path.relative root (Path.absolute root file), resolve⟩ parsed := by
  unfold entities
  generalize Path.absolute root file = path at hl hs ⊢
  simp only [hl, hs]

end Files

namespace MemoryFiles

/-- Every file was written at some time up to now. -/
def Timed (m : MemoryFiles) : Prop :=
  ∀ place file, m.files.get? place = some file → file.tick ≤ m.clock

/-- What was told of a source, and the stamp that the file bore then: as long as it bears this
stamp, the same can be told of its source. -/
structure Dated (m : MemoryFiles) (path : Path) (stamp : Option Stamp)
    (told : ParsedSource → Prop) : Prop where
  past : ∃ tick, tick ≤ m.clock ∧ stamp = some (.written tick)
  holds : m.view.stamp path = stamp → ∃ parsed, m.view.source? path = some parsed ∧ told parsed

variable {m : MemoryFiles} {path p : Path} {stamp : Option Stamp} {told : ParsedSource → Prop}

theorem Timed.write (h : m.Timed) (p : Path) (content : String) : (m.write p content).Timed := by
  intro place file hf
  simp only [MemoryFiles.write, Table.get?_insert] at hf ⊢
  split at hf
  · cases hf
    exact Nat.le_refl _
  · exact Nat.le_succ_of_le (h place file hf)

theorem Timed.remove (h : m.Timed) (p : Path) : (m.remove p).Timed := by
  intro place file hf
  exact h place file (Table.get?_of_erase hf)

theorem file?_write (m : MemoryFiles) (p path : Path) (content : String) :
    (m.write p content).file? path =
      if path.place = p.place then some ⟨content, m.clock + 1⟩ else m.file? path :=
  Table.get?_insert ..

theorem file?_remove (m : MemoryFiles) (p path : Path) :
    (m.remove p).file? path = if path.place = p.place then none else m.file? path :=
  Table.get?_erase ..

theorem stamp_eq (m : MemoryFiles) (path : Path) :
    m.view.stamp path = (m.file? path).map fun file => .written file.tick := rfl

theorem source?_congr {m' : MemoryFiles} (h : m.file? path = m'.file? path) :
    m.view.source? path = m'.view.source? path := by
  have hfile : m.view.isFile path = m'.view.isFile path := congrArg Option.isSome h
  have hread : m.view.read path = m'.view.read path := by simp only [view, h]
  have hcontent : (SourceCache.contentOf m.view path none).toOption =
      (SourceCache.contentOf m'.view path none).toOption := by
    simp only [SourceCache.contentOf, hfile, hread]
  rw [Files.source?, hcontent, Files.source?]

/-- A source that can be told of has a stamp. -/
theorem Dated.now (ht : m.Timed) {parsed : ParsedSource} (hs : m.view.source? path = some parsed)
    (htold : told parsed) : Dated m path (m.view.stamp path) told := by
  refine ⟨?_, fun _ => ⟨parsed, hs, htold⟩⟩
  obtain ⟨file, hf⟩ := Option.isSome_iff_exists.mp (Files.isFile_of_source? hs)
  exact ⟨file.tick, ht _ file hf, by rw [stamp_eq, hf, Option.map_some]⟩

/-- A file that bears an earlier stamp after a write was not written: the new stamp is later than
every stamp so far. -/
theorem place_ne_of_write {tick : Nat} (hle : tick ≤ m.clock) {content : String}
    (h : (m.write p content).view.stamp path = some (.written tick)) : path.place ≠ p.place := by
  intro hp
  rw [stamp_eq, file?_write, if_pos hp] at h
  simp only [Option.map_some, Option.some.injEq, Stamp.written.injEq] at h
  omega

theorem place_ne_of_remove {tick : Nat}
    (h : (m.remove p).view.stamp path = some (.written tick)) : path.place ≠ p.place := by
  intro hp
  rw [stamp_eq, file?_remove, if_pos hp] at h
  cases h

theorem Dated.write (h : Dated m path stamp told) (p : Path) (content : String) :
    Dated (m.write p content) path stamp told := by
  obtain ⟨tick, hle, rfl⟩ := h.past
  refine ⟨⟨tick, Nat.le_succ_of_le hle, rfl⟩, fun hnow => ?_⟩
  have hf : (m.write p content).file? path = m.file? path := by
    rw [file?_write, if_neg (place_ne_of_write hle hnow)]
  rw [stamp_eq, hf, ← stamp_eq] at hnow
  rw [source?_congr hf]
  exact h.holds hnow

theorem Dated.remove (h : Dated m path stamp told) (p : Path) :
    Dated (m.remove p) path stamp told := by
  obtain ⟨tick, hle, rfl⟩ := h.past
  refine ⟨⟨tick, hle, rfl⟩, fun hnow => ?_⟩
  have hf : (m.remove p).file? path = m.file? path := by
    rw [file?_remove, if_neg (place_ne_of_remove hnow)]
  rw [stamp_eq, hf, ← stamp_eq] at hnow
  rw [source?_congr hf]
  exact h.holds hnow

end MemoryFiles

/-- A cache over files in memory whose sources and results are those of the files that still bear
their stamps. Results are drawn with one root. -/
structure SourceCache.Honest (cache : SourceCache) (m : MemoryFiles) (resolve : ResolveSettings)
    (root : Path) : Prop where
  sources : ∀ path c, cache.files.get? path.place = some c →
    m.Dated path c.stamp (· = c.parsed)
  results : ∀ extractor file result,
    cache.results.get? (extractor, (Path.absolute root file).place) = some result →
      m.Dated (Path.absolute root file) result.stamp fun parsed =>
        extractor.entities ⟨Path.relative root (Path.absolute root file), resolve⟩ parsed =
          result.entities

namespace SourceCache.Honest

variable {cache cache' : SourceCache} {m : MemoryFiles} {resolve : ResolveSettings} {root : Path}

theorem empty (m : MemoryFiles) (resolve : ResolveSettings) (root : Path) :
    Honest {} m resolve root := by
  constructor
  · intro path c h
    cases h
  · intro extractor file result h
    cases h

theorem write (h : cache.Honest m resolve root) (p : Path) (content : String) :
    cache.Honest (m.write p content) resolve root :=
  ⟨fun path c hc => (h.sources path c hc).write p content,
    fun extractor file result hr => (h.results extractor file result hr).write p content⟩

theorem remove (h : cache.Honest m resolve root) (p : Path) :
    cache.Honest (m.remove p) resolve root :=
  ⟨fun path c hc => (h.sources path c hc).remove p,
    fun extractor file result hr => (h.results extractor file result hr).remove p⟩

theorem of_less (h : cache.Honest m resolve root)
    (hf : ∀ place c, cache'.files.get? place = some c → cache.files.get? place = some c)
    (hr : ∀ key r, cache'.results.get? key = some r → cache.results.get? key = some r) :
    cache'.Honest m resolve root :=
  ⟨fun path c hc => h.sources path c (hf _ c hc),
    fun extractor file result hc => h.results extractor file result (hr _ result hc)⟩

theorem parse?_fst (h : cache.Honest m resolve root) (path : Path) :
    (cache.parse? m.view path none).1 = m.view.source? path := by
  rcases cache.parse?_cases m.view path with ⟨c, hs, he⟩ | ⟨parsed, -, hs, he⟩ | ⟨hs, he⟩
  · obtain ⟨hg, -, hstamp⟩ := served?_stamp hs
    obtain ⟨parsed, hp, rfl⟩ := (h.sources path c hg).holds hstamp.symm
    rw [he, hp]
  · rw [he, hs]
  · rw [he, hs]

theorem parse?_snd (h : cache.Honest m resolve root) (ht : m.Timed) (p : Path) :
    (cache.parse? m.view p none).2.Honest m resolve root := by
  rcases cache.parse?_cases m.view p with ⟨c, -, he⟩ | ⟨parsed, -, hs, he⟩ | ⟨-, he⟩
  · rw [he]
    exact h
  · rw [he]
    refine ⟨fun path c hc => ?_, h.results⟩
    simp only [remember, Table.get?_insert] at hc
    split at hc
    · rename_i hp
      cases hc
      have ha := m.view_alike hp
      rw [← ha.stamp]
      exact .now ht (Files.source?_congr ha ▸ hs) rfl
    · exact h.sources path c hc
  · rw [he]
    exact h

/-- After a parse, the stamp of the source is the stamp of the file. -/
theorem sourceStamp_of_parse? {files : Files} {path : Path} {parsed : ParsedSource}
    {after : SourceCache} (h : cache.parse? files path none = (some parsed, after)) :
    after.sourceStamp files path = files.stamp path := by
  rcases cache.parse?_cases files path with ⟨c, hs, he⟩ | ⟨source, -, -, he⟩ | ⟨-, he⟩
  · obtain ⟨hg, hsome, hstamp⟩ := served?_stamp hs
    rw [he] at h
    obtain ⟨-, rfl⟩ := Prod.mk.inj h
    rw [sourceStamp, hg, Option.bind_some, hstamp, Option.or_self]
  · rw [he] at h
    obtain ⟨-, rfl⟩ := Prod.mk.inj h
    rw [sourceStamp, remember, Table.get?_insert, if_pos rfl, Option.bind_some, Option.or_self]
  · rw [he] at h
    cases (Prod.mk.inj h).1

end SourceCache.Honest

namespace Engine

variable {m : MemoryFiles} {root : Path} {e : Engine}

/-- Without a result to serve, the file is parsed, and the result bears the stamp of the file. -/
theorem extract_honest_of_miss {cache : SourceCache} {language : Language} {file : Path}
    (ht : m.Timed) (h : cache.Honest m e.resolve root)
    (hl : Language.ofPath (Path.absolute root file) = .ok language)
    (hg : e.cache.getResult e.limits m.view (.ofLanguage language) (Path.absolute root file) =
      (none, cache)) :
    (e.extract m.view root file).2.cache.Honest m e.resolve root := by
  have hsource := h.parse?_fst (Path.absolute root file)
  have hafter := h.parse?_snd ht (Path.absolute root file)
  rcases hp : cache.parse? m.view (Path.absolute root file) none with ⟨_ | parsed, after⟩
  · rw [hp] at hafter
    rw [extract_unparsed hl hg hp]
    exact hafter
  · rw [hp] at hsource hafter
    rw [extract_parsed hl hg hp rfl]
    refine ⟨fun path c hc => ?_, fun extractor other result hr => ?_⟩
    · rw [SourceCache.setResult_files] at hc
      exact hafter.sources path c hc
    · rcases SourceCache.get?_of_setResult hr with hr | ⟨hkey, -, -, hentities, hstamp⟩
      · exact hafter.results extractor other result hr
      · obtain ⟨rfl, hplace⟩ := Prod.mk.inj hkey
        have hpath : Path.absolute root other = Path.absolute root file := by
          rw [← Path.plain_absolute root other, Path.plain_congr hplace, Path.plain_absolute]
        rw [hstamp, SourceCache.Honest.sourceStamp_of_parse? hp, hpath]
        exact .now ht hsource.symm hentities.symm

theorem extract_honest (ht : m.Timed) (h : e.cache.Honest m e.resolve root) (file : Path) :
    (e.extract m.view root file).2.cache.Honest m e.resolve root := by
  cases hl : Language.ofPath (Path.absolute root file) with
  | error error =>
    rw [extract_unsupported hl]
    exact h
  | ok language =>
    rcases e.cache.getResult_cases e.limits m.view (.ofLanguage language)
      (Path.absolute root file) with ⟨result, -, -, -, hg⟩ | hg | hg
    · rw [extract_served hl hg]
      exact h
    · exact extract_honest_of_miss ht h hl hg
    · refine extract_honest_of_miss ht ?_ hl hg
      exact h.of_less (fun _ _ hc => hc) fun _ _ hr => Table.get?_of_erase hr

theorem drawFrom_source? (e : Engine) (files : Files) (root file : Path) :
    e.drawFrom root file (files.source? (Path.absolute root file)) =
      files.entities e.resolve root file := by
  cases hl : Language.ofPath (Path.absolute root file) with
  | error error =>
    rw [drawFrom, Path.resultKey?, hl, Files.entities_unsupported hl]
    rfl
  | ok language =>
    cases hs : files.source? (Path.absolute root file) with
    | none => rw [drawFrom_none, Files.entities_unparsed hs]
    | some parsed => rw [drawFrom_some (Path.resultKey?_ok hl), Files.entities_parsed hl hs]

/-- An extraction over an honest cache draws from the files as they are, if it returns. -/
theorem extract_fst_honest (h : e.cache.Honest m e.resolve root) (file : Path) :
    (e.extract m.view root file).1 =
      if e.isOutgrown m.view root file then none
      else some (m.view.entities e.resolve root file) := by
  cases hs : e.isServed m.view root file with
  | false => rw [extract_fst_of_missed hs, h.parse?_fst, drawFrom_source?]
  | true =>
    obtain ⟨key, result, hk, hr, -, hstamp, hx⟩ := extract_of_served hs
    obtain ⟨language, hl, rfl⟩ := Path.exists_of_resultKey? hk
    obtain ⟨parsed, hsource, hd⟩ := (h.results _ file result hr).holds hstamp
    rw [hx, not_isOutgrown_of_served hs, Files.entities_parsed hl hsource, hd]
    rfl

theorem extractAll_honest (ht : m.Timed) (h : e.cache.Honest m e.resolve root)
    (all : List Path) :
    (e.extractAll m.view root all).2.resolve = e.resolve ∧
      (e.extractAll m.view root all).2.cache.Honest m e.resolve root := by
  induction all generalizing e with
  | nil => exact ⟨rfl, h⟩
  | cons file rest ih =>
    obtain ⟨after, he, -⟩ := e.extract_snd m.view root file
    have hr : (e.extract m.view root file).2.resolve = e.resolve := by rw [he]
    have hx := extract_honest ht h file
    rcases e.extractAll_snd_cons m.view root file rest with hall | hall
    · rw [hall]
      exact ⟨hr, hx⟩
    · rw [← hr] at hx
      rw [hall, ← hr]
      exact ih hx

end Engine

/-- Files in memory and a new engine, each worked on in any order. Extractions have one root. -/
inductive Session (root : Path) (resolve : ResolveSettings) (limits : CacheLimits) :
    MemoryFiles → Engine → Prop where
  | start : Session root resolve limits {} { resolve, limits }
  | write {m : MemoryFiles} {e : Engine} (h : Session root resolve limits m e) (path : Path)
      (content : String) : Session root resolve limits (m.write path content) e
  | remove {m : MemoryFiles} {e : Engine} (h : Session root resolve limits m e) (path : Path) :
      Session root resolve limits (m.remove path) e
  | extract {m : MemoryFiles} {e : Engine} (h : Session root resolve limits m e) (file : Path) :
      Session root resolve limits m (e.extract m.view root file).2
  | extractAll {m : MemoryFiles} {e : Engine} (h : Session root resolve limits m e)
      (all : List Path) : Session root resolve limits m (e.extractAll m.view root all).2
  | setIndex {m : MemoryFiles} {e : Engine} (h : Session root resolve limits m e)
      (es : List Entity) : Session root resolve limits m (e.setIndex es)
  | lookup {m : MemoryFiles} {e : Engine} (h : Session root resolve limits m e)
      (base file : Path) (name : String) (isDefault : Bool) :
      Session root resolve limits m (e.lookup m.view base file name isDefault).2
  | generate {m : MemoryFiles} {e : Engine} (h : Session root resolve limits m e) (file : Path)
      (name : String) (isDefault : Bool) (d : Option Declaration) (markup : Option Bool) :
      Session root resolve limits m (e.generate m.view file name isDefault d markup).2
  | clearMemo {m : MemoryFiles} {e : Engine} (h : Session root resolve limits m e) :
      Session root resolve limits m e.clearMemo
  | clearLookups {m : MemoryFiles} {e : Engine} (h : Session root resolve limits m e) :
      Session root resolve limits m e.clearLookups
  | clear {m : MemoryFiles} {e : Engine} (h : Session root resolve limits m e) :
      Session root resolve limits m e.clear
  | clearExtractor {m : MemoryFiles} {e : Engine} (h : Session root resolve limits m e)
      (extractor : Extractor) :
      Session root resolve limits m { e with cache := (e.cache.clearExtractor extractor).2 }
  | invalidate {m : MemoryFiles} {e : Engine} (h : Session root resolve limits m e)
      (base file : Path) : Session root resolve limits m (e.invalidate base file)

namespace Session

variable {root : Path} {resolve : ResolveSettings} {limits : CacheLimits} {m : MemoryFiles}
  {e : Engine}

theorem timed (h : Session root resolve limits m e) : m.Timed := by
  induction h with
  | start =>
    intro place file hf
    cases hf
  | write _ path content ih => exact ih.write path content
  | remove _ path ih => exact ih.remove path
  | extract | extractAll | setIndex | lookup | generate | clearMemo | clearLookups | clear
  | clearExtractor | invalidate => assumption

theorem honest_of_parse {e' : Engine} (ht : m.Timed)
    (h : e.resolve = resolve ∧ e.cache.Honest m resolve root) (hr : e'.resolve = e.resolve)
    (hc : e'.cache = e.cache ∨ ∃ target, e'.cache = (e.cache.parse? m.view target none).2) :
    e'.resolve = resolve ∧ e'.cache.Honest m resolve root := by
  refine ⟨hr.trans h.1, ?_⟩
  rcases hc with hc | ⟨target, hc⟩
  · rw [hc]
    exact h.2
  · rw [hc]
    exact h.2.parse?_snd ht target

theorem honest (h : Session root resolve limits m e) :
    e.resolve = resolve ∧ e.cache.Honest m resolve root := by
  induction h with
  | start => exact ⟨rfl, .empty _ _ _⟩
  | write _ path content ih => exact ⟨ih.1, ih.2.write path content⟩
  | remove _ path ih => exact ⟨ih.1, ih.2.remove path⟩
  | @extract m e h file ih =>
    obtain ⟨rfl, hc⟩ := ih
    obtain ⟨after, he, -⟩ := e.extract_snd m.view root file
    exact ⟨by rw [he], Engine.extract_honest h.timed hc file⟩
  | extractAll h all ih =>
    obtain ⟨rfl, hc⟩ := ih
    exact Engine.extractAll_honest h.timed hc all
  | setIndex _ es ih => exact ih
  | @lookup m e h base file name isDefault ih =>
    exact honest_of_parse h.timed ih (e.lookup_resolve m.view base file name isDefault)
      (e.lookup_cache m.view base file name isDefault)
  | @generate m e h file name isDefault d markup ih =>
    cases d with
    | some d => exact ih
    | none =>
      exact honest_of_parse h.timed ih
        (e.infer_sameFindings m.view file name isDefault markup).resolve
        (e.infer_cache m.view file name isDefault markup)
  | clearMemo _ ih => exact ih
  | clearLookups _ ih => exact ih
  | clear _ ih =>
    refine ⟨ih.1, ih.2.of_less ?_ ?_⟩
    · intro place c hc
      cases hc
    · intro key r hr
      cases hr
  | clearExtractor _ extractor ih =>
    exact ⟨ih.1, ih.2.of_less (fun _ _ hc => hc) fun _ _ hr => Table.get?_of_keep hr⟩
  | invalidate _ base file ih =>
    exact ⟨ih.1, ih.2.of_less (fun _ _ hc => Table.get?_of_erase hc)
      fun _ _ hr => Table.get?_of_keep hr⟩

/-- In every session, an extraction gives the entities of the file as it is now, as a new engine
does, or it does not return, since the cache has outgrown the estimate. A file that is not there or
of no known format has no entities. -/
theorem extract_eq_new (h : Session root resolve limits m e) (file : Path) :
    (({ resolve, limits } : Engine).extract m.view root file).1 =
        some (m.view.entities resolve root file) ∧
      (e.extract m.view root file).1 =
        (if e.isOutgrown m.view root file then none
          else some (m.view.entities resolve root file)) ∧
      (m.view.isFile (Path.absolute root file) = false →
        (e.extract m.view root file).1 = some []) ∧
      ((Language.ofPath (Path.absolute root file)).toOption = none →
        (e.extract m.view root file).1 = some []) := by
  obtain ⟨rfl, hc⟩ := h.honest
  have hnow := Engine.extract_fst_honest hc file
  have hnew := Engine.extract_fst_honest (e := { resolve := e.resolve, limits })
    (.empty m e.resolve root) file
  rw [Engine.not_isOutgrown_of_new] at hnew
  have hnone : m.view.source? (Path.absolute root file) = none →
      (e.extract m.view root file).1 = some [] := by
    intro hs
    have hout := Engine.not_isOutgrown_of_unparsed ((hc.parse?_fst _).trans hs)
    rw [hnow, hout, Files.entities_unparsed hs]
    rfl
  refine ⟨hnew, hnow, fun hf => hnone ?_, fun hl => hnone ?_⟩
  · cases hs : m.view.source? (Path.absolute root file) with
    | none => rfl
    | some parsed =>
      rw [Files.isFile_of_source? hs] at hf
      cases hf
  · rw [Files.source?, hl]
    rfl

/-- Of two components that were extracted, one is written anew and one removed. -/
theorem extract_eq_new_after_changes :
    ∃ m e, Session ⟨"/repo"⟩ {} ⟨true, 0, 0, 0⟩ m e ∧
      e.cache.results.size = 2 ∧ m.view.isFile ⟨"/repo/Panel.vue"⟩ = false ∧
      (e.extract m.view ⟨"/repo"⟩ ⟨"Card.vue"⟩).1 =
        some (m.view.entities {} ⟨"/repo"⟩ ⟨"Card.vue"⟩) ∧
      (m.view.entities {} ⟨"/repo"⟩ ⟨"Card.vue"⟩).map (·.id) = ["Component:Card"] ∧
      (e.extract m.view ⟨"/repo"⟩ ⟨"Panel.vue"⟩).1 = some [] := by
  have hs : Session ⟨"/repo"⟩ {} ⟨true, 0, 0, 0⟩ _ _ :=
    .remove (.write (.extractAll (.write (.write .start ⟨"/repo/Card.vue"⟩ "")
      ⟨"/repo/Panel.vue"⟩ "<script setup></script>") [⟨"Card.vue"⟩, ⟨"Panel.vue"⟩])
      ⟨"/repo/Card.vue"⟩ "<script setup></script>") ⟨"/repo/Panel.vue"⟩
  have hrewritten := (extract_eq_new hs ⟨"Card.vue"⟩).2.1
  rw [if_neg (by decide +kernel)] at hrewritten
  have hremoved := (extract_eq_new hs ⟨"Panel.vue"⟩).2.2.1 (by decide +kernel)
  exact ⟨_, _, hs, by decide +kernel, by decide +kernel, hrewritten, by decide +kernel, hremoved⟩

/-- Where each file is estimated at a quarter of what a word holds, the fourth of four empty
components cannot be extracted. -/
theorem extract_ne_new :
    let limits : CacheLimits := ⟨true, 0xFFFFFFFFFFFFFFFF, 0x4000000000000000, 0⟩
    ∃ m e, Session ⟨"/repo"⟩ {} limits m e ∧
      (e.extract m.view ⟨"/repo"⟩ ⟨"d.vue"⟩).1 = none ∧
      (({ resolve := {}, limits } : Engine).extract m.view ⟨"/repo"⟩ ⟨"d.vue"⟩).1 = some [] :=
  ⟨_, _, .extractAll (.write (.write (.write (.write .start ⟨"/repo/a.vue"⟩ "") ⟨"/repo/b.vue"⟩ "")
    ⟨"/repo/c.vue"⟩ "") ⟨"/repo/d.vue"⟩ "") [⟨"a.vue"⟩, ⟨"b.vue"⟩, ⟨"c.vue"⟩],
    by decide +kernel, by decide +kernel⟩

end Session

end Exports
