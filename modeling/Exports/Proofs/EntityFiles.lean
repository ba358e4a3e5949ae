import Exports.Proofs.ExtractionTransparency
import Exports.Proofs.FileKeys
import Exports.Proofs.Operation
import Exports.Proofs.Script

namespace Exports

theorem Module.exists_of_mem_componentEntities {m : Module} {parsed : ParsedSource} {x : Entity}
    (hx : x ∈ m.componentEntities parsed) :
    ∃ span rawName, x = m.componentEntity parsed.content span rawName := by
  unfold componentEntities at hx
  split at hx
  · cases hx
  · split at hx
    · cases hx
    · split at hx
      · exact ⟨_, _, List.mem_singleton.mp hx⟩
      · obtain ⟨d, -, hd⟩ := List.mem_filterMap.mp hx
        obtain ⟨name, -, rfl⟩ := Option.map_eq_some_iff.mp hd
        exact ⟨_, _, rfl⟩

theorem Extractor.file_of_mem_entities {extractor : Extractor} {m : Module}
    {parsed : ParsedSource} {x : Entity} (hx : x ∈ extractor.entities m parsed) :
    x.file = m.path := by
  cases extractor with
  | script => exact (Module.minted_of_mem hx).file
  | component =>
    obtain ⟨span, rawName, rfl⟩ := Module.exists_of_mem_componentEntities hx
    rfl

namespace Engine

variable {e : Engine} {files : Files} {root file : Path}

theorem file_of_mem_drawFrom {source : Option ParsedSource} {x : Entity}
    (hx : x ∈ e.drawFrom root file source) :
    x.file = Path.relative root (Path.absolute root file) := by
  obtain ⟨key, parsed, -, -, hx⟩ := mem_drawFrom hx
  rw [Extractor.file_of_mem_entities hx]

/-- What is kept after an extraction that is not served was kept before, for other files, or it is
what was drawn now, with the stamp of the file. -/
theorem results_of_missed (hs : e.isServed files root file = false) {key : Extractor × Place}
    {result : CachedResult}
    (hr : (e.extract files root file).2.cache.results.get? key = some result) :
    e.cache.results.get? key = some result ∧
        (Path.resultKey? root file = some key → e.limits.enabled = false) ∨
      Path.resultKey? root file = some key ∧ e.limits.enabled = true ∧
        (e.extract files root file).1 = some result.entities ∧
        result.stamp = files.stamp (Path.absolute root file) ∧
        (e.cache.parse? files (Path.absolute root file) none).1.isSome := by
  cases hk : Path.resultKey? root file with
  | none =>
    rw [(e.extract_of_no_key files hk).1] at hr
    exact .inl ⟨hr, fun h => nomatch h⟩
  | some own =>
    obtain ⟨extractor, place⟩ := own
    obtain rfl := Path.place_of_resultKey? hk
    obtain ⟨cache, hfiles, hkept, h⟩ := extract_missed_cases hk hs
    have hold : ∀ content,
        cache.parse? files (Path.absolute root file) none =
          (content, e.cacheAtStore files root file) →
        (e.cacheAtStore files root file).results.get? key = some result →
        e.cache.results.get? key = some result ∧
          (some (extractor, (Path.absolute root file).place) = some key →
            e.limits.enabled = false) := by
      intro content ha hr
      have hresults := cache.parse?_results files (Path.absolute root file) none
      rw [ha] at hresults
      rw [hresults] at hr
      obtain ⟨hr, hn⟩ := hkept key result hr
      exact ⟨hr, fun h => hn (Option.some.inj h).symm⟩
    rcases h with ⟨ha, hx⟩ | ⟨parsed, entities, ha, hd, hx⟩
    · rw [hx] at hr
      exact .inl (hold none ha hr)
    · rw [hx] at hr ⊢
      rcases SourceCache.get?_of_setResult hr with hr | ⟨rfl, he, hlt, rfl, hstamp⟩
      · exact .inl (hold _ ha hr)
      · have hp : (cache.parse? files (Path.absolute root file) none).1 =
            (e.cache.parse? files (Path.absolute root file) none).1 :=
          SourceCache.parse?_fst_congr (.refl files _) (by rw [hfiles])
        refine .inr ⟨rfl, he, ?_, ?_, ?_⟩
        · rw [SourceCache.setResult?_enabled he, if_pos hlt, Option.map_some]
        · rw [hstamp, SourceCache.Honest.sourceStamp_of_parse? ha]
        · rw [← hp, ha, Option.isSome_some]

/-- An extraction that is not served: its entities are told from its own root, and they replace
what was kept for the file. -/
structure Draws (e : Engine) (files : Files) (root file : Path) : Prop where
  told : ∀ es, (e.extract files root file).1 = some es →
    ∀ x ∈ es, x.file = Path.relative root (Path.absolute root file)
  results : ∀ key result, (e.extract files root file).2.cache.results.get? key = some result →
    e.cache.results.get? key = some result ∧
        (Path.resultKey? root file = some key → e.limits.enabled = false) ∨
      Path.resultKey? root file = some key ∧ e.limits.enabled = true ∧
        (e.extract files root file).1 = some result.entities

theorem draws_of_missed (hs : e.isServed files root file = false) : e.Draws files root file where
  told es hes x hx := by
    rw [extract_fst_of_missed hs, Option.ite_none_left_eq_some] at hes
    obtain ⟨-, hes⟩ := hes
    cases hes
    exact file_of_mem_drawFrom hx
  results key result hr := by
    rcases results_of_missed hs hr with h | ⟨hk, he, hentities, -, -⟩
    · exact .inl h
    · exact .inr ⟨hk, he, hentities⟩

/-- An extraction is given a result that is kept, and leaves all as it is, or it draws its own. -/
theorem extract_origin (e : Engine) (files : Files) (root file : Path) :
    (e.isServed files root file = true ∧ ∃ key result, Path.resultKey? root file = some key ∧
      e.cache.results.get? key = some result ∧
      e.extract files root file = (some result.entities, e)) ∨
    (e.isServed files root file = false ∧ e.Draws files root file) := by
  cases hs : e.isServed files root file with
  | true =>
    obtain ⟨key, result, hk, hr, -, -, hx⟩ := extract_of_served hs
    exact .inl ⟨rfl, key, result, hk, hr, hx⟩
  | false => exact .inr ⟨rfl, draws_of_missed hs⟩

end Engine

/-- The root of the extraction that drew each result. -/
abbrev Roots := Table (Extractor × Place) Path

namespace Roots

variable {roots : Roots} {e : Engine} {files : Files} {root file : Path}

/-- The root that an extraction tells files from: that of the extraction whose result it is given,
or its own. -/
def drawn (roots : Roots) (e : Engine) (files : Files) (root file : Path) : Path :=
  if e.isServed files root file then ((Path.resultKey? root file).bind roots.get?).getD root
  else root

/-- The roots after an operation: an extraction that is not served leaves its own. -/
def note (roots : Roots) (e : Engine) (files : Files) : Operation → Roots
  | .extract root file => (Path.resultKey? root file).elim roots fun key =>
    if e.limits.enabled && !e.isServed files root file then roots.insert key root else roots
  | _ => roots

theorem drawn_of_served {key : Extractor × Place} {first : Path}
    (hs : e.isServed files root file = true) (hk : Path.resultKey? root file = some key)
    (hr : roots.get? key = some first) : roots.drawn e files root file = first := by
  rw [drawn, if_pos hs, hk, Option.bind_some, hr, Option.getD_some]

theorem drawn_of_missed (hs : e.isServed files root file = false) :
    roots.drawn e files root file = root := by
  simp [drawn, hs]

theorem get?_note_extract (roots : Roots) (e : Engine) (files : Files) (root file : Path)
    (key : Extractor × Place) :
    (roots.note e files (.extract root file)).get? key =
      if Path.resultKey? root file = some key ∧ e.limits.enabled = true ∧
          e.isServed files root file = false then some root
      else roots.get? key := by
  rw [note]
  cases Path.resultKey? root file with
  | none => simp
  | some own =>
    by_cases hkey : own = key
    · subst hkey
      rw [Option.elim_some]
      split <;> simp_all [Table.get?_insert]
    · have hne : key ≠ own := Ne.symm hkey
      rw [Option.elim_some]
      split <;> simp [Table.get?_insert, hkey, hne]

def Tell (roots : Roots) (cache : SourceCache) : Prop :=
  ∀ extractor base file result,
    cache.results.get? (extractor, (Path.absolute base file).place) = some result →
      ∃ root, roots.get? (extractor, (Path.absolute base file).place) = some root ∧
        ∀ x ∈ result.entities, x.file = Path.relative root (Path.absolute base file)

theorem Tell.of_less {cache : SourceCache} (h : roots.Tell e.cache)
    (hr : ∀ key result, cache.results.get? key = some result →
      e.cache.results.get? key = some result) : roots.Tell cache :=
  fun extractor base file result hg => h extractor base file result (hr _ result hg)

theorem Tell.extract (h : roots.Tell e.cache) (files : Files) (root file : Path) :
    (roots.note e files (.extract root file)).Tell (e.extract files root file).2.cache := by
  intro extractor base other result hr
  rw [get?_note_extract]
  rcases e.extract_origin files root file with ⟨hs, _, _, -, -, he⟩ | ⟨hs, hd⟩
  · rw [he] at hr
    rw [if_neg (by simp [hs])]
    exact h extractor base other result hr
  · rcases hd.results _ result hr with ⟨hr, hn⟩ | ⟨hk, he, hentities⟩
    · rw [if_neg fun hnew => by simp [hn hnew.1] at hnew]
      exact h extractor base other result hr
    · -- The result is the one just drawn, for the same path by whatever root it was joined.
      refine ⟨root, if_pos ⟨hk, he, hs⟩, ?_⟩
      rw [← Path.absolute_eq_iff.mpr (Path.place_of_resultKey? hk)]
      exact hd.told _ hentities

theorem Tell.perform (h : roots.Tell e.cache) (files : Files) (operation : Operation) :
    (roots.note e files operation).Tell (e.perform files operation).cache := by
  cases operation with
  | extract root file =>
    rw [Engine.perform]
    exact h.extract files root file
  | _ =>
    rw [note]
    · exact h.of_less fun key result hr => Engine.results_of_perform (by simp) hr
    · simp

end Roots

/-- A new engine that was asked anything, over files that may change in between, with the roots of
its results. -/
inductive Asked (resolve : ResolveSettings) (limits : CacheLimits) : Roots → Engine → Prop where
  | start : Asked resolve limits {} { resolve, limits }
  | perform {roots : Roots} {e : Engine} (h : Asked resolve limits roots e) (files : Files)
      (operation : Operation) :
      Asked resolve limits (roots.note e files operation) (e.perform files operation)

/-- A workspace with a single file, which is a component. -/
def MemoryFiles.ofCard (path : Path) : MemoryFiles :=
  ({} : MemoryFiles).write path "<script setup></script>"

namespace Asked

variable {resolve : ResolveSettings} {limits : CacheLimits} {roots : Roots} {e : Engine}

theorem tell (h : Asked resolve limits roots e) : roots.Tell e.cache := by
  induction h with
  | start =>
    intro extractor base file result hr
    cases hr
  | perform _ files operation ih => exact ih.perform files operation

theorem file_of_extract (h : Asked resolve limits roots e) {files : Files} {root file : Path}
    {es : List Entity} (hes : (e.extract files root file).1 = some es) :
    ∀ x ∈ es, x.file = Path.relative (roots.drawn e files root file) (Path.absolute root file) := by
  rcases e.extract_origin files root file with
    ⟨hs, ⟨extractor, place⟩, result, hk, hr, he⟩ | ⟨hs, hd⟩
  · obtain rfl := Path.place_of_resultKey? hk
    obtain ⟨first, hfirst, htold⟩ := h.tell extractor root file result hr
    rw [he, Option.some.injEq] at hes
    rw [Roots.drawn_of_served hs hk hfirst, ← hes]
    exact htold
  · rw [Roots.drawn_of_missed hs]
    exact hd.told es hes

/-- Entities tell their file from the root that they were drawn with. They tell it from the root
asked for exactly if the file is called the same from both. An extraction gives entities unless the
cache has outgrown the estimate. -/
theorem extract_files_iff (h : Asked resolve limits roots e) (files : Files) (root file : Path) :
    ((e.extract files root file).1 = none ↔ e.isOutgrown files root file = true) ∧
    ∀ es, (e.extract files root file).1 = some es →
      (∀ x ∈ es,
        x.file = Path.relative (roots.drawn e files root file) (Path.absolute root file)) ∧
      ((∀ x ∈ es, x.file = Path.relative root file) ↔
        es = [] ∨ Path.relative (roots.drawn e files root file) (Path.absolute root file) =
          Path.relative root file) := by
  refine ⟨Engine.extract_fst_eq_none_iff, fun es hes => ?_⟩
  have htold := h.file_of_extract hes
  refine ⟨htold, ?_, ?_⟩
  · intro hall
    by_cases hnil : es = []
    · exact .inl hnil
    · obtain ⟨x, hx⟩ := List.exists_mem_of_ne_nil _ hnil
      exact .inr ((htold x hx).symm.trans (hall x hx))
  · rintro (hnil | heq) x hx
    · rw [hnil] at hx
      cases hx
    · exact (htold x hx).trans heq

/-- A component is drawn once, and asked for again under other spellings of root and file. -/
theorem extract_files_same_root :
    ∃ roots e, Asked {} ⟨true, 0, 0, 0⟩ roots e ∧
      e.isServed (MemoryFiles.ofCard ⟨"/repo/src/Card.vue"⟩).view ⟨"/repo/."⟩
        ⟨"/repo/src/Card.vue"⟩ = true ∧
      ∃ es, (e.extract (MemoryFiles.ofCard ⟨"/repo/src/Card.vue"⟩).view ⟨"/repo/."⟩
          ⟨"/repo/src/Card.vue"⟩).1 = some es ∧ es.map (·.id) = ["Component:Card"] ∧
        ∀ x ∈ es, x.file = Path.relative ⟨"/repo/."⟩ ⟨"/repo/src/Card.vue"⟩ := by
  have ha : Asked {} ⟨true, 0, 0, 0⟩ _ _ :=
    .perform .start (MemoryFiles.ofCard ⟨"/repo/src/Card.vue"⟩).view
      (.extract ⟨"/repo"⟩ ⟨"src/Card.vue"⟩)
  obtain ⟨es, hes, hids⟩ := Option.map_eq_some_iff.mp (by decide +kernel :
    ((Engine.perform { resolve := {}, limits := ⟨true, 0, 0, 0⟩ }
      (MemoryFiles.ofCard ⟨"/repo/src/Card.vue"⟩).view (.extract ⟨"/repo"⟩ ⟨"src/Card.vue"⟩)).extract
        (MemoryFiles.ofCard ⟨"/repo/src/Card.vue"⟩).view ⟨"/repo/."⟩ ⟨"/repo/src/Card.vue"⟩).1.map
          (·.map (·.id)) = some ["Component:Card"])
  exact ⟨_, _, ha, by decide +kernel, es, hes, hids,
    ((extract_files_iff ha _ ⟨"/repo/."⟩ ⟨"/repo/src/Card.vue"⟩).2 es hes).2.mpr
      (.inr (by decide +kernel))⟩

/-- A component that was drawn from the workspace keeps its path from there when it is asked for
from the directory it lies in. -/
theorem extract_files_first_root :
    ∃ roots e, Asked {} ⟨true, 0, 0, 0⟩ roots e ∧
      (e.extract (MemoryFiles.ofCard ⟨"/repo/src/Card.vue"⟩).view ⟨"/repo/src"⟩
        ⟨"Card.vue"⟩).1.map (·.map (·.file)) = some ["src/Card.vue"] ∧
      Path.relative ⟨"/repo/src"⟩ ⟨"Card.vue"⟩ = "Card.vue" :=
  ⟨_, _, .perform .start (MemoryFiles.ofCard ⟨"/repo/src/Card.vue"⟩).view
    (.extract ⟨"/repo"⟩ ⟨"src/Card.vue"⟩), by decide +kernel, by decide +kernel⟩

end Asked

end Exports
