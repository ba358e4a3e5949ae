import Exports.Proofs.ExtractionTransparency

namespace Exports

namespace ParsedSource

theorem ofContent_language (language : Language) (content : String) :
    (ofContent language content).language = language := by
  unfold ofContent
  split
  · split <;> rfl
  · rfl

theorem ofContent_content (language : Language) (content : String) :
    (ofContent language content).content = content := by
  unfold ofContent
  split
  · split <;> rfl
  · rfl

end ParsedSource

namespace SourceCache

variable {cache after : SourceCache} {files : Files} {m : MemoryFiles} {path : Path}
  {content : Option String} {parsed : ParsedSource} {outcome : ParseOutcome} {error : Error}

theorem outcomeOf_eq_incremental_iff :
    cache.outcomeOf path parsed = .incremental ↔
      ∃ c, cache.files.get? path.place = some c ∧
        c.parsed.scriptLanguage = parsed.scriptLanguage := by
  unfold outcomeOf
  cases cache.files.get? path.place with
  | none => simp
  | some c => by_cases h : c.parsed.scriptLanguage = parsed.scriptLanguage <;> simp [h]

theorem isOk_contentOf :
    (contentOf m.view path content).isOk = true ↔
      content.isSome = true ∨ m.view.isFile path = true := by
  cases content with
  | some text => simp [contentOf, Except.isOk, Except.toBool]
  | none =>
    cases hf : m.file? path with
    | none => simp [contentOf, MemoryFiles.view, hf, Except.isOk, Except.toBool]
    | some file => simp [contentOf, MemoryFiles.view, hf, Except.isOk, Except.toBool]

theorem isSome_stamp : (m.view.stamp path).isSome = m.view.isFile path := by
  rw [MemoryFiles.stamp_eq, Option.isSome_map]
  rfl

/-- A source that is read bears the stamp of its file, so it may be served right after. -/
theorem isFresh_of_read {text : String} (ht : contentOf m.view path content = .ok text)
    (language : Language) :
    isFresh ⟨.ofContent language text, m.view.stamp path⟩ (m.view.stamp path) content = true := by
  cases content with
  | some supplied =>
    cases ht
    simp [isFresh, ParsedSource.ofContent_content]
  | none =>
    have hfile : m.view.isFile path = true := by
      have hok := isOk_contentOf.mp (ht ▸ rfl : (contentOf m.view path none).isOk = true)
      simpa using hok
    simp [isFresh, isSome_stamp, hfile]

/-- A parse gives a source exactly if the format is known and there is something to read. -/
theorem isOk_parse :
    (cache.parse m.view path content).1.isOk = true ↔
      (Language.ofPath path).isOk = true ∧
        (content.isSome = true ∨ m.view.isFile path = true) := by
  have hp := cache.parses m.view path content
  rw [← isOk_contentOf]
  generalize cache.parse m.view path content = result at hp ⊢
  cases hp with
  | unsupported hl => simp [hl, Except.isOk, Except.toBool]
  | served hl hc hf =>
    refine iff_of_true rfl ⟨by rw [hl]; rfl, isOk_contentOf.mpr ?_⟩
    cases content with
    | some text => exact .inl rfl
    | none =>
      -- It bears the stamp of the file, so the file is there.
      simp only [isFresh, Bool.and_eq_true, decide_eq_true_eq] at hf
      rw [hf.2, isSome_stamp] at hf
      exact .inr hf.1
  | unreadable hl hs he => simp [hl, he, Except.isOk, Except.toBool]
  | read hl hs ht => simp [hl, ht, Except.isOk, Except.toBool]

theorem eq_of_parse_error (h : cache.parse files path content = (.error error, after)) :
    after = cache := by
  have hp := cache.parses files path content
  rw [h] at hp
  cases hp with
  | unsupported | unreadable => rfl

/-- Each source that is cached is determined by its path and its content. -/
def Consistent (cache : SourceCache) : Prop :=
  ∀ path c, cache.files.get? path.place = some c →
    Language.ofPath path = .ok c.parsed.language ∧
      c.parsed = .ofContent c.parsed.language c.parsed.content

/-- What is told of a source that a parse gives: it is determined by the path and the content, the
same call right after is served it, and it came about from an older source exactly if there was one
of its script language that might not be served. -/
structure Gives (cache : SourceCache) (files : Files) (path : Path) (content : Option String)
    (parsed : ParsedSource) (outcome : ParseOutcome) (after : SourceCache) : Prop where
  language : Language.ofPath path = .ok parsed.language
  supplied : ∀ text, content = some text → parsed.content = text
  determined : parsed = .ofContent parsed.language parsed.content
  again : after.parse files path content = (.ok (parsed, .cached), after)
  incremental : outcome = .incremental ↔
    ∃ c, cache.files.get? path.place = some c ∧ isFresh c (files.stamp path) content = false ∧
      c.parsed.scriptLanguage = parsed.scriptLanguage

namespace Consistent

theorem empty : Consistent {} := by
  intro path c hc
  cases hc

/-- To forget sources keeps the others consistent. -/
theorem of_less (h : cache.Consistent)
    (hf : ∀ place c, after.files.get? place = some c → cache.files.get? place = some c) :
    after.Consistent :=
  fun path c hc => h path c (hf _ c hc)

theorem remember (h : cache.Consistent) {language : Language}
    (hl : Language.ofPath path = .ok language) (files : Files) (text : String) :
    (cache.remember files path (.ofContent language text)).Consistent := by
  intro other c hc
  rw [SourceCache.remember, Table.get?_insert] at hc
  split at hc
  · rename_i hplace
    cases hc
    rw [ParsedSource.ofContent_language, ParsedSource.ofContent_content]
    exact ⟨(Language.ofPath_congr hplace).trans hl, rfl⟩
  · exact h other c hc

theorem parse (h : cache.Consistent) (files : Files) (path : Path) (content : Option String) :
    (cache.parse? files path content).2.Consistent := by
  have hp := cache.parses files path content
  unfold parse?
  generalize cache.parse files path content = result at hp ⊢
  cases hp with
  | unsupported hl => exact h
  | served hl hc hf => exact h
  | unreadable hl hs he => exact h
  | read hl hs ht => exact h.remember hl files _

theorem gives (h : cache.Consistent)
    (hp : cache.parse m.view path content = (.ok (parsed, outcome), after)) :
    cache.Gives m.view path content parsed outcome after := by
  have hparses := cache.parses m.view path content
  rw [hp] at hparses
  cases hparses with
  | @served language c hl hc hf =>
    obtain ⟨hlanguage, hdetermined⟩ := h path c hc
    refine ⟨hlanguage, ?_, hdetermined, hp, iff_of_false (by simp) ?_⟩
    · rintro text rfl
      simpa [isFresh] using hf
    · rintro ⟨d, hd, hstale, -⟩
      rw [hc] at hd
      cases hd
      rw [hf] at hstale
      cases hstale
  | @read language text hl hs ht =>
    have hlanguage := ParsedSource.ofContent_language language text
    have hcontent := ParsedSource.ofContent_content language text
    refine ⟨by rw [hlanguage, hl], ?_, by rw [hlanguage, hcontent], ?_, ?_⟩
    · rintro supplied rfl
      cases ht
      exact hcontent
    · exact parse_of_fresh hl (by rw [SourceCache.remember, Table.get?_insert, if_pos rfl])
        (isFresh_of_read ht language)
    · rw [outcomeOf_eq_incremental_iff]
      constructor
      · rintro ⟨c, hc, hscript⟩
        exact ⟨c, hc, hs c hc, hscript⟩
      · rintro ⟨c, hc, -, hscript⟩
        exact ⟨c, hc, hscript⟩

end Consistent

end SourceCache

/-- Files in memory that are written and removed while a cache parses them, perhaps with contents
that are supplied. -/
inductive Parsing : MemoryFiles → SourceCache → Prop where
  | start : Parsing {} {}
  | write {m : MemoryFiles} {cache : SourceCache} (h : Parsing m cache) (path : Path)
      (content : String) : Parsing (m.write path content) cache
  | remove {m : MemoryFiles} {cache : SourceCache} (h : Parsing m cache) (path : Path) :
      Parsing (m.remove path) cache
  | clear {m : MemoryFiles} {cache : SourceCache} (h : Parsing m cache) : Parsing m cache.clear
  | clearFile {m : MemoryFiles} {cache : SourceCache} (h : Parsing m cache) (path : Path) :
      Parsing m (cache.clearFile path)
  | parse {m : MemoryFiles} {cache : SourceCache} (h : Parsing m cache) (path : Path)
      (content : Option String) : Parsing m (cache.parse? m.view path content).2

namespace Parsing

variable {m : MemoryFiles} {cache : SourceCache}

theorem consistent (h : Parsing m cache) : cache.Consistent := by
  induction h with
  | start => exact .empty
  | write | remove => assumption
  | clear _ ih =>
    refine ih.of_less ?_
    intro place c hc
    cases hc
  | clearFile _ path ih => exact ih.of_less fun _ _ hc => Table.get?_of_erase hc
  | parse _ path content ih => exact ih.parse _ path content

/-- However files are changed and contents supplied, a parse gives a source exactly if the format is
known and there is something to read; the source is determined by its path and its content, and
served if the call is repeated. A parse that fails leaves the cache as it was. -/
theorem parse_gives (h : Parsing m cache) (path : Path) (content : Option String) :
    (∀ parsed outcome after, cache.parse m.view path content = (.ok (parsed, outcome), after) →
      cache.Gives m.view path content parsed outcome after) ∧
    (∀ error after, cache.parse m.view path content = (.error error, after) → after = cache) ∧
    ((cache.parse m.view path content).1.isOk = true ↔
      (Language.ofPath path).isOk = true ∧
        (content.isSome = true ∨ m.view.isFile path = true)) :=
  ⟨fun _ _ _ hp => h.consistent.gives hp, fun _ _ he => SourceCache.eq_of_parse_error he,
    SourceCache.isOk_parse⟩

/-- A component that changed its script language between two parses and was removed after. A content
that is supplied for it is parsed from the later one of its sources, and without a content there is
nothing to read. -/
theorem parse_gives_after_removal :
    let card : Path := ⟨"/repo/Card.vue"⟩
    let text := "<script setup lang='ts'></script>"
    let written := ({} : MemoryFiles).write card "<script></script>"
    let changed := written.write card "<script lang='ts'></script>"
    let m := changed.remove card
    let cache := ((SourceCache.parse? {} written.view card none).2.parse? changed.view card none).2
    Parsing m cache ∧
      (∃ parsed after, cache.parse m.view card (some text) = (.ok (parsed, .incremental), after) ∧
        parsed.content = text ∧ parsed.scriptLanguage = .typescript ∧
        after.parse m.view card (some text) = (.ok (parsed, .cached), after)) ∧
      ∃ error, cache.parse m.view card none = (.error error, cache) := by
  intro card text written changed m cache
  have h : Parsing m cache :=
    .remove (.parse (.write (.parse (.write .start card _) card none) card _) card none) card
  refine ⟨h, ?_, ?_⟩
  · have hgives := (parse_gives h card (some text)).1
    have hfound : (cache.parse m.view card (some text)).1.toOption.map
        (fun r => (r.2, r.1.scriptLanguage)) = some (.incremental, .typescript) := by
      decide +kernel
    rcases hp : cache.parse m.view card (some text) with ⟨error | ⟨parsed, outcome⟩, after⟩
    · rw [hp] at hfound
      cases hfound
    · rw [hp] at hfound
      obtain ⟨rfl, hscript⟩ := Prod.mk.inj (Option.some.inj hfound)
      have hg := hgives parsed .incremental after hp
      exact ⟨parsed, after, rfl, hg.supplied text rfl, hscript, hg.again⟩
  · obtain ⟨-, hfails, hok⟩ := parse_gives h card none
    have hgone : m.view.isFile card = false := by decide +kernel
    rcases hp : cache.parse m.view card none with ⟨error | result, after⟩
    · rw [hfails error after hp]
      exact ⟨error, rfl⟩
    · rw [hp] at hok
      simpa [hgone] using hok.mp rfl

end Parsing

end Exports
