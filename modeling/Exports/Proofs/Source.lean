import Exports.Proofs.Files
import Exports.SourceCache

namespace Exports

theorem Language.ofPath_congr {p q : Path} (h : p.place = q.place) : ofPath p = ofPath q := by
  simp only [ofPath, Path.extension?, Path.fileName?, h]

namespace Files

/-- The source that a file holds now, parsed. -/
def source? (files : Files) (path : Path) : Option ParsedSource := do
  let language ← (Language.ofPath path).toOption
  let content ← (SourceCache.contentOf files path none).toOption
  some (.ofContent language content)

theorem source?_congr {files : Files} {p q : Path} (h : files.Alike p q) :
    files.source? p = files.source? q := by
  have hc : (SourceCache.contentOf files p none).toOption =
      (SourceCache.contentOf files q none).toOption := by
    simp only [SourceCache.contentOf, h.isFile, h.read]
    split <;> rfl
  rw [source?, Language.ofPath_congr h.place, hc, source?]

theorem isFile_of_source? {files : Files} {path : Path} {parsed : ParsedSource}
    (h : files.source? path = some parsed) : files.isFile path = true := by
  obtain ⟨language, -, h⟩ := Option.bind_eq_some_iff.mp h
  obtain ⟨content, hc, -⟩ := Option.bind_eq_some_iff.mp h
  simp only [SourceCache.contentOf] at hc
  split at hc
  · assumption
  · cases hc

end Files

/-- A script that was written is parsed from its text. -/
theorem MemoryFiles.source?_write (m : MemoryFiles) {path : Path} {language : Language}
    (hl : Language.ofPath path = .ok language) (hs : language.isComponentFile = false)
    (content : String) :
    (m.write path content).view.source? path =
      some (.ofScript language language content content.toList none) := by
  simp [Files.source?, SourceCache.contentOf, hl, Except.toOption, view, file?, write,
    Table.get?_insert, ParsedSource.ofContent, hs]

namespace SourceCache

/-- The cached file that is served for a path, if one still may be. -/
def served? (cache : SourceCache) (files : Files) (path : Path) : Option CachedFile :=
  (cache.files.get? path.place).filter fun c => isFresh c (files.stamp path) none

theorem served?_stamp {cache : SourceCache} {files : Files} {path : Path} {c : CachedFile}
    (h : cache.served? files path = some c) :
    cache.files.get? path.place = some c ∧ c.stamp.isSome ∧ c.stamp = files.stamp path := by
  obtain ⟨hg, hf⟩ := Option.filter_eq_some_iff.mp h
  simp only [isFresh, Bool.and_eq_true, decide_eq_true_eq] at hf
  exact ⟨hg, hf⟩

theorem served?_congr {cache cache' : SourceCache} {files : Files} {p q : Path}
    (hg : cache.files.get? p.place = cache'.files.get? q.place)
    (hs : files.stamp p = files.stamp q) : cache.served? files p = cache'.served? files q := by
  rw [served?, hg, hs, served?]

def remember (cache : SourceCache) (files : Files) (path : Path) (parsed : ParsedSource) :
    SourceCache :=
  { cache with files := cache.files.insert path.place ⟨parsed, files.stamp path⟩ }

/-- How a source that is read anew came about: from an older one, if that is of the same script
language. -/
def outcomeOf (cache : SourceCache) (path : Path) (parsed : ParsedSource) : ParseOutcome :=
  if (cache.files.get? path.place).any fun c => c.parsed.scriptLanguage = parsed.scriptLanguage then
    .incremental
  else .full

/-- What a parse can do. -/
inductive Parses (cache : SourceCache) (files : Files) (path : Path) (content : Option String) :
    Except Error (ParsedSource × ParseOutcome) × SourceCache → Prop where
  | unsupported {error : Error} (hl : Language.ofPath path = .error error) :
      Parses cache files path content (.error error, cache)
  | served {language : Language} {c : CachedFile} (hl : Language.ofPath path = .ok language)
      (hc : cache.files.get? path.place = some c)
      (hf : isFresh c (files.stamp path) content = true) :
      Parses cache files path content (.ok (c.parsed, .cached), cache)
  | unreadable {language : Language} {error : Error} (hl : Language.ofPath path = .ok language)
      (hs : ∀ c, cache.files.get? path.place = some c →
        isFresh c (files.stamp path) content = false)
      (he : contentOf files path content = .error error) :
      Parses cache files path content (.error error, cache)
  | read {language : Language} {text : String} (hl : Language.ofPath path = .ok language)
      (hs : ∀ c, cache.files.get? path.place = some c →
        isFresh c (files.stamp path) content = false)
      (ht : contentOf files path content = .ok text) :
      Parses cache files path content
        (.ok (.ofContent language text, cache.outcomeOf path (.ofContent language text)),
          cache.remember files path (.ofContent language text))

theorem parses (cache : SourceCache) (files : Files) (path : Path) (content : Option String) :
    Parses cache files path content (cache.parse files path content) := by
  unfold parse
  cases hl : Language.ofPath path with
  | error error => exact .unsupported hl
  | ok language =>
    dsimp only
    cases hs : (cache.files.get? path.place).filter
        fun c => isFresh c (files.stamp path) content with
    | some c =>
      obtain ⟨hc, hf⟩ := Option.filter_eq_some_iff.mp hs
      exact .served hl hc hf
    | none =>
      have hstale : ∀ c, cache.files.get? path.place = some c →
          isFresh c (files.stamp path) content = false := by
        intro c hc
        simpa using Option.filter_eq_none_iff.mp hs c hc
      cases ht : contentOf files path content with
      | error error => exact .unreadable hl hstale ht
      | ok text => exact .read hl hstale ht

theorem parse_of_fresh {cache : SourceCache} {files : Files} {path : Path}
    {content : Option String} {language : Language} {c : CachedFile}
    (hl : Language.ofPath path = .ok language) (hc : cache.files.get? path.place = some c)
    (hf : isFresh c (files.stamp path) content = true) :
    cache.parse files path content = (.ok (c.parsed, .cached), cache) := by
  have hserved : (cache.files.get? path.place).filter
      (fun c => isFresh c (files.stamp path) content) = some c := by
    simp [hc, hf]
  simp only [parse, hl, hserved]

theorem parse?_snd_cases (cache : SourceCache) (files : Files) (path : Path)
    (content : Option String) :
    (cache.parse? files path content).2 = cache ∨
      ∃ c, (cache.parse? files path content).2 =
        { cache with files := cache.files.insert path.place c } := by
  have hp := cache.parses files path content
  unfold parse?
  generalize cache.parse files path content = result at hp ⊢
  cases hp with
  | unsupported | served | unreadable => exact .inl rfl
  | read => exact .inr ⟨_, rfl⟩

theorem parse?_results (cache : SourceCache) (files : Files) (path : Path)
    (content : Option String) : (cache.parse? files path content).2.results = cache.results := by
  rcases cache.parse?_snd_cases files path content with h | ⟨c, h⟩
  · rw [h]
  · rw [h]

/-- A parse serves what is cached, if it may, and otherwise reads the file and remembers it. -/
theorem parse?_eq (cache : SourceCache) (files : Files) (path : Path) :
    cache.parse? files path none =
      match Language.ofPath path with
      | .error _ => (none, cache)
      | .ok _ =>
        match cache.served? files path, files.source? path with
        | some c, _ => (some c.parsed, cache)
        | none, some parsed => (some parsed, cache.remember files path parsed)
        | none, none => (none, cache) := by
  unfold parse? parse
  cases hl : Language.ofPath path with
  | error e => rfl
  | ok language =>
    have hserved : ((cache.files.get? path.place).filter fun c =>
        isFresh c (files.stamp path) none) = cache.served? files path := rfl
    simp only [hserved]
    cases hs : cache.served? files path with
    | some c => rfl
    | none =>
      cases hc : contentOf files path none with
      | error e => simp [Files.source?, hl, hc, Except.toOption]
      | ok content => simp [Files.source?, hl, hc, Except.toOption, remember]

/-- A new cache remembers the first file that it parses. -/
theorem parse?_new {files : Files} {path : Path} {parsed : ParsedSource}
    (h : files.source? path = some parsed) :
    ({} : SourceCache).parse? files path none = (some parsed, remember {} files path parsed) := by
  obtain ⟨language, hl, -⟩ := Option.bind_eq_some_iff.mp h
  cases hp : Language.ofPath path with
  | error error => simp [hp, Except.toOption] at hl
  | ok language =>
    rw [parse?_eq, hp, h]
    rfl

/-- A file that bears a stamp is served as it was remembered. -/
theorem parse?_remember (cache : SourceCache) {files : Files} {path : Path} {language : Language}
    (parsed : ParsedSource) (hl : Language.ofPath path = .ok language)
    (hs : (files.stamp path).isSome) :
    ((cache.remember files path parsed).parse? files path none).1 = some parsed := by
  have hserved : (cache.remember files path parsed).served? files path =
      some ⟨parsed, files.stamp path⟩ := by
    simp [served?, remember, Table.get?_insert, isFresh, hs]
  rw [parse?_eq, hl, hserved]

theorem parse?_cases (cache : SourceCache) (files : Files) (path : Path) :
    (∃ c, cache.served? files path = some c ∧
      cache.parse? files path none = (some c.parsed, cache)) ∨
    (∃ parsed, cache.served? files path = none ∧ files.source? path = some parsed ∧
      cache.parse? files path none = (some parsed, cache.remember files path parsed)) ∨
    (files.source? path = none ∧ cache.parse? files path none = (none, cache)) := by
  rw [parse?_eq]
  cases hl : Language.ofPath path with
  | error e => exact .inr (.inr ⟨by simp [Files.source?, hl, Except.toOption], rfl⟩)
  | ok language =>
    cases hs : cache.served? files path with
    | some c => exact .inl ⟨c, rfl, rfl⟩
    | none =>
      cases hc : files.source? path with
      | some parsed => exact .inr (.inl ⟨parsed, rfl, rfl, rfl⟩)
      | none => exact .inr (.inr ⟨rfl, rfl⟩)

theorem parse?_fst_congr {cache cache' : SourceCache} {files : Files} {p q : Path}
    (ha : files.Alike p q) (hg : cache.files.get? p.place = cache'.files.get? q.place) :
    (cache.parse? files p none).1 = (cache'.parse? files q none).1 := by
  rw [parse?_eq, parse?_eq, Language.ofPath_congr ha.place, served?_congr hg ha.stamp,
    Files.source?_congr ha]
  cases Language.ofPath q with
  | error e => rfl
  | ok language =>
    cases cache'.served? files q with
    | some c => rfl
    | none => cases files.source? q <;> rfl

/-- Over files that do not change, a parse leaves alone what later ones give. -/
theorem parse?_parse?_fst {files : Files} (h : files.Coherent) (cache : SourceCache) {p q : Path}
    (hp : files.Reached p) (hq : files.Reached q) :
    ((cache.parse? files q none).2.parse? files p none).1 = (cache.parse? files p none).1 := by
  rcases cache.parse?_cases files q with ⟨c, -, he⟩ | ⟨parsed, hs, hc, he⟩ | ⟨-, he⟩
  · rw [he]
  · rw [he]
    by_cases hpq : p.place = q.place
    · -- The file was read for `q`, and reading it for `p` gives the same.
      have ha := h.alike hp hq hpq
      have hn : cache.served? files p = none := by
        rw [served?_congr (by rw [hpq]) ha.stamp, hs]
      have hsource : files.source? p = some parsed := by rw [Files.source?_congr ha, hc]
      have hserved : ∀ c, (cache.remember files q parsed).served? files p = some c →
          c.parsed = parsed := by
        intro c hc
        have hg := (served?_stamp hc).1
        rw [remember, Table.get?_insert, if_pos hpq] at hg
        cases hg
        rfl
      rw [parse?_eq, parse?_eq, hn, hsource]
      cases Language.ofPath p with
      | error e => rfl
      | ok language =>
        cases hr : (cache.remember files q parsed).served? files p with
        | some c => simp [hserved c hr]
        | none => rfl
    · apply parse?_fst_congr (.refl files p)
      rw [remember, Table.get?_insert, if_neg hpq]
  · rw [he]

/-- Where nothing is there, nothing is served either, so there a parse gives nothing at all. -/
theorem parse?_fst_of_not_found {files : Files} (h : files.Stamped) (cache : SourceCache)
    {path : Path} (hp : ¬ files.Found path) : (cache.parse? files path none).1 = none := by
  rcases cache.parse?_cases files path with ⟨c, hs, -⟩ | ⟨parsed, -, hs, -⟩ | ⟨-, he⟩
  · obtain ⟨-, hsome, hstamp⟩ := served?_stamp hs
    exact absurd (h (hstamp ▸ hsome)) hp
  · exact absurd (.inl (Files.isFile_of_source? hs)) hp
  · rw [he]

theorem parse?_parse?_fst_of_stamped {files : Files} (h : files.Coherent) (hs : files.Stamped)
    (cache : SourceCache) (p q : Path) :
    ((cache.parse? files q none).2.parse? files p none).1 = (cache.parse? files p none).1 := by
  by_cases hp : files.Found p
  · rcases cache.parse?_cases files q with ⟨c, -, he⟩ | ⟨parsed, -, hc, -⟩ | ⟨-, he⟩
    · rw [he]
    · exact parse?_parse?_fst h cache (.inr hp) (.inr (.inl (Files.isFile_of_source? hc)))
    · rw [he]
  · rw [parse?_fst_of_not_found hs _ hp, parse?_fst_of_not_found hs _ hp]

end SourceCache

end Exports
