import Exports.Proofs.Contents

namespace Exports.Engine

variable {files : Files} {e e' : Engine}

/-- What is found in the index is found alike. -/
structure SameFindings (e e' : Engine) : Prop where
  resolve : e.resolve = e'.resolve
  index : e.index = e'.index
  candidates : ∀ top, (e.candidates top).1 = (e'.candidates top).1
  nearby : ∀ r, (e.searchNearby r).1 = (e'.searchNearby r).1

namespace SameFindings

theorem refl (e : Engine) : SameFindings e e := ⟨rfl, rfl, fun _ => rfl, fun _ => rfl⟩

theorem trans {e'' : Engine} (h : SameFindings e e') (h' : SameFindings e' e'') :
    SameFindings e e'' :=
  ⟨h.resolve.trans h'.resolve, h.index.trans h'.index,
    fun top => (h.candidates top).trans (h'.candidates top),
    fun r => (h.nearby r).trans (h'.nearby r)⟩

end SameFindings

theorem candidates_fst (e : Engine) (top : String) :
    (e.candidates top).1 = (e.memo.candidates.get? top).getD (e.index.candidates top) := by
  unfold candidates
  cases e.memo.candidates.get? top <;> rfl

theorem candidates_cases (e : Engine) (top : String) :
    (∃ es, e.memo.candidates.get? top = some es ∧
      e.candidates top =
        (es, { e with counters.candidateHits := e.counters.candidateHits + 1 })) ∨
    e.memo.candidates.get? top = none ∧
      e.candidates top =
        (e.index.candidates top,
          { e with
            memo.candidates := e.memo.candidates.insert top (e.index.candidates top)
            counters.candidateGathers := e.counters.candidateGathers + 1 }) := by
  cases hg : e.memo.candidates.get? top with
  | some es => exact .inl ⟨es, rfl, by simp only [candidates, hg]⟩
  | none => exact .inr ⟨rfl, by simp only [candidates, hg]⟩

/-- An engine before and after it searched its index. -/
structure Searched (e e' : Engine) : Prop where
  resolve : e'.resolve = e.resolve
  cache : e'.cache = e.cache
  identities : e'.memo.identities = e.memo.identities

namespace Searched

theorem refl (e : Engine) : Searched e e := ⟨rfl, rfl, rfl⟩

theorem trans {e'' : Engine} (h : Searched e e') (h' : Searched e' e'') : Searched e e'' :=
  ⟨h'.resolve.trans h.resolve, h'.cache.trans h.cache, h'.identities.trans h.identities⟩

theorem sameContents (h : Searched e e') : SameContents files e' e :=
  .of_kept h.resolve h.identities fun _ => by rw [h.cache]

theorem infer_fst (h : Searched e e') {file : Path} (hf : files.Reached file) (name : String)
    (isDefault : Bool) (markup : Option Bool) :
    (e'.infer files file name isDefault markup).1 =
      (e.infer files file name isDefault markup).1 :=
  infer_fst_congr h.resolve (fun _ => by rw [h.cache]) hf (by rw [h.identities]) markup

end Searched

/-- An engine before and after it gathered candidates. -/
structure Gathered (e e' : Engine) : Prop extends Searched e e' where
  index : e'.index = e.index
  outcomes : e'.memo.outcomes = e.memo.outcomes
  candidates : ∀ top, (e'.candidates top).1 = (e.candidates top).1

theorem Gathered.refl (e : Engine) : Gathered e e := ⟨.refl e, rfl, rfl, fun _ => rfl⟩

theorem Gathered.trans {e'' : Engine} (h : Gathered e e') (h' : Gathered e' e'') :
    Gathered e e'' :=
  ⟨h.toSearched.trans h'.toSearched, h'.index.trans h.index, h'.outcomes.trans h.outcomes,
    fun top => (h'.candidates top).trans (h.candidates top)⟩

theorem candidates_gathered (e : Engine) (top : String) : Gathered e (e.candidates top).2 := by
  rcases e.candidates_cases top with ⟨es, -, he⟩ | ⟨hg, he⟩
  · rw [he]
    refine ⟨⟨rfl, rfl, rfl⟩, rfl, rfl, fun t => ?_⟩
    rw [candidates_fst, candidates_fst]
  · rw [he]
    refine ⟨⟨rfl, rfl, rfl⟩, rfl, rfl, fun t => ?_⟩
    rw [candidates_fst, candidates_fst, Table.get?_insert]
    split
    · rename_i ht
      rw [ht, hg, Option.getD_some, Option.getD_none]
    · rfl

theorem searchIn_cons (e : Engine) (r : Request) (top : String) (rest : List String) :
    e.searchIn r (top :: rest) =
      match r.choose? e.resolve.entryFiles (e.candidates top).1 with
      | some found => (some found.id, (e.candidates top).2)
      | none => (e.candidates top).2.searchIn r rest := by
  rw [← (e.candidates_gathered top).resolve]
  rfl

/-- A search takes the first directory that has what is meant. -/
theorem searchIn_fst (e : Engine) (r : Request) (tops : List String) :
    (e.searchIn r tops).1 = tops.findSome? fun top =>
      (r.choose? e.resolve.entryFiles (e.candidates top).1).map (·.id) := by
  induction tops generalizing e with
  | nil => rfl
  | cons top rest ih =>
    have hg := e.candidates_gathered top
    rw [searchIn_cons, List.findSome?_cons]
    cases r.choose? e.resolve.entryFiles (e.candidates top).1 with
    | some found => rfl
    | none => simp only [ih, hg.candidates, hg.resolve, Option.map_none]

theorem searchIn_gathered (e : Engine) (r : Request) (tops : List String) :
    Gathered e (e.searchIn r tops).2 := by
  induction tops generalizing e with
  | nil => exact .refl e
  | cons top rest ih =>
    have hg := e.candidates_gathered top
    rw [searchIn_cons]
    cases r.choose? e.resolve.entryFiles (e.candidates top).1 with
    | some found => exact hg
    | none => exact hg.trans (ih _)

/-- The engine after the outcome of a search was kept. -/
def keepOutcome (e : Engine) (r : Request) (outcome : Option String) : Engine :=
  { e with memo.outcomes := e.memo.outcomes.insert r outcome }

theorem searchNearby_cases (e : Engine) (r : Request) :
    (∃ outcome, e.memo.outcomes.get? r = some outcome ∧
      e.searchNearby r =
        (outcome, { e with counters.outcomeHits := e.counters.outcomeHits + 1 })) ∨
    ∃ after, e.memo.outcomes.get? r = none ∧ Gathered e after ∧
      e.searchNearby r =
        ((e.searchIn r r.directories).1,
          after.keepOutcome r (e.searchIn r r.directories).1) := by
  cases hg : e.memo.outcomes.get? r with
  | some outcome => exact .inl ⟨outcome, rfl, by simp only [searchNearby, hg]⟩
  | none =>
    exact .inr ⟨_, rfl, e.searchIn_gathered r r.directories,
      by simp only [searchNearby, hg, keepOutcome]⟩

/-- Only a search that was not made before is made. -/
theorem searchNearby_fst (e : Engine) (r : Request) :
    (e.searchNearby r).1 =
      (e.memo.outcomes.get? r).getD (e.searchIn r r.directories).1 := by
  rcases e.searchNearby_cases r with ⟨outcome, hg, he⟩ | ⟨after, hg, -, he⟩
  · rw [he, hg, Option.getD_some]
  · rw [he, hg, Option.getD_none]

/-- Where nothing is kept, a search nearby goes by the index alone. -/
theorem searchNearby_fst_of_empty (hm : e.memo = {}) (r : Request) :
    (e.searchNearby r).1 = r.nearby? e.resolve.entryFiles e.index := by
  have ho : e.memo.outcomes.get? r = none := by rw [hm, Table.get?_empty]
  have hc : ∀ top, (e.candidates top).1 = e.index.candidates top := by
    intro top
    rw [candidates_fst, hm, Table.get?_empty, Option.getD_none]
  rw [searchNearby_fst, ho, Option.getD_none, searchIn_fst]
  simp only [hc, Request.nearby?]

theorem searchNearby_fst_congr {r : Request} (hr : e.resolve = e'.resolve)
    (hc : ∀ top, (e.candidates top).1 = (e'.candidates top).1)
    (ho : e.memo.outcomes.get? r = e'.memo.outcomes.get? r) :
    (e.searchNearby r).1 = (e'.searchNearby r).1 := by
  rw [searchNearby_fst, searchNearby_fst, ho, searchIn_fst, searchIn_fst]
  simp only [hr, hc]

theorem SameFindings.of_memo (hr : e.resolve = e'.resolve) (hx : e.index = e'.index)
    (hc : e.memo.candidates = e'.memo.candidates) (ho : e.memo.outcomes = e'.memo.outcomes) :
    SameFindings e e' := by
  have hcs : ∀ top, (e.candidates top).1 = (e'.candidates top).1 := by
    intro top
    rw [candidates_fst, candidates_fst, hc, hx]
  exact ⟨hr, hx, hcs, fun r => searchNearby_fst_congr hr hcs (by rw [ho])⟩

theorem searchNearby_sameFindings (e : Engine) (r : Request) :
    SameFindings (e.searchNearby r).2 e := by
  rcases e.searchNearby_cases r with ⟨outcome, -, he⟩ | ⟨after, hg, h, he⟩
  · rw [he]
    exact .of_memo rfl rfl rfl rfl
  · rw [he]
    have hc : ∀ top, ((after.keepOutcome r (e.searchIn r r.directories).1).candidates top).1 =
        (e.candidates top).1 := by
      intro top
      rw [← h.candidates top, candidates_fst, candidates_fst, keepOutcome]
    refine ⟨h.resolve, h.index, hc, fun s => ?_⟩
    by_cases hs : s = r
    · rw [hs, searchNearby_fst, searchNearby_fst, hg]
      simp only [keepOutcome, Table.get?_insert, ↓reduceIte, Option.getD_some, Option.getD_none]
    · refine searchNearby_fst_congr h.resolve hc ?_
      simp only [keepOutcome, Table.get?_insert, if_neg hs, h.outcomes]

theorem searchNearby_searched (e : Engine) (r : Request) : Searched e (e.searchNearby r).2 := by
  rcases e.searchNearby_cases r with ⟨outcome, -, he⟩ | ⟨after, -, h, he⟩
  · rw [he]
    exact ⟨rfl, rfl, rfl⟩
  · rw [he]
    exact ⟨h.resolve, h.cache, h.identities⟩

theorem findIndexed_fst (e : Engine) (r : Request) :
    (e.findIndexed r).1 = (r.inFile? e.resolve.entryFiles e.index).or (e.searchNearby r).1 := by
  unfold findIndexed
  cases r.inFile? e.resolve.entryFiles e.index <;> rfl

theorem findIndexed_snd (e : Engine) (r : Request) :
    (e.findIndexed r).2 = e ∨ (e.findIndexed r).2 = (e.searchNearby r).2 := by
  unfold findIndexed
  cases r.inFile? e.resolve.entryFiles e.index with
  | some id => exact .inl rfl
  | none => exact .inr rfl

theorem findIndexed_same (e : Engine) (r : Request) :
    Searched e (e.findIndexed r).2 ∧ SameFindings (e.findIndexed r).2 e := by
  rcases e.findIndexed_snd r with h | h
  · rw [h]
    exact ⟨.refl e, .refl e⟩
  · rw [h]
    exact ⟨e.searchNearby_searched r, e.searchNearby_sameFindings r⟩

/-- What is inferred never touches what was found in the index. -/
theorem infer_sameFindings (e : Engine) (files : Files) (file : Path) (name : String)
    (isDefault : Bool) (markup : Option Bool) :
    SameFindings (e.infer files file name isDefault markup).2 e := by
  have hc : SameFindings (e.classify files file name isDefault markup).2 e := by
    rcases e.classify_snd files file name isDefault markup with h | ⟨target, -, h⟩
    · rw [h]
      exact .refl e
    · rw [h]
      exact .of_memo rfl rfl rfl rfl
  rcases e.infer_cases files file name isDefault markup with
    ⟨identity, -, hi⟩ | ⟨-, ⟨identity, after, ha, hi⟩ | ⟨after, ha, hi⟩⟩
  · rw [hi]
    exact .of_memo rfl rfl rfl rfl
  · rw [ha] at hc
    rw [hi]
    have hk : SameFindings (after.keepIdentity ⟨file.slashed, name, isDefault⟩ identity) after :=
      .of_memo rfl rfl rfl rfl
    exact hk.trans hc
  · rw [ha] at hc
    rw [hi]
    exact hc

theorem destination_eq (e : Engine) (files : Files) (root file : Path) :
    (∃ entry, files.isDirectory (Path.absolute root file) = true ∧
      files.entryFile? e.resolve.entryFiles (Path.absolute root file) = some entry ∧
      e.destination files root file = (entry, Path.relative root entry)) ∨
    e.destination files root file = (Path.absolute root file, Path.relative root file) := by
  cases hd : files.isDirectory (Path.absolute root file) with
  | false => exact .inr (by simp [destination, hd])
  | true =>
    cases he : files.entryFile? e.resolve.entryFiles (Path.absolute root file) with
    | none => exact .inr (by simp [destination, hd, he])
    | some entry => exact .inl ⟨entry, rfl, rfl, by simp [destination, hd, he]⟩

/-- An import leads to an absolute path that operations come to. -/
theorem destination_reached (e : Engine) (files : Files) {root : Path}
    (hr : root.isAbsolute = true) (file : Path) :
    files.Reached (e.destination files root file).1 ∧
      (e.destination files root file).1.isAbsolute = true := by
  have ha := Path.isAbsolute_absolute hr file
  rcases e.destination_eq files root file with ⟨entry, -, he, h⟩ | h
  · simp only [h]
    exact ⟨.inr (.inl (Files.isFile_of_entryFile? he)), Files.isAbsolute_of_entryFile? ha he⟩
  · simp only [h]
    exact ⟨.absolute files root file, ha⟩

/-- Where the names of root and file are texts, the import leads to such a path. -/
theorem destination_isText (e : Engine) (files : Files) {root file : Path} (hr : root.IsText)
    (hf : file.IsText) : (e.destination files root file).1.IsText := by
  have ht := hr.absolute hf
  rcases e.destination_eq files root file with ⟨entry, -, he, h⟩ | h
  · simp only [h]
    exact Files.isText_of_entryFile? ht he
  · simp only [h]
    exact ht

/-- What the import of a name asks the index for. -/
def request (e : Engine) (files : Files) (root file : Path) (name : String) (isDefault : Bool) :
    Request :=
  ⟨(e.destination files root file).2, name, isDefault || name = "default"⟩

/-- The index answers if it can, and otherwise the content of the file. -/
theorem lookup_cases (e : Engine) (files : Files) (root file : Path) (name : String)
    (isDefault : Bool) :
    (∃ id after, e.findIndexed (e.request files root file name isDefault) = (some id, after) ∧
      e.lookup files root file name isDefault = (.ofIndexed id, after)) ∨
    ∃ after, (e.findIndexed (e.request files root file name isDefault)).1 = none ∧
      Searched e after ∧ SameFindings after e ∧
      e.lookup files root file name isDefault =
        ((after.infer files (e.destination files root file).1 name
            (isDefault || name = "default") none).1.resolved .inferred,
          (after.infer files (e.destination files root file).1 name
            (isDefault || name = "default") none).2) := by
  have hs := e.findIndexed_same (e.request files root file name isDefault)
  rcases hf : e.findIndexed (e.request files root file name isDefault) with ⟨_ | id, after⟩
  · rw [hf] at hs
    have hc : Searched after { after with counters.fallbacks := after.counters.fallbacks + 1 } :=
      ⟨rfl, rfl, rfl⟩
    have hx : SameFindings
        { after with counters.fallbacks := after.counters.fallbacks + 1 } after :=
      .of_memo rfl rfl rfl rfl
    refine .inr ⟨_, rfl, hs.1.trans hc, hx.trans hs.2, ?_⟩
    rw [request] at hf
    simp only [lookup, hf, generate]
  · rw [request] at hf
    exact .inl ⟨id, after, rfl, by simp only [lookup, hf]⟩

/-- What is no directory is asked for by its own key. -/
theorem request_of_not_directory {root file : Path}
    (h : files.isDirectory (Path.absolute root file) = false) (name : String)
    (isDefault : Bool) :
    e.request files root file name isDefault =
      ⟨Path.relative root file, name, isDefault || name = "default"⟩ := by
  rw [request]
  rcases e.destination_eq files root file with ⟨entry, hd, -, -⟩ | hd
  · rw [h] at hd
    cases hd
  · rw [hd]

/-- An entity that the file itself has is the answer. -/
theorem lookup_fst_of_inFile? {root file : Path} {name id : String} {isDefault : Bool}
    (h : (e.request files root file name isDefault).inFile? e.resolve.entryFiles e.index =
      some id) :
    (e.lookup files root file name isDefault).1 = .ofIndexed id := by
  have hf : (e.findIndexed (e.request files root file name isDefault)).1 = some id := by
    rw [findIndexed_fst, h, Option.some_or]
  rcases e.lookup_cases files root file name isDefault with
    ⟨id', after, he, hl⟩ | ⟨after, he, -, -, hl⟩
  · rw [he] at hf
    rw [hl, Option.some.inj hf]
  · rw [he] at hf
    cases hf

theorem destination_congr (h : e.resolve = e'.resolve) (files : Files) (root file : Path) :
    e.destination files root file = e'.destination files root file := by
  rw [destination, h, destination]

/-- Engines that tell and find alike answer alike. -/
theorem lookup_fst_congr {root file : Path} (hr : root.isAbsolute = true) (ht : root.IsText)
    (htf : file.IsText) (hc : SameContents files e e') (hf : SameFindings e e') (name : String)
    (isDefault : Bool) :
    (e.lookup files root file name isDefault).1 = (e'.lookup files root file name isDefault).1 := by
  have hd := destination_congr hc.resolve files root file
  have hq : e.request files root file name isDefault =
      e'.request files root file name isDefault := by rw [request, hd, request]
  have hi : (e.findIndexed (e.request files root file name isDefault)).1 =
      (e'.findIndexed (e'.request files root file name isDefault)).1 := by
    rw [findIndexed_fst, findIndexed_fst, hq, hf.resolve, hf.index, hf.nearby]
  obtain ⟨hreached, habs⟩ := e'.destination_reached files hr file
  have htext := e'.destination_isText files ht htf
  rcases e.lookup_cases files root file name isDefault with
    ⟨id, after, hid, hl⟩ | ⟨after, hid, hs, -, hl⟩ <;>
  rcases e'.lookup_cases files root file name isDefault with
    ⟨id', after', hid', hl'⟩ | ⟨after', hid', hs', -, hl'⟩
  · rw [hid, hid'] at hi
    rw [hl, hl', Option.some.inj hi]
  · rw [hid, hid'] at hi
    cases hi
  · rw [hid, hid'] at hi
    cases hi
  · rw [hl, hl', hd, hs.infer_fst hreached, hs'.infer_fst hreached,
      hc.identities hreached habs htext]

/-- A lookup leaves alone what later ones find. -/
theorem lookup_sameFindings (e : Engine) (files : Files) (root file : Path) (name : String)
    (isDefault : Bool) : SameFindings (e.lookup files root file name isDefault).2 e := by
  rcases e.lookup_cases files root file name isDefault with
    ⟨id, after, hid, hl⟩ | ⟨after, -, -, hx, hl⟩
  · have h := (e.findIndexed_same (e.request files root file name isDefault)).2
    rw [hid] at h
    rw [hl]
    exact h
  · rw [hl]
    exact (after.infer_sameFindings files _ _ _ _).trans hx

/-- A lookup leaves alone what later ones answer. -/
theorem lookup_same (hc : files.Coherent) {root file : Path} (hr : root.isAbsolute = true)
    (ht : root.IsText) (htf : file.IsText) (e : Engine) (name : String) (isDefault : Bool) :
    SameContents files (e.lookup files root file name isDefault).2 e ∧
      SameFindings (e.lookup files root file name isDefault).2 e := by
  refine ⟨?_, e.lookup_sameFindings files root file name isDefault⟩
  obtain ⟨hreached, habs⟩ := e.destination_reached files hr file
  rcases e.lookup_cases files root file name isDefault with
    ⟨id, after, hid, hl⟩ | ⟨after, -, hs, -, hl⟩
  · have h := (e.findIndexed_same (e.request files root file name isDefault)).1
    rw [hid] at h
    rw [hl]
    exact h.sameContents
  · have htext := e.destination_isText files ht htf
    rw [hl]
    exact (infer_sameContents hc hreached habs htext _ _).trans hs.sameContents

theorem lookup_cache (e : Engine) (files : Files) (root file : Path) (name : String)
    (isDefault : Bool) :
    (e.lookup files root file name isDefault).2.cache = e.cache ∨
      ∃ target, (e.lookup files root file name isDefault).2.cache =
        (e.cache.parse? files target none).2 := by
  rcases e.lookup_cases files root file name isDefault with
    ⟨id, after, hid, hl⟩ | ⟨after, -, hs, -, hl⟩
  · have h := (e.findIndexed_same (e.request files root file name isDefault)).1.cache
    rw [hid] at h
    rw [hl]
    exact .inl h
  · rw [hl, ← hs.cache]
    exact after.infer_cache files _ _ _ _

theorem lookup_resolve (e : Engine) (files : Files) (root file : Path) (name : String)
    (isDefault : Bool) :
    (e.lookup files root file name isDefault).2.resolve = e.resolve :=
  (e.lookup_sameFindings files root file name isDefault).resolve

end Exports.Engine
