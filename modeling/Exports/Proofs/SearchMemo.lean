import Exports.Proofs.Operation
import Mathlib.Data.Finset.Card

namespace Exports

/-- Whether an operation makes an engine forget what it found in the index. -/
def Operation.forgets : Operation → Bool
  | .clearMemo | .clearLookups | .clear => true
  | _ => false

namespace Engine

variable {e e' : Engine} {r : Request}

/-- The directories that a search consults: those up to the first that has what is meant. -/
def visited (e : Engine) (r : Request) : List String → List String
  | [] => []
  | top :: rest =>
    match r.choose? e.resolve.entryFiles (e.candidates top).1 with
    | some _ => [top]
    | none => top :: (e.candidates top).2.visited r rest

/-- The directories that are consulted when a request is searched for. -/
def consulted (e : Engine) (r : Request) : List String :=
  if (e.memo.outcomes.get? r).isSome then [] else e.visited r r.directories

/-- The request that an operation searches the directories for. -/
def searched? (e : Engine) (files : Files) : Operation → Option Request
  | .lookup root file name isDefault =>
    let r := e.request files root file name isDefault
    match r.inFile? e.resolve.entryFiles e.index with
    | some _ => none
    | none => some r
  | _ => none

theorem searchNearby_of_kept {outcome : Option String}
    (h : e.memo.outcomes.get? r = some outcome) :
    e.searchNearby r =
      (outcome, { e with counters.outcomeHits := e.counters.outcomeHits + 1 }) := by
  simp only [searchNearby, h]

theorem searchNearby_of_new (h : e.memo.outcomes.get? r = none) :
    e.searchNearby r =
      ((e.searchIn r r.directories).1,
        (e.searchIn r r.directories).2.keepOutcome r (e.searchIn r r.directories).1) := by
  simp only [searchNearby, h, keepOutcome]

theorem get?_outcomes_searchNearby (e : Engine) (r s : Request) :
    (e.searchNearby r).2.memo.outcomes.get? s =
      if s = r then some (e.searchNearby r).1 else e.memo.outcomes.get? s := by
  cases h : e.memo.outcomes.get? r with
  | some outcome =>
    rw [searchNearby_of_kept h]
    split
    · rename_i hs
      rw [hs, h]
    · rfl
  | none =>
    rw [searchNearby_of_new h, keepOutcome, Table.get?_insert,
      (e.searchIn_gathered r r.directories).outcomes]

/-- Two engines that remember the same of their searches, and made the same effort for it. -/
structure SameSearches (e e' : Engine) : Prop where
  candidates : e'.memo.candidates = e.memo.candidates
  outcomes : e'.memo.outcomes = e.memo.outcomes
  gathers : e'.counters.candidateGathers = e.counters.candidateGathers

theorem extract_sameSearches (e : Engine) (files : Files) (root file : Path) :
    SameSearches e (e.extract files root file).2 := by
  obtain ⟨after, he, -⟩ := e.extract_snd files root file
  rw [he]
  exact ⟨rfl, rfl, rfl⟩

theorem infer_sameSearches (e : Engine) (files : Files) (file : Path) (name : String)
    (isDefault : Bool) (markup : Option Bool) :
    SameSearches e (e.infer files file name isDefault markup).2 := by
  have hc : SameSearches e (e.classify files file name isDefault markup).2 := by
    rcases e.classify_snd files file name isDefault markup with h | ⟨target, -, h⟩ <;>
    · rw [h]
      exact ⟨rfl, rfl, rfl⟩
  rcases e.infer_cases files file name isDefault markup with
    ⟨identity, -, hi⟩ | ⟨-, ⟨identity, after, ha, hi⟩ | ⟨after, ha, hi⟩⟩
  · rw [hi]
    exact ⟨rfl, rfl, rfl⟩
  · rw [ha] at hc
    rw [hi]
    exact ⟨hc.candidates, hc.outcomes, hc.gathers⟩
  · rw [ha] at hc
    rw [hi]
    exact hc

theorem lookup_sameSearches (e : Engine) (files : Files) (root file : Path) (name : String)
    (isDefault : Bool) :
    SameSearches (e.findIndexed (e.request files root file name isDefault)).2
      (e.lookup files root file name isDefault).2 := by
  rcases hf : e.findIndexed (e.request files root file name isDefault) with ⟨_ | id, after⟩
  · rw [request] at hf
    simp only [lookup, hf, generate]
    have hi := infer_sameSearches { after with counters.fallbacks := after.counters.fallbacks + 1 }
      files (e.destination files root file).1 name (isDefault || name = "default") none
    exact ⟨hi.candidates, hi.outcomes, hi.gathers⟩
  · rw [request] at hf
    simp only [lookup, hf]
    exact ⟨rfl, rfl, rfl⟩

/-- The directories are those that were consulted since the count of gathers was this. -/
structure Consulted (since : Nat) (tops : Finset String) (e : Engine) : Prop where
  gathers : e.counters.candidateGathers = since + tops.card
  known : ∀ top, (e.memo.candidates.get? top).isSome ↔ top ∈ tops

namespace Consulted

variable {since : Nat} {tops : Finset String}

theorem of_same (h : Consulted since tops e) (hs : SameSearches e e') :
    Consulted since tops e' :=
  ⟨hs.gathers.trans h.gathers, fun top => by rw [hs.candidates, h.known]⟩

theorem keepOutcome (h : Consulted since tops e) (r : Request) (outcome : Option String) :
    Consulted since tops (e.keepOutcome r outcome) :=
  ⟨h.gathers, h.known⟩

theorem mem_of_kept (h : Consulted since tops e) {top : String} {es : List Entity}
    (hk : e.memo.candidates.get? top = some es) : top ∈ tops :=
  (h.known top).mp (by rw [hk, Option.isSome_some])

theorem gathers_candidates (h : Consulted since tops e) (top : String) :
    (e.candidates top).2.counters.candidateGathers =
      e.counters.candidateGathers + if top ∈ tops then 0 else 1 := by
  rcases e.candidates_cases top with ⟨es, hg, he⟩ | ⟨hg, he⟩
  · rw [he, if_pos (h.mem_of_kept hg)]
    rfl
  · have hm : top ∉ tops := by
      rw [← h.known top, hg]
      simp
    rw [he, if_neg hm]

theorem candidates (h : Consulted since tops e) (top : String) :
    Consulted since (insert top tops) (e.candidates top).2 := by
  refine ⟨?_, fun t => ?_⟩
  · rw [h.gathers_candidates top, h.gathers]
    by_cases hm : top ∈ tops
    · rw [if_pos hm, Finset.insert_eq_of_mem hm, Nat.add_zero]
    · rw [if_neg hm, Finset.card_insert_of_notMem hm, Nat.add_assoc]
  · rw [Finset.mem_insert]
    rcases e.candidates_cases top with ⟨es, hg, he⟩ | ⟨hg, he⟩
    · rw [he]
      simp only [h.known t]
      exact ⟨.inr, fun ht => ht.elim (fun heq => heq ▸ h.mem_of_kept hg) id⟩
    · rw [he]
      simp only [Table.get?_insert]
      split
      · rename_i heq
        exact iff_of_true rfl (.inl heq)
      · rename_i hne
        rw [h.known t, or_iff_right hne]

/-- A search consults one directory after the other, up to an early end. -/
theorem searchIn (h : Consulted since tops e) (r : Request) (directories : List String) :
    Consulted since (tops ∪ (e.visited r directories).toFinset)
      (e.searchIn r directories).2 := by
  induction directories generalizing e tops with
  | nil =>
    rw [visited, List.toFinset_nil, Finset.union_empty]
    exact h
  | cons top rest ih =>
    have hc := h.candidates top
    rw [searchIn_cons, visited]
    cases r.choose? e.resolve.entryFiles (e.candidates top).1 with
    | some found =>
      simp only [List.toFinset_cons, List.toFinset_nil, Finset.union_insert, Finset.union_empty]
      exact hc
    | none =>
      simp only [List.toFinset_cons, Finset.union_insert, ← Finset.insert_union]
      exact ih hc

theorem searchNearby (h : Consulted since tops e) (r : Request) :
    Consulted since (tops ∪ (e.consulted r).toFinset) (e.searchNearby r).2 := by
  cases ho : e.memo.outcomes.get? r with
  | some outcome =>
    rw [searchNearby_of_kept ho, Engine.consulted, ho, if_pos Option.isSome_some,
      List.toFinset_nil, Finset.union_empty]
    exact ⟨h.gathers, h.known⟩
  | none =>
    rw [searchNearby_of_new ho, Engine.consulted, ho, if_neg (by simp)]
    exact (h.searchIn r r.directories).keepOutcome r _

end Consulted

end Engine

/-- What searches nearby did since the last clearing. -/
structure SearchLog where
  /-- The count of gathers at that clearing. -/
  since : Nat := 0
  consulted : Finset String := ∅
  /-- What was searched for, with what was found. -/
  searches : List (Request × Option String) := []

namespace SearchLog

variable {log : SearchLog} {e e' : Engine} {files : Files}

def search (log : SearchLog) (e : Engine) (r : Request) : SearchLog :=
  { log with
    consulted := log.consulted ∪ (e.consulted r).toFinset
    searches := (r, (e.searchNearby r).1) :: log.searches }

def note (log : SearchLog) (e : Engine) (files : Files) (operation : Operation) : SearchLog :=
  if operation.forgets then { since := e.counters.candidateGathers }
  else (e.searched? files operation).elim log (log.search e)

/-- The engine remembers what the log says. -/
structure Tells (log : SearchLog) (e : Engine) : Prop where
  consulted : e.Consulted log.since log.consulted
  outcomes : ∀ r outcome, (r, outcome) ∈ log.searches →
    e.memo.outcomes.get? r = some outcome

namespace Tells

theorem of_same (h : log.Tells e) (hs : e.SameSearches e') : log.Tells e' :=
  ⟨h.consulted.of_same hs, fun r outcome hm => by rw [hs.outcomes, h.outcomes r outcome hm]⟩

theorem of_empty {since : Nat} (hc : e.memo.candidates = {})
    (hg : e.counters.candidateGathers = since) : Tells { since } e where
  consulted := by
    refine ⟨hg, fun top => ?_⟩
    rw [hc, Table.get?_empty]
    simp
  outcomes _ _ hm := nomatch hm

theorem search (h : log.Tells e) (r : Request) : (log.search e r).Tells (e.searchNearby r).2 where
  consulted := h.consulted.searchNearby r
  outcomes s outcome hm := by
    rw [e.get?_outcomes_searchNearby]
    rcases List.mem_cons.mp hm with heq | hm
    · cases heq
      rw [if_pos rfl]
    · have hkept := h.outcomes s outcome hm
      split
      · rename_i hs
        rw [hs] at hkept
        rw [Engine.searchNearby_of_kept hkept]
      · exact hkept

theorem lookup (h : log.Tells e) (root file : Path) (name : String) (isDefault : Bool) :
    (log.note e files (.lookup root file name isDefault)).Tells
      (e.lookup files root file name isDefault).2 := by
  refine of_same ?_ (e.lookup_sameSearches files root file name isDefault)
  rw [note, if_neg (by simp [Operation.forgets])]
  cases hx : (e.request files root file name isDefault).inFile? e.resolve.entryFiles e.index with
  | some id =>
    simp only [Engine.searched?, Engine.findIndexed, hx]
    exact h
  | none =>
    simp only [Engine.searched?, Engine.findIndexed, hx]
    exact h.search (e.request files root file name isDefault)

theorem perform (h : log.Tells e) (files : Files) (operation : Operation) :
    (log.note e files operation).Tells (e.perform files operation) := by
  cases operation with
  | extract root file => exact h.of_same (e.extract_sameSearches files root file)
  | lookup root file name isDefault => exact h.lookup root file name isDefault
  | generate file name isDefault d markup =>
    cases d with
    | some d => exact h
    | none => exact h.of_same (e.infer_sameSearches files file name isDefault markup)
  | clearMemo | clearLookups | clear => exact .of_empty rfl rfl
  | setIndex | clearExtractor | invalidate => exact h.of_same ⟨rfl, rfl, rfl⟩

end Tells

end SearchLog

/-- A new engine that was asked anything, and parsed files or contents that were supplied, over
files that may change in between, with the log of its searches. -/
inductive Searched (resolve : ResolveSettings) (limits : CacheLimits) :
    SearchLog → Engine → Prop where
  | start : Searched resolve limits {} { resolve, limits }
  | perform {log : SearchLog} {e : Engine} (h : Searched resolve limits log e) (files : Files)
      (operation : Operation) :
      Searched resolve limits (log.note e files operation) (e.perform files operation)
  | parse {log : SearchLog} {e : Engine} (h : Searched resolve limits log e) (files : Files)
      (path : Path) (content : Option String) :
      Searched resolve limits log { e with cache := (e.cache.parse? files path content).2 }

namespace Searched

variable {resolve : ResolveSettings} {limits : CacheLimits} {log : SearchLog} {e : Engine}

theorem tells (h : Searched resolve limits log e) : log.Tells e := by
  induction h with
  | start => exact .of_empty rfl rfl
  | perform _ files operation ih => exact ih.perform files operation
  | parse _ files path content ih => exact ih.of_same ⟨rfl, rfl, rfl⟩

/-- Since the last clearing, as many gathers were made as there are directories that were
consulted, and none of these is gathered again. A search that was made has the same outcome if it
is made again, and a lookup that comes to it gathers nothing. -/
theorem each_once (h : Searched resolve limits log e) :
    e.counters.candidateGathers = log.since + log.consulted.card ∧
    (∀ top, (e.candidates top).2.counters.candidateGathers =
      e.counters.candidateGathers + if top ∈ log.consulted then 0 else 1) ∧
    ∀ r outcome, (r, outcome) ∈ log.searches →
      e.searchNearby r =
        (outcome, { e with counters.outcomeHits := e.counters.outcomeHits + 1 }) ∧
      ∀ files root file name isDefault, e.request files root file name isDefault = r →
        (e.lookup files root file name isDefault).2.counters.candidateGathers =
          e.counters.candidateGathers := by
  have ht := h.tells
  refine ⟨ht.consulted.gathers, ht.consulted.gathers_candidates, fun r outcome hm => ?_⟩
  have hs := Engine.searchNearby_of_kept (ht.outcomes r outcome hm)
  refine ⟨hs, ?_⟩
  rintro files root file name isDefault rfl
  rw [(e.lookup_sameSearches files root file name isDefault).gathers]
  rcases e.findIndexed_snd (e.request files root file name isDefault) with hf | hf
  · rw [hf]
  · rw [hf, hs]

/-- A search that is made again after a clearing gathers again. What it did not find stays unfound
when it is indexed. -/
theorem each_once_of_late_index :
    ∃ log e, Searched {} ⟨true, 0, 0, 0⟩ log e ∧ log.since = 2 ∧
      e.counters.candidateGathers = 4 ∧
      (e.searchNearby ⟨"src/Panel.ts", "card", false⟩).1 = none ∧
      Request.nearby? e.resolve.entryFiles ⟨"src/Panel.ts", "card", false⟩ e.index =
        some "Variable:card" := by
  let files := ({} : MemoryFiles).view
  let search : Operation := .lookup ⟨"/repo"⟩ ⟨"src/Panel.ts"⟩ "card" false
  let card : Entity :=
    { id := "Variable:card", kind := .binding, file := "src/Card.ts", span := ⟨1, 1⟩,
      rawName := "card" }
  have hs : Searched {} ⟨true, 0, 0, 0⟩ _ _ :=
    .perform (.perform (.perform (.perform .start files search) files .clearLookups) files search)
      files (.setIndex [card])
  obtain ⟨hg, -, ho⟩ := hs.each_once
  refine ⟨_, _, hs, by decide +kernel, hg.trans (by decide +kernel), ?_, by decide +kernel⟩
  rw [(ho ⟨"src/Panel.ts", "card", false⟩ none (by decide +kernel)).1]

end Searched

end Exports
