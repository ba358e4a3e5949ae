import Exports.Proofs.EntityNames
import Exports.Proofs.MemoTransparency

namespace Exports

/-- What an identity is good for: a default export has some name, and another the name asked
for. -/
structure Identity.Answers (i : Identity) (name : String) (isDefault : Bool) : Prop where
  named : isDefault = false → i.name = name
  default : isDefault = true → i.name ≠ ""

theorem Identity.Answers.name_ne_empty {i : Identity} {name : String} {isDefault : Bool}
    (h : i.Answers name isDefault) (hname : name ≠ "") : i.name ≠ "" := by
  cases isDefault with
  | false =>
    rw [h.named rfl]
    exact hname
  | true => exact h.default rfl

namespace Module

variable {m : Module} {name : String} {isDefault : Bool}

theorem answers_of_ofContent? {markup : Option Bool} {parsed : ParsedSource} {i : Identity}
    (hp : Text.lastPiece '/' m.path ≠ "")
    (h : m.ofContent? markup parsed name isDefault = some i) : i.Answers name isDefault := by
  unfold ofContent? at h
  cases isDefault with
  | true =>
    refine ⟨fun hd => (nomatch hd), fun _ => ?_⟩
    split at h
    · cases h
      exact ModuleName.ofDefault_ne_empty hp _ _
    · obtain ⟨d, -, rfl⟩ := Option.map_eq_some_iff.mp h
      exact ModuleName.ofDefault_ne_empty hp _ _
  | false =>
    refine ⟨fun _ => ?_, fun hd => (nomatch hd)⟩
    split at h
    · cases h
    · obtain ⟨d, -, rfl⟩ := Option.map_eq_some_iff.mp h
      rfl

theorem name_of_empty_path (h : m.path = "") : m.name = "" := by
  rw [Module.name, h, ModuleName.ofPath]
  cases ModuleName.isEntry m.resolve.entryFiles "" <;> rfl

end Module

namespace Engine

variable {e e' : Engine} {files : Files} {es : List Entity} {file : Path} {name : String}
  {isDefault : Bool} {markup : Option Bool}

/-- Only a file with a name is parsed. -/
theorem slashed_ne_empty_of_parse? {cache : SourceCache} {parsed : ParsedSource}
    (h : (cache.parse? files file none).1 = some parsed) : file.slashed ≠ "" := by
  cases hl : Language.ofPath file with
  | error error =>
    rw [SourceCache.parse?_eq, hl] at h
    cases h
  | ok language =>
    obtain ⟨name, hn⟩ := Language.exists_fileName? hl
    exact Path.slashed_ne_empty_of_fileName? hn

theorem answers_of_told {i : Identity}
    (h : (e.classify files file name isDefault markup).1 = some i) :
    i.Answers name isDefault := by
  rw [classify_fst] at h
  obtain ⟨target, -, h⟩ := Option.bind_eq_some_iff.mp h
  obtain ⟨parsed, hp, h⟩ := Option.bind_eq_some_iff.mp h
  have hpath := Path.lastPiece_slashed_ne_empty (slashed_ne_empty_of_parse? hp)
  exact Module.answers_of_ofContent? (m := ⟨target.slashed, e.resolve⟩) hpath h

/-- Where names alone tell, only a default export at the root of all files has none. -/
theorem named_name_iff (ha : file.isAbsolute = true) (hname : name ≠ "") :
    (e.named file name isDefault markup).name = "" ↔
      isDefault = true ∧ file.place = [.root] := by
  rw [named, Module.ofName]
  cases isDefault with
  | false => exact iff_of_false hname fun h => absurd h.1 Bool.false_ne_true
  | true =>
    constructor
    · intro hempty
      refine ⟨rfl, ?_⟩
      by_contra hplace
      have hpath := Path.lastPiece_slashed_ne_empty (Path.slashed_ne_empty ha hplace)
      exact ModuleName.ofPath_ne_empty hpath _ hempty
    · rintro ⟨-, hplace⟩
      have hslashed : file.slashed = "" := by
        rw [Path.slashed, hplace]
        rfl
      exact Module.name_of_empty_path hslashed

/-- A default export is asked for at the root of all files, and nothing was or is told of it. -/
structure Anonymous (e : Engine) (files : Files) (path : Path) (name : String)
    (isDefault : Bool) : Prop where
  ofDefault : isDefault = true
  place : path.place = [.root]
  unkept : e.memo.identities.get? ⟨path.slashed, name, isDefault⟩ = none
  untold : (e.classify files path name isDefault none).1 = none

/-- Whatever an identity is inferred from, it has a name, unless it is anonymous. -/
theorem infer_name_iff
    (hk : ∀ r i, e.memo.identities.get? r = some i → i.Answers r.name r.isDefault)
    (ha : file.isAbsolute = true) (hname : name ≠ "") :
    (e.infer files file name isDefault none).1.name = "" ↔
      e.Anonymous files file name isDefault := by
  rw [infer_fst]
  cases hkept : e.memo.identities.get? ⟨file.slashed, name, isDefault⟩ with
  | some i =>
    refine iff_of_false ((hk _ i hkept).name_ne_empty hname) fun h => ?_
    rw [h.unkept] at hkept
    cases hkept
  | none =>
    cases htold : (e.classify files file name isDefault none).1 with
    | some i =>
      refine iff_of_false ((answers_of_told htold).name_ne_empty hname) fun h => ?_
      rw [h.untold] at htold
      cases htold
    | none =>
      rw [Option.getD_none, Option.getD_none, named_name_iff ha hname]
      exact ⟨fun h => ⟨h.1, h.2, hkept, htold⟩, fun h => ⟨h.ofDefault, h.place⟩⟩

/-- All that lookups can find is the id of one of these entities. -/
structure Known (e : Engine) (es : List Entity) : Prop where
  index : ∀ x ∈ e.index.entities, x ∈ es
  candidates : ∀ top, ∀ x ∈ (e.candidates top).1, x ∈ es
  nearby : ∀ r id, (e.searchNearby r).1 = some id → ∃ x ∈ es, x.id = id

namespace Known

theorem of_same (h : Known e es) (hs : SameFindings e' e) : Known e' es := by
  constructor
  · rw [hs.index]
    exact h.index
  · intro top
    rw [hs.candidates]
    exact h.candidates top
  · intro r id
    rw [hs.nearby]
    exact h.nearby r id

theorem of_outcomes (hi : ∀ x ∈ e.index.entities, x ∈ es)
    (hc : ∀ top, ∀ x ∈ (e.candidates top).1, x ∈ es)
    (ho : ∀ r id, e.memo.outcomes.get? r = some (some id) → ∃ x ∈ es, x.id = id) :
    Known e es := by
  refine ⟨hi, hc, fun r id hid => ?_⟩
  rw [searchNearby_fst] at hid
  cases hg : e.memo.outcomes.get? r with
  | some outcome =>
    rw [hg, Option.getD_some] at hid
    exact ho r id (by rw [hg, hid])
  | none =>
    rw [hg, Option.getD_none, searchIn_fst] at hid
    obtain ⟨top, -, hfound⟩ := List.exists_of_findSome?_eq_some hid
    obtain ⟨x, hx, hxid⟩ := Option.map_eq_some_iff.mp hfound
    exact ⟨x, hc top x (Request.mem_of_choose? hx), hxid⟩

theorem of_forgotten (hi : ∀ x ∈ e.index.entities, x ∈ es) (hc : e.memo.candidates = {})
    (ho : e.memo.outcomes = {}) : Known e es := by
  refine of_outcomes hi (fun top x hx => ?_) fun r id hid => ?_
  · rw [candidates_fst, hc, Table.get?_empty, Option.getD_none] at hx
    exact hi x (Index.mem_of_candidates hx)
  · rw [ho] at hid
    cases hid

theorem setIndex (h : Known e es) (new : List Entity) : Known (e.setIndex new) (new ++ es) := by
  have hindex : ∀ x ∈ (e.setIndex new).index.entities, x ∈ new ++ es := fun x hx =>
    List.mem_append_left _ (Index.mem_entities_ofEntities hx)
  refine of_outcomes hindex (fun top x hx => ?_) fun r id hid => ?_
  · have hold := h.candidates top x
    rw [candidates_fst] at hx hold
    rw [Engine.setIndex] at hx
    cases hg : e.memo.candidates.get? top with
    | some kept =>
      rw [hg] at hx hold
      exact List.mem_append_right _ (hold hx)
    | none =>
      rw [hg] at hx
      exact hindex x (Index.mem_of_candidates hx)
  · have hkept : (e.searchNearby r).1 = some id := by
      rw [searchNearby_fst]
      change e.memo.outcomes.get? r = some (some id) at hid
      rw [hid, Option.getD_some]
    obtain ⟨x, hx, hxid⟩ := h.nearby r id hkept
    exact ⟨x, List.mem_append_right _ hx, hxid⟩

theorem exists_of_findIndexed (h : Known e es) {r : Request} {id : String}
    (hf : (e.findIndexed r).1 = some id) : ∃ x ∈ es, x.id = id := by
  rw [findIndexed_fst] at hf
  rcases Option.or_eq_some_iff.mp hf with hf | ⟨-, hf⟩
  · obtain ⟨x, hx, hid⟩ := Request.exists_of_inFile? hf
    exact ⟨x, h.index x hx, hid⟩
  · exact h.nearby r id hf

end Known

end Engine

/-- Whether an operation may add entities that lookups find. -/
def Operation.feeds : Operation → Bool
  | .extract .. | .setIndex .. => true
  | _ => false

theorem Engine.Known.perform {e : Engine} {es : List Entity} (h : Known e es) (files : Files)
    {operation : Operation} (ho : operation.feeds = false) :
    Known (e.perform files operation) es := by
  cases operation with
  | extract | setIndex => cases ho
  | lookup root file name isDefault =>
    exact h.of_same (e.lookup_sameFindings files root file name isDefault)
  | generate file name isDefault d markup =>
    cases d with
    | some d => exact h
    | none => exact h.of_same (e.infer_sameFindings files file name isDefault markup)
  | clearMemo | clearLookups | clear => exact .of_forgotten h.index rfl rfl
  | clearExtractor | invalidate => exact h.of_same (.of_memo rfl rfl rfl rfl)

/-- What an engine has extracted and was given to index, over all its life. -/
structure History where
  /-- Entities of the files that were extracted, each with a root other than itself. -/
  given : List Entity := []
  indexed : List Entity := []
  /-- No file was extracted as its own root. -/
  strict : Bool := true

/-- The history after these entities of a file were extracted. -/
def History.extracted (history : History) (root file : Path) (es : List Entity) : History :=
  if Path.absolute root file = root.normalize then { history with strict := false }
  else { history with given := es ++ history.given }

/-- A new engine that was asked anything, over named files that may change in between, and was
given nothing to index but entities of files that it extracted with a root other than the file. -/
inductive Fed (resolve : ResolveSettings) (limits : CacheLimits) : History → Engine → Prop where
  | start : Fed resolve limits {} { resolve, limits }
  | extract {history : History} {e : Engine} (h : Fed resolve limits history e) {files : Files}
      (hn : files.Named) {root : Path} (hr : root.isAbsolute = true) (file : Path) :
      Fed resolve limits (history.extracted root file (e.extracted files root file))
        (e.extract files root file).2
  | setIndex {history : History} {e : Engine} (h : Fed resolve limits history e)
      {es : List Entity} (hes : ∀ x ∈ es, x ∈ history.given) :
      Fed resolve limits { history with indexed := es ++ history.indexed } (e.setIndex es)
  | perform {history : History} {e : Engine} (h : Fed resolve limits history e) {files : Files}
      (hn : files.Named) {operation : Operation} (ho : operation.feeds = false) :
      Fed resolve limits history (e.perform files operation)

namespace History

variable {history : History} {root file : Path} {es : List Entity} {x : Entity}

/-- An entity with a name, or without one if a file was extracted as its own root. -/
structure Allows (history : History) (x : Entity) : Prop where
  wellNamed : x.WellNamed
  file : history.strict = true → x.file ≠ ""

theorem strict_extracted (h : (history.extracted root file es).strict = true) :
    history.strict = true ∧ Path.absolute root file ≠ root.normalize := by
  unfold extracted at h
  split at h
  · cases h
  · exact ⟨h, by assumption⟩

theorem indexed_extracted (history : History) (root file : Path) (es : List Entity) :
    (history.extracted root file es).indexed = history.indexed := by
  unfold extracted
  split <;> rfl

theorem mem_given_extracted (h : x ∈ (history.extracted root file es).given) :
    x ∈ es ∨ x ∈ history.given := by
  unfold extracted at h
  split at h
  · exact .inr h
  · exact List.mem_append.mp h

theorem given_extracted (h : x ∈ history.given) :
    x ∈ (history.extracted root file es).given := by
  unfold extracted
  split
  · exact h
  · exact List.mem_append_right _ h

theorem Allows.extracted (h : history.Allows x) (root file : Path) (es : List Entity) :
    (history.extracted root file es).Allows x :=
  ⟨h.wellNamed, fun hs => h.file (strict_extracted hs).1⟩

end History

/-- All that an engine keeps, and what lookups can find, is allowed by its history. -/
structure History.Sound (history : History) (e : Engine) : Prop where
  sources : ∀ place c, e.cache.files.get? place = some c → c.parsed.Named
  results : ∀ key result, e.cache.results.get? key = some result →
    ∀ x ∈ result.entities, history.Allows x
  given : ∀ x ∈ history.given, history.Allows x
  indexed : ∀ x ∈ history.indexed, x ∈ history.given
  known : e.Known history.indexed
  identities : ∀ r i, e.memo.identities.get? r = some i → i.Answers r.name r.isDefault

namespace History.Sound

variable {history : History} {e e' : Engine} {files : Files} {root : Path}

theorem start (resolve : ResolveSettings) (limits : CacheLimits) :
    History.Sound {} { resolve, limits } where
  sources _ _ hc := nomatch hc
  results _ _ hr := nomatch hr
  given _ hx := nomatch hx
  indexed _ hx := nomatch hx
  known := .of_forgotten (fun _ hx => nomatch hx) rfl rfl
  identities _ _ hi := nomatch hi

theorem sources_of_drew (h : history.Sound e) (hn : files.Named) (hd : e.Drew files e') :
    ∀ place c, e'.cache.files.get? place = some c → c.parsed.Named := by
  intro place c hc
  rcases hd.sources place c hc with hc | ⟨path, -, hs, -⟩
  · exact h.sources place c hc
  · exact hn path c.parsed hs

theorem identities_of_drew (h : history.Sound e) (hd : e.Drew files e') :
    ∀ r i, e'.memo.identities.get? r = some i → i.Answers r.name r.isDefault := by
  intro r i hi
  rcases hd.identities r i hi with hi | ⟨file, markup, -, htold⟩
  · exact h.identities r i hi
  · exact Engine.answers_of_told htold

/-- Whether an extraction is served or draws anew, its entities are allowed. -/
theorem allows_of_extract (h : history.Sound e) (hn : files.Named) (hr : root.isAbsolute = true)
    (file : Path) (es : List Entity) :
    ∀ x ∈ e.extracted files root file, (history.extracted root file es).Allows x := by
  intro x hx
  obtain ⟨given, hgiven, hx⟩ := Engine.exists_of_mem_extracted hx
  cases hs : e.isServed files root file with
  | true =>
    obtain ⟨key, result, -, hg, -, -, he⟩ := Engine.extract_of_served hs
    rw [he, Option.some.injEq] at hgiven
    rw [← hgiven] at hx
    exact (h.results key result hg x hx).extracted root file es
  | false =>
    rw [Engine.extract_fst_of_missed hs, Option.ite_none_left_eq_some] at hgiven
    obtain ⟨-, hgiven⟩ := hgiven
    cases hgiven
    constructor
    · exact Engine.wellNamed_of_mem_drawFrom
        (fun parsed hp => SourceCache.named_of_parse? h.sources hn hp) hx
    · intro hstrict
      exact Engine.file_ne_empty_of_mem_drawFrom hr (strict_extracted hstrict).2 hx

theorem extract (h : history.Sound e) (hn : files.Named) (hr : root.isAbsolute = true)
    (file : Path) :
    (history.extracted root file (e.extracted files root file)).Sound
      (e.extract files root file).2 := by
  have hd := e.extract_drew files root file
  have hallows := h.allows_of_extract hn hr file (e.extracted files root file)
  refine ⟨h.sources_of_drew hn hd, fun key result hg x hx => ?_, fun x hx => ?_, fun x hx => ?_,
    ?_, h.identities_of_drew hd⟩
  · cases hs : e.isServed files root file with
    | true =>
      obtain ⟨_, _, -, -, -, -, he⟩ := Engine.extract_of_served hs
      rw [he] at hg
      exact (h.results key result hg x hx).extracted root file _
    | false =>
      rcases Engine.results_of_missed hs hg with ⟨hg, -⟩ | ⟨-, -, hentities, -, -⟩
      · exact (h.results key result hg x hx).extracted root file _
      · have hgiven : e.extracted files root file = result.entities := by
          rw [Engine.extracted, hentities, Option.getD_some]
        rw [← hgiven] at hx
        exact hallows x hx
  · rcases mem_given_extracted hx with hx | hx
    · exact hallows x hx
    · exact (h.given x hx).extracted root file _
  · rw [indexed_extracted] at hx
    exact given_extracted (h.indexed x hx)
  · rw [indexed_extracted]
    exact h.known.of_same (e.extract_sameFindings files root file)

theorem setIndex (h : history.Sound e) {es : List Entity} (hes : ∀ x ∈ es, x ∈ history.given) :
    History.Sound { history with indexed := es ++ history.indexed } (e.setIndex es) where
  sources := h.sources
  results key result hg x hx := ⟨(h.results key result hg x hx).wellNamed,
    (h.results key result hg x hx).file⟩
  given x hx := ⟨(h.given x hx).wellNamed, (h.given x hx).file⟩
  indexed x hx := (List.mem_append.mp hx).elim (hes x) (h.indexed x)
  known := h.known.setIndex es
  identities := h.identities

theorem perform (h : history.Sound e) (hn : files.Named) {operation : Operation}
    (ho : operation.feeds = false) : history.Sound (e.perform files operation) where
  sources := h.sources_of_drew hn (e.perform_drew files operation)
  results key result hg := by
    refine h.results key result (Engine.results_of_perform ?_ hg)
    rintro root file rfl
    cases ho
  given := h.given
  indexed := h.indexed
  known := h.known.perform files ho
  identities := h.identities_of_drew (e.perform_drew files operation)

end History.Sound

namespace Fed

variable {resolve : ResolveSettings} {limits : CacheLimits} {history : History} {e : Engine}

theorem sound (h : Fed resolve limits history e) : history.Sound e := by
  induction h with
  | start => exact .start resolve limits
  | extract _ hn hr file ih => exact ih.extract hn hr file
  | setIndex _ hes ih => exact ih.setIndex hes
  | perform _ hn ho ih => exact ih.perform hn ho

theorem allows_of_mem (h : Fed resolve limits history e) {x : Entity}
    (hx : x ∈ history.indexed) : history.Allows x :=
  h.sound.given x (h.sound.indexed x hx)

theorem kind_eq_of_id (h : Fed resolve limits history e) {x y : Entity}
    (hx : x ∈ history.indexed) (hy : y ∈ history.indexed) (hid : x.id = y.id) :
    x.kind = y.kind := by
  obtain ⟨n, hn, -⟩ := (h.allows_of_mem hx).wellNamed
  obtain ⟨k, hk, -⟩ := (h.allows_of_mem hy).wellNamed
  rw [hn, hk, Kind.idFor_inj] at hid
  exact hid.1

theorem exists_name_of_mem (h : Fed resolve limits history e) {x : Entity}
    (hx : x ∈ history.indexed) :
    ∃ n, x.id = x.kind.idFor n ∧
      (n = "" ↔ ∃ y ∈ history.indexed, y.id = x.id ∧ y.Nameless) ∧
      (history.strict = true → n ≠ "") := by
  have hallows := h.allows_of_mem hx
  obtain ⟨n, hn, hempty⟩ := hallows.wellNamed
  refine ⟨n, hn, ⟨fun he => ?_, ?_⟩, fun hstrict he => hallows.file hstrict (hempty he)⟩
  · exact ⟨x, hx, rfl, hempty he, by rw [hn, he]⟩
  · rintro ⟨y, -, hid, hy⟩
    rw [hy.id, hn, Kind.idFor_inj] at hid
    exact hid.2.symm

/-- Every import gets an id of the kind that is told with it. The id has a name, unless it is that
of an indexed entity without one, or the import ends at the root of all files. Where no file was
extracted as its own root, every id from the index has a name. An id from the index belongs to an
entity that was indexed, and all such entities have the kind that is told. -/
theorem lookup_nameless_iff (h : Fed resolve limits history e) (files : Files) {root : Path}
    (hr : root.isAbsolute = true) (file : Path) {name : String} (hname : name ≠ "")
    (isDefault : Bool) :
    ∃ r n, (e.lookup files root file name isDefault).1 = r ∧ r.id = r.kind.idFor n ∧
      (n = "" ↔
        (r.confidence = .indexed ∧ ∃ x ∈ history.indexed, x.id = r.id ∧ x.Nameless) ∨
        (r.confidence = .inferred ∧ e.Anonymous files (e.destination files root file).1 name
          (isDefault || name = "default"))) ∧
      (r.confidence = .indexed →
        (history.strict = true → n ≠ "") ∧ (∃ x ∈ history.indexed, x.id = r.id) ∧
          ∀ x ∈ history.indexed, x.id = r.id → x.kind = r.kind) := by
  rcases e.lookup_cases files root file name isDefault with
    ⟨id, after, hid, hl⟩ | ⟨after, -, hs, -, hl⟩
  · obtain ⟨x, hx, rfl⟩ := h.sound.known.exists_of_findIndexed (congrArg Prod.fst hid)
    obtain ⟨n, hn, hnameless, hstrict⟩ := h.exists_name_of_mem hx
    have hfound : Resolved.ofIndexed x.id = ⟨x.id, x.kind, .indexed⟩ := by
      rw [hn, Resolved.ofIndexed_idFor]
    refine ⟨⟨x.id, x.kind, .indexed⟩, n, by rw [hl, hfound], hn, ?_, fun _ => ?_⟩
    · simpa using hnameless
    · exact ⟨hstrict, ⟨x, hx, rfl⟩, fun y hy hid => h.kind_eq_of_id hy hx hid⟩
  · obtain ⟨hreached, habs⟩ := e.destination_reached files hr file
    have hiff : (e.infer files (e.destination files root file).1 name
        (isDefault || name = "default") none).1.name = "" ↔ _ :=
      Engine.infer_name_iff h.sound.identities habs hname
    rw [hl, hs.infer_fst hreached]
    refine ⟨_, _, rfl, rfl, ?_, fun hc => nomatch hc⟩
    rw [hiff]
    simp [Identity.resolved, Resolved.mint]

end Fed

/-- A component that is all setup exports nothing under the empty name. -/
theorem MemoryFiles.named_ofCard : (ofCard ⟨"/repo/Card.vue"⟩).view.Named := by
  intro path parsed hs
  have hplace : path.place = (⟨"/repo/Card.vue"⟩ : Path).place := by
    by_contra hne
    have hfile := Files.isFile_of_source? hs
    simp only [view, ofCard, file?_write, if_neg hne] at hfile
    cases hfile
  have hcard : ((ofCard ⟨"/repo/Card.vue"⟩).view.source? ⟨"/repo/Card.vue"⟩).all
      (·.declarations.isEmpty) = true := by decide +kernel
  rw [Files.source?_congr (view_alike _ hplace)] at hs
  rw [hs, Option.all_some, List.isEmpty_iff] at hcard
  intro d hd
  rw [hcard] at hd
  cases hd

namespace Fed

/-- A component that was extracted from its directory, indexed and asked for. -/
theorem lookup_named_card :
    ∃ history e, Fed {} ⟨true, 0, 0, 0⟩ history e ∧ history.strict = true ∧
      ∃ r n, (e.lookup (MemoryFiles.ofCard ⟨"/repo/Card.vue"⟩).view ⟨"/repo"⟩ ⟨"Card.vue"⟩ "setup"
        false).1 = r ∧ r.confidence = .indexed ∧ r.id = r.kind.idFor n ∧ n ≠ "" := by
  have hroot : (⟨"/repo"⟩ : Path).isAbsolute = true := by decide
  have hname : "setup" ≠ "" := by decide
  have hf : Fed {} ⟨true, 0, 0, 0⟩ _ _ :=
    .setIndex (.extract .start MemoryFiles.named_ofCard hroot ⟨"Card.vue"⟩) fun _ hx => hx
  obtain ⟨r, n, hl, hid, -, hindexed⟩ := lookup_nameless_iff hf
    (MemoryFiles.ofCard ⟨"/repo/Card.vue"⟩).view hroot ⟨"Card.vue"⟩ hname false
  have hc : r.confidence = .indexed := by
    rw [← hl]
    decide +kernel
  exact ⟨_, _, hf, by decide +kernel, r, n, hl, hc, hid, (hindexed hc).1 (by decide +kernel)⟩

/-- A component that was first extracted as its own root has no name when it is extracted from its
directory, and none when it is indexed and asked for. -/
theorem lookup_nameless_card :
    ∃ history e, Fed {} ⟨true, 0, 0, 0⟩ history e ∧
      (e.lookup (MemoryFiles.ofCard ⟨"/repo/Card.vue"⟩).view ⟨"/repo"⟩ ⟨"Card.vue"⟩ "setup"
        false).1 = ⟨Kind.component.idFor "", .component, .indexed⟩ :=
  have hroot : (⟨"/repo"⟩ : Path).isAbsolute = true := by decide
  have hown : (⟨"/repo/Card.vue"⟩ : Path).isAbsolute = true := by decide
  ⟨_, _, .setIndex (.extract (.extract .start MemoryFiles.named_ofCard hown ⟨"/repo/Card.vue"⟩)
    MemoryFiles.named_ofCard hroot ⟨"Card.vue"⟩) fun _ hx => hx, by decide +kernel⟩

end Fed

end Exports
