import Exports.Proofs.Directories
import Exports.Proofs.IndexOrder
import Exports.Proofs.Lookup
import Mathlib.Data.List.Permutation

namespace Exports

namespace Text

theorem occursIn_iff {needle text : List Char} : occursIn needle text = true ↔ needle <:+: text := by
  induction text with
  | nil => simp [occursIn]
  | cons c cs ih =>
    rw [occursIn, Bool.or_eq_true, ih, List.isPrefixOf_iff_prefix, List.infix_cons_iff]

theorem hasPart_iff {s part : String} :
    hasPart s part = true ↔ ∃ before after, s = before ++ part ++ after := by
  rw [hasPart, occursIn_iff]
  constructor
  · rintro ⟨before, after, h⟩
    refine ⟨String.ofList before, String.ofList after, String.toList_inj.mp ?_⟩
    simpa using h.symm
  · rintro ⟨before, after, rfl⟩
    exact ⟨before.toList, after.toList, by simp⟩

end Text

/-- The first of the shallowest: what comes before lies deeper, and what comes after no higher. -/
def FirstShallowest (es : List Entity) (P : Entity → Prop) (e : Entity) : Prop :=
  P e ∧ ∃ before after, es = before ++ e :: after ∧
    (∀ o ∈ before, P o → depth e.file < depth o.file) ∧
    ∀ o ∈ after, P o → depth e.file ≤ depth o.file

theorem mem_before_of_sublist {before after : List Entity} {o e : Entity}
    (hn : (before ++ e :: after).Nodup) (h : [o, e].Sublist (before ++ e :: after)) :
    o ∈ before := by
  have he : e ∉ after := (List.nodup_cons.mp (List.nodup_append.mp hn).2.1).1
  obtain ⟨front, back, hsplit, ho, hback⟩ := List.cons_sublist_iff.mp h
  have hback : e ∈ back := hback.subset (by simp)
  rcases List.append_eq_append_iff.mp hsplit with ⟨mid, rfl, hmid⟩ | ⟨mid, rfl, -⟩
  · cases mid with
    | nil => simpa using ho
    | cons c mid =>
      obtain ⟨-, hafter⟩ := List.cons.inj hmid
      exact absurd (hafter ▸ List.mem_append_right mid hback) he
  · exact List.mem_append_left mid ho

theorem depth_le_trans (a b c : Entity) (hab : decide (depth a.file ≤ depth b.file) = true)
    (hbc : decide (depth b.file ≤ depth c.file) = true) :
    decide (depth a.file ≤ depth c.file) = true := by
  rw [decide_eq_true_iff] at hab hbc ⊢
  omega

theorem depth_le_total (a b : Entity) :
    (decide (depth a.file ≤ depth b.file) || decide (depth b.file ≤ depth a.file)) = true := by
  simp only [Bool.or_eq_true, decide_eq_true_eq]
  omega

/-- The first that passes a test among the sorted ones is the first of the shallowest. -/
theorem firstShallowest_of_find? {es : List Entity} (hn : es.Nodup) {keep test : Entity → Bool}
    {e : Entity}
    (h : ((es.filter keep).mergeSort fun a b => depth a.file ≤ depth b.file).find? test =
      some e) :
    FirstShallowest es (fun o => keep o = true ∧ test o = true) e := by
  have hperm := List.mergeSort_perm (es.filter keep) fun a b => depth a.file ≤ depth b.file
  have hsorted := List.pairwise_mergeSort depth_le_trans depth_le_total (es.filter keep)
  obtain ⟨htest, first, last, hsplit, hfirst⟩ := List.find?_eq_some_iff_append.mp h
  rw [hsplit] at hperm hsorted
  have hmem : e ∈ es.filter keep := hperm.mem_iff.mp (by simp)
  obtain ⟨hes, hkeep⟩ := List.mem_filter.mp hmem
  obtain ⟨before, after, rfl⟩ := List.append_of_mem hes
  refine ⟨⟨hkeep, htest⟩, before, after, rfl, ?_, ?_⟩
  · -- One that comes before and lies no deeper would have been found instead.
    rintro o ho ⟨hokeep, hotest⟩
    by_contra hle
    have hpair : [o, e].Sublist (before ++ e :: after) :=
      List.cons_sublist_iff.mpr ⟨before, e :: after, rfl, ho, by simp⟩
    have hkept : [o, e].Sublist ((before ++ e :: after).filter keep) := by
      simpa [hokeep, hkeep] using hpair.filter keep
    have hmoved := List.pair_sublist_mergeSort depth_le_trans depth_le_total
      (decide_eq_true (Nat.not_lt.mp hle)) hkept
    rw [hsplit] at hmoved
    have hearlier := mem_before_of_sublist (hperm.nodup_iff.mpr (hn.filter keep)) hmoved
    simpa [hotest] using hfirst o hearlier
  · rintro o ho ⟨hokeep, hotest⟩
    have homem : o ∈ first ++ e :: last := hperm.mem_iff.mpr (by simp [ho, hokeep])
    rcases List.mem_append.mp homem with ho | ho
    · simpa [hotest] using hfirst o ho
    · rcases List.mem_cons.mp ho with rfl | ho
      · exact Nat.le_refl _
      · have hle := List.rel_of_pairwise_cons (List.pairwise_append.mp hsorted).2.1 ho
        exact of_decide_eq_true hle

namespace Index

theorem under_ofEntities (es : List Entity) (top : String) :
    (ofEntities es).under top = (ofEntities es).entities.filter fun e => isUnder e.file top := by
  have hown : ∀ f ∈ (ofEntities es).files, ∀ e ∈ f.entities, e.file = f.path :=
    fun _ hf _ he => file_of_mem_files hf he
  rw [under, entities]
  generalize (ofEntities es).files = files at hown
  induction files with
  | nil => rfl
  | cons f rest ih =>
    have hf : f.entities.filter (fun e => isUnder e.file top) =
        f.entities.filter fun _ => isUnder f.path top := by
      apply List.filter_congr
      intro e he
      rw [hown f (by simp) e he]
    have hrest := ih fun g hg => hown g (by simp [hg])
    rw [List.flatMap_cons, List.filter_append, hf, ← hrest]
    cases hu : isUnder f.path top <;> simp [hu]

theorem mem_candidates_iff {es : List Entity} {top : String} {e : Entity} :
    e ∈ (ofEntities es).candidates top ↔
      e ∈ (ofEntities es).entities ∧ LiesUnder e.file top := by
  rw [candidates, (List.mergeSort_perm _ _).mem_iff, under_ofEntities, List.mem_filter,
    isUnder_iff]

end Index

namespace Request

/-- What tells the entity meant among those of several files, one test after the other. -/
def tests (entries : List String) (r : Request) : List (Entity → Bool) :=
  let moduleOf (e : Entity) := ModuleName.ofPath entries e.file
  let base := ModuleName.ofPath entries r.path
  (fun e => e.rawName = r.name) ::
    if r.isDefault then
      [fun e => e.rawName = "default", fun e => Text.hasPart e.id (":" ++ r.name),
        fun e => moduleOf e = r.name, fun e => moduleOf e = base && e.isDefault,
        fun e => moduleOf e = base]
    else [fun e => e.idName = r.name, fun e => Text.hasPart e.id (":" ++ r.name)]

variable {entries : List String} {r : Request} {es : List Entity} {e : Entity}

theorem choose?_eq (entries : List String) (r : Request) (es : List Entity) :
    r.choose? entries es = (r.tests entries).findSome? fun test => es.find? test := by
  have hcons : ∀ (test : Entity → Bool) (tests : List (Entity → Bool)),
      (test :: tests).findSome? (fun test => es.find? test) =
        (es.find? test).or (tests.findSome? fun test => es.find? test) := by
    intro test tests
    rw [List.findSome?_cons]
    cases es.find? test <;> rfl
  unfold choose? tests nearbyDefault? nearbyNamed?
  cases r.isDefault <;>
    simp only [hcons, List.findSome?_nil, Option.or_none, Bool.false_eq_true, ↓reduceIte]

/-- Entities that may be meant, wherever they lie. -/
def Eligible (entries : List String) (r : Request) (e : Entity) : Prop :=
  e.rawName = r.name ∨ (∃ before after, e.id = before ++ (":" ++ r.name) ++ after) ∨
    if r.isDefault then
      e.rawName = "default" ∨ ModuleName.ofPath entries e.file = r.name ∨
        ModuleName.ofPath entries e.file = ModuleName.ofPath entries r.path
    else e.idName = r.name

theorem eligible_iff : r.Eligible entries e ↔ ∃ test ∈ r.tests entries, test e = true := by
  unfold Eligible tests
  rw [← Text.hasPart_iff]
  cases r.isDefault <;>
    simp only [List.exists_mem_cons_iff, List.not_mem_nil, false_and, exists_false, or_false,
      Bool.false_eq_true, ↓reduceIte, decide_eq_true_eq, Bool.and_eq_true] <;>
    tauto

/-- A request finds something where something is eligible. -/
theorem isSome_choose?_iff :
    (r.choose? entries es).isSome = true ↔ ∃ e ∈ es, r.Eligible entries e := by
  rw [choose?_eq, List.findSome?_isSome_iff]
  simp only [List.find?_isSome, eligible_iff]
  constructor
  · rintro ⟨test, ht, e, he, hp⟩
    exact ⟨e, he, test, ht, hp⟩
  · rintro ⟨e, he, test, ht, hp⟩
    exact ⟨test, ht, e, he, hp⟩

/-- The entity that the first successful test tells, among those of an index that lie under a
directory. -/
def Chosen (entries : List String) (r : Request) (x : Index) (top : String) (e : Entity) : Prop :=
  ∃ earlier test later, r.tests entries = earlier ++ test :: later ∧
    (∀ o ∈ x.entities, LiesUnder o.file top → ∀ t ∈ earlier, t o = false) ∧
    FirstShallowest x.entities (fun o => LiesUnder o.file top ∧ test o = true) e

theorem chosen_of_choose? {top : String}
    (h : r.choose? entries ((Index.ofEntities es).candidates top) = some e) :
    r.Chosen entries (.ofEntities es) top e ∧ r.Eligible entries e := by
  rw [choose?_eq] at h
  obtain ⟨earlier, test, later, htests, hfind, hearlier⟩ := List.findSome?_eq_some_iff.mp h
  have hfirst : FirstShallowest (Index.ofEntities es).entities
      (fun o => LiesUnder o.file top ∧ test o = true) e := by
    rw [Index.candidates, Index.under_ofEntities] at hfind
    have hf := firstShallowest_of_find? (Index.nodup_entities es) hfind
    simpa only [Index.isUnder_iff] using hf
  refine ⟨⟨earlier, test, later, htests, ?_, hfirst⟩, ?_⟩
  · intro o ho hu t ht
    have hn := List.find?_eq_none.mp (hearlier t ht) o (Index.mem_candidates_iff.mpr ⟨ho, hu⟩)
    simpa using hn
  · rw [eligible_iff]
    exact ⟨test, by simp [htests], hfirst.1.2⟩

/-- The deepest directory above the file of a request that has something eligible. -/
structure Nearest (entries : List String) (r : Request) (x : Index) (top : String) : Prop where
  under : LiesUnder r.path top
  ne_path : top ≠ r.path
  eligible : ∃ o ∈ x.entities, LiesUnder o.file top ∧ r.Eligible entries o
  deepest : ∀ other, LiesUnder r.path other → other ≠ r.path →
    (∃ o ∈ x.entities, LiesUnder o.file other ∧ r.Eligible entries o) → LiesUnder top other

theorem isSome_choose?_candidates_iff {top : String} :
    (r.choose? entries ((Index.ofEntities es).candidates top)).isSome = true ↔
      ∃ o ∈ (Index.ofEntities es).entities, LiesUnder o.file top ∧ r.Eligible entries o := by
  rw [isSome_choose?_iff]
  simp only [Index.mem_candidates_iff, and_assoc]

theorem isSome_nearby?_iff (hr : IsKey r.path) :
    (r.nearby? entries (.ofEntities es)).isSome = true ↔
      ∃ o ∈ (Index.ofEntities es).entities, r.Eligible entries o := by
  rw [nearby?, List.findSome?_isSome_iff]
  simp only [Option.isSome_map, isSome_choose?_candidates_iff]
  constructor
  · rintro ⟨top, -, o, ho, -, he⟩
    exact ⟨o, ho, he⟩
  · rintro ⟨o, ho, he⟩
    have htop : "" ∈ r.directories :=
      (mem_directories_iff hr).mpr ⟨.inl rfl, hr.ne_empty.symm⟩
    exact ⟨"", htop, o, ho, .inl rfl, he⟩

/-- What a search finds is chosen in the nearest directory. -/
theorem exists_nearest (hr : IsKey r.path) {id : String}
    (h : r.nearby? entries (.ofEntities es) = some id) :
    ∃ top found, r.Nearest entries (.ofEntities es) top ∧
      r.Chosen entries (.ofEntities es) top found ∧ r.Eligible entries found ∧ found.id = id := by
  obtain ⟨before, top, after, hsplit, hfound, hbefore⟩ := List.findSome?_eq_some_iff.mp h
  obtain ⟨found, hchoose, hid⟩ := Option.map_eq_some_iff.mp hfound
  obtain ⟨hchosen, heligible⟩ := chosen_of_choose? hchoose
  have habove := (mem_directories_iff hr).mp (show top ∈ r.directories by simp [hsplit])
  have hhas := isSome_choose?_candidates_iff.mp (Option.isSome_iff_exists.mpr ⟨found, hchoose⟩)
  refine ⟨top, found, ⟨habove.1, habove.2, hhas, ?_⟩, hchosen, heligible, hid⟩
  intro other hunder hne hother
  have hmem := (mem_directories_iff hr).mpr ⟨hunder, hne⟩
  have hpairs := r.pairwise_directories
  rw [hsplit] at hmem hpairs
  rcases List.mem_append.mp hmem with hmem | hmem
  · -- A deeper one that had something would have ended the search.
    have hsome := isSome_choose?_candidates_iff.mpr hother
    have hnone := hbefore other hmem
    rw [Option.map_eq_none_iff] at hnone
    rw [hnone] at hsome
    cases hsome
  · rcases List.mem_cons.mp hmem with rfl | hmem
    · exact .inr (.inl rfl)
    · exact List.rel_of_pairwise_cons (List.pairwise_append.mp hpairs).2.1 hmem

end Request

namespace Engine

/-- Where nothing is kept of lookups, a search nearby goes by the index. -/
theorem searchNearby_fst_clearLookups (e : Engine) (r : Request) :
    (e.clearLookups.searchNearby r).1 = r.nearby? e.resolve.entryFiles e.index := by
  have hsame : SameFindings e.clearLookups e.clearMemo := .of_memo rfl rfl rfl rfl
  rw [hsame.nearby, searchNearby_fst_of_empty rfl]
  rfl

/-- A search nearby that nothing is kept for finds something exactly if the index has something
eligible, and then what is chosen in the nearest directory. -/
theorem searchNearby_nearest (e : Engine) (es : List Entity) {r : Request} (hr : IsKey r.path) :
    (((e.setIndex es).clearLookups.searchNearby r).1.isSome = true ↔
      ∃ o ∈ (Index.ofEntities es).entities, r.Eligible e.resolve.entryFiles o) ∧
    ∀ id, ((e.setIndex es).clearLookups.searchNearby r).1 = some id →
      ∃ top found, r.Nearest e.resolve.entryFiles (.ofEntities es) top ∧
        r.Chosen e.resolve.entryFiles (.ofEntities es) top found ∧
        r.Eligible e.resolve.entryFiles found ∧ found.id = id := by
  rw [searchNearby_fst_clearLookups]
  exact ⟨Request.isSome_nearby?_iff hr, fun _ h => Request.exists_nearest hr h⟩

/-- Two modules of one name are equally near. The default export comes before the binding, though
the file of the binding came first. -/
theorem searchNearby_default_namesake :
    let card : Entity :=
      { id := "Variable:size", kind := .binding, file := "a/Card.ts", span := ⟨1, 1⟩,
        rawName := "size" }
    let main : Entity :=
      { id := "Component:Main", kind := .component, file := "b/Card.ts", span := ⟨1, 1⟩,
        rawName := "Main", isDefault := true }
    let r : Request := ⟨"c/Card.ts", "Panel", true⟩
    let e : Engine := { resolve := {}, limits := ⟨true, 0, 0, 0⟩ }
    IsKey r.path ∧
      ((e.setIndex [card, main]).clearLookups.searchNearby r).1 = some "Component:Main" ∧
      ∃ top found, r.Nearest e.resolve.entryFiles (.ofEntities [card, main]) top ∧
        r.Chosen e.resolve.entryFiles (.ofEntities [card, main]) top found ∧
        r.Eligible e.resolve.entryFiles found ∧ found.id = "Component:Main" := by
  intro card main r e
  have hkey : IsKey r.path := by decide +kernel
  have hfound : ((e.setIndex [card, main]).clearLookups.searchNearby r).1 =
      some "Component:Main" := by
    rw [searchNearby_fst_clearLookups]
    cbv
  exact ⟨hkey, hfound, (searchNearby_nearest e [card, main] hkey).2 _ hfound⟩

end Engine

end Exports
