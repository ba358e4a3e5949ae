import Exports.Proofs.EntityIds
import Exports.Proofs.ExtractionTransparency
import Exports.Proofs.Operation

namespace Exports

theorem Identity.id_inj {i j : Identity} {confidence confidence' : Confidence} :
    (i.resolved confidence).id = (j.resolved confidence').id ↔ i = j := by
  obtain ⟨kind, name⟩ := i
  obtain ⟨kind', name'⟩ := j
  rw [Identity.mk.injEq]
  exact Kind.idFor_inj

/-- Outside entry files, contents and names alike name a default export after its module. -/
theorem Engine.name_of_infer_default {e : Engine} {files : Files} {file : Path} {name : String}
    (hd : files.isDirectory file = false)
    (hk : e.memo.identities.get? ⟨file.slashed, name, true⟩ = none)
    (hf : ModuleName.isEntry e.resolve.entryFiles file.slashed = false) (markup : Option Bool) :
    (e.infer files file name true markup).1.name =
      ModuleName.ofPath e.resolve.entryFiles file.slashed := by
  have htarget : e.target? files file = some file := by simp [target?, hd]
  rw [infer_fst, hk, classify_fst, htarget, Option.bind_some, Option.getD_none]
  cases (e.cache.parse? files file none).1 with
  | none => rfl
  | some parsed =>
    cases ht : Module.ofContent? ⟨file.slashed, e.resolve⟩ markup parsed name true with
    | none => simp [ht, named, Module.ofName, Module.name]
    | some told =>
      have hdefault : ∀ declared, ModuleName.ofDefault e.resolve.entryFiles file.slashed declared =
          ModuleName.ofPath e.resolve.entryFiles file.slashed := by
        intro declared
        simp [ModuleName.ofDefault, hf]
      simp only [Option.bind_some, ht, Option.getD_some]
      unfold Module.ofContent? at ht
      split at ht
      · cases ht
        exact hdefault none
      · obtain ⟨d, -, rfl⟩ := Option.map_eq_some_iff.mp ht
        exact hdefault _

/-- The identity of a name in a file is asked for, perhaps with an override of markup. -/
structure Inquiry where
  file : Path
  name : String
  isDefault : Bool
  markup : Option Bool
  deriving DecidableEq, Repr

def Inquiry.request (i : Inquiry) : Request := ⟨i.file.slashed, i.name, i.isDefault⟩

def Operation.clearsMemo : Operation → Bool
  | .clearMemo | .clear => true
  | _ => false

namespace Engine

variable {e : Engine} {files : Files}

def told? (e : Engine) (files : Files) (i : Inquiry) : Option Identity :=
  (e.classify files i.file i.name i.isDefault i.markup).1

/-- What is told where nothing is kept: by the content, otherwise by the names. -/
def fresh (e : Engine) (files : Files) (i : Inquiry) : Identity :=
  (e.told? files i).getD (e.named i.file i.name i.isDefault i.markup)

/-- What an operation comes to ask a file: an id without a declaration, or an import that is not in
the index. -/
def inquiry? (e : Engine) (files : Files) : Operation → Option Inquiry
  | .generate file name isDefault none markup => some ⟨file, name, isDefault, markup⟩
  | .lookup root file name isDefault =>
    if (e.lookup files root file name isDefault).1.confidence = .inferred then
      some ⟨(e.destination files root file).1, name, isDefault || name = "default", none⟩
    else none
  | _ => none

theorem get?_infer (e : Engine) (files : Files) (i : Inquiry) (r : Request) :
    (e.infer files i.file i.name i.isDefault i.markup).2.memo.identities.get? r =
      (e.memo.identities.get? r).or (if i.request = r then e.told? files i else none) := by
  have hmemo := (e.classify_drew files i.file i.name i.isDefault i.markup).2
  rcases e.infer_cases files i.file i.name i.isDefault i.markup with
    ⟨identity, hk, hi⟩ | ⟨hk, ⟨identity, after, ha, hi⟩ | ⟨after, ha, hi⟩⟩
  · rw [hi]
    by_cases hr : i.request = r
    · subst hr
      simp [Inquiry.request, hk]
    · simp [hr]
  · rw [ha] at hmemo
    rw [hi, get?_keepIdentity, hmemo]
    by_cases hr : i.request = r
    · subst hr
      simp [Inquiry.request, hk, told?, ha]
    · have hne : r ≠ ⟨i.file.slashed, i.name, i.isDefault⟩ := Ne.symm hr
      rw [if_neg hr, if_neg hne, Option.or_none]
  · rw [ha] at hmemo
    rw [hi, hmemo]
    by_cases hr : i.request = r
    · simp [hr, told?, ha]
    · simp [hr]

theorem get?_perform (e : Engine) (files : Files) {operation : Operation}
    (ho : operation.clearsMemo = false) (r : Request) :
    (e.perform files operation).memo.identities.get? r =
      (e.memo.identities.get? r).or ((e.inquiry? files operation).bind fun i =>
        if i.request = r then e.told? files i else none) := by
  cases operation with
  | clearMemo | clear => cases ho
  | generate file name isDefault d markup =>
    cases d with
    | some d => exact Option.or_none.symm
    | none => exact e.get?_infer files ⟨file, name, isDefault, markup⟩ r
  | lookup root file name isDefault =>
    rw [inquiry?, perform]
    rcases e.lookup_cases files root file name isDefault with
      ⟨id, after, hid, hl⟩ | ⟨after, -, hs, -, hl⟩
    · have hs := (e.findIndexed_same (e.request files root file name isDefault)).1
      rw [hid] at hs
      have hc : (Resolved.ofIndexed id).confidence ≠ .inferred := by simp [Resolved.ofIndexed]
      rw [hl, if_neg hc, Option.bind_none, Option.or_none, hs.identities]
    · let i : Inquiry := ⟨(e.destination files root file).1, name, isDefault || name = "default", none⟩
      have htold : after.told? files i = e.told? files i :=
        classify_fst_of_kept hs.resolve hs.cache files _ _ _ _
      have hinfer := after.get?_infer files i r
      rw [hs.identities, htold] at hinfer
      have hc : ((after.infer files i.file i.name i.isDefault i.markup).1.resolved
          .inferred).confidence = .inferred := rfl
      rw [hl, if_pos hc, Option.bind_some]
      exact hinfer
  | extract root file =>
    obtain ⟨after, he, -⟩ := e.extract_snd files root file
    rw [perform, he]
    exact Option.or_none.symm
  | setIndex | clearLookups | clearExtractor | invalidate => exact Option.or_none.symm

end Engine

/-- Inquiries one after the other, with the files as they were. -/
abbrev Inquiries := List (MemoryFiles × Inquiry)

namespace Inquiries

/-- What a content told first, among the inquiries with the same request. -/
def firstTold? (asked : Inquiries) (e : Engine) (r : Request) : Option Identity :=
  asked.findSome? fun a => if a.2.request = r then e.told? a.1.view a.2 else none

/-- The inquiries since answers were last forgotten, after an operation. -/
def note (asked : Inquiries) (m : MemoryFiles) (e : Engine) (operation : Operation) : Inquiries :=
  if operation.clearsMemo then [] else asked ++ ((e.inquiry? m.view operation).map (m, ·)).toList

end Inquiries

/-- Files in memory and a new engine, each worked on in any order, with the inquiries since the
answers were last forgotten. -/
inductive Worked (resolve : ResolveSettings) (limits : CacheLimits) :
    Inquiries → MemoryFiles → Engine → Prop where
  | start : Worked resolve limits [] {} { resolve, limits }
  | write {asked : Inquiries} {m : MemoryFiles} {e : Engine} (h : Worked resolve limits asked m e)
      (path : Path) (content : String) : Worked resolve limits asked (m.write path content) e
  | remove {asked : Inquiries} {m : MemoryFiles} {e : Engine} (h : Worked resolve limits asked m e)
      (path : Path) : Worked resolve limits asked (m.remove path) e
  | perform {asked : Inquiries} {m : MemoryFiles} {e : Engine}
      (h : Worked resolve limits asked m e) (operation : Operation) :
      Worked resolve limits (asked.note m e operation) m (e.perform m.view operation)

/-- Sources that are those of the files, as long as these bear their stamps. -/
def SourceCache.Dated (cache : SourceCache) (m : MemoryFiles) : Prop :=
  ∀ path c, cache.files.get? path.place = some c → m.Dated path c.stamp (· = c.parsed)

theorem SourceCache.Dated.parse?_fst {cache : SourceCache} {m : MemoryFiles} (h : cache.Dated m)
    (path : Path) : (cache.parse? m.view path none).1 = m.view.source? path := by
  have hsources : SourceCache.Honest { cache with results := {} } m {} path :=
    ⟨h, fun _ _ _ hr => nomatch hr⟩
  rw [← hsources.parse?_fst path]
  exact parse?_fst_congr (.refl m.view path) rfl

theorem Engine.Drew.dated {m : MemoryFiles} {e e' : Engine} (h : Drew m.view e e')
    (ht : m.Timed) (hd : e.cache.Dated m) : e'.cache.Dated m := by
  intro path c hc
  rcases h.sources path.place c hc with hc | ⟨spelled, hp, hs, hstamp⟩
  · exact hd path c hc
  · have ha := m.view_alike hp
    rw [hstamp, ha.stamp]
    exact .now ht (Files.source?_congr ha ▸ hs) rfl

namespace Worked

variable {resolve : ResolveSettings} {limits : CacheLimits} {asked : Inquiries}
  {m : MemoryFiles} {e : Engine}

theorem timed (h : Worked resolve limits asked m e) : m.Timed := by
  induction h with
  | start =>
    intro place file hf
    cases hf
  | write _ path content ih => exact ih.write path content
  | remove _ path ih => exact ih.remove path
  | perform _ _ ih => exact ih

theorem resolve_eq (h : Worked resolve limits asked m e) : e.resolve = resolve := by
  induction h with
  | start => rfl
  | write | remove => assumption
  | @perform _ m e _ operation ih => exact (e.perform_drew m.view operation).resolve.trans ih

theorem dated (h : Worked resolve limits asked m e) : e.cache.Dated m := by
  induction h with
  | start =>
    intro path c hc
    cases hc
  | write _ p content ih => exact fun path c hc => (ih path c hc).write p content
  | remove _ p ih => exact fun path c hc => (ih path c hc).remove p
  | @perform _ m e h operation ih => exact (e.perform_drew m.view operation).dated h.timed ih

/-- At any time the contents tell what they would tell a new engine. -/
theorem told?_eq_new (h : Worked resolve limits asked m e) (i : Inquiry) :
    e.told? m.view i = ({ resolve, limits } : Engine).told? m.view i := by
  have hnew : SourceCache.Dated {} m := fun path c hc => nomatch hc
  rw [Engine.told?, Engine.told?, Engine.classify_fst, Engine.classify_fst, Engine.target?,
    Engine.target?, h.resolve_eq]
  simp only [h.dated.parse?_fst, hnew.parse?_fst]

/-- The identity that is kept for a request is the one that a content told first. -/
theorem get?_identities (h : Worked resolve limits asked m e) (r : Request) :
    e.memo.identities.get? r = asked.firstTold? { resolve, limits } r := by
  induction h with
  | start => rfl
  | write | remove => assumption
  | @perform asked m e h operation ih =>
    rw [Inquiries.note]
    cases ho : operation.clearsMemo with
    | true =>
      cases operation with
      | clearMemo | clear => rfl
      | _ => cases ho
    | false =>
      rw [Engine.get?_perform e m.view ho, ih, if_neg Bool.false_ne_true, Inquiries.firstTold?,
        Inquiries.firstTold?, List.findSome?_append]
      cases e.inquiry? m.view operation with
      | none => rfl
      | some i => simp [h.told?_eq_new]

theorem infer_eq_new (h : Worked resolve limits asked m e) (i : Inquiry) :
    (e.infer m.view i.file i.name i.isDefault i.markup).1 =
      (asked.firstTold? { resolve, limits } i.request).getD
        (({ resolve, limits } : Engine).fresh m.view i) := by
  have htold := h.told?_eq_new i
  rw [Engine.infer_fst, ← h.get?_identities, Engine.fresh, ← htold, Engine.named, Engine.named,
    h.resolve_eq]
  rfl

/-- After a file was invalidated, a name in it gets the id that a new engine would give it, unless
another identity was told first, since the answers were last forgotten. What an engine keeps of
contents is what they told first. -/
theorem generate_invalidated_iff (h : Worked resolve limits asked m e) (root file : Path)
    (name : String) (isDefault : Bool) :
    let new : Engine := { resolve, limits }
    let i : Inquiry := ⟨Path.absolute root file, name, isDefault, none⟩
    (((e.invalidate root file).generate m.view (Path.absolute root file) name isDefault none
          none).1.id =
        (new.generate m.view (Path.absolute root file) name isDefault none none).1.id ↔
      ∀ told, asked.firstTold? new i.request = some told → told = new.fresh m.view i) ∧
    ∀ r, e.memo.identities.get? r = asked.firstTold? new r := by
  intro new i
  have hnote : asked.note m e (.invalidate root file) = asked := List.append_nil asked
  have hafter : Worked resolve limits asked m (e.invalidate root file) :=
    hnote ▸ h.perform (.invalidate root file)
  have hnew : (new.infer m.view i.file i.name i.isDefault i.markup).1 = new.fresh m.view i := by
    rw [Engine.infer_fst, Table.get?_empty, Option.getD_none, Engine.fresh, Engine.told?]
  refine ⟨?_, h.get?_identities⟩
  rw [Engine.generate_fst, Engine.generate_fst, Identity.id_inj, hafter.infer_eq_new i, hnew]
  cases asked.firstTold? new i.request with
  | none => exact iff_of_true rfl fun _ htold => nomatch htold
  | some told => simp [new]

/-- Where nothing is kept any more, a rewritten file is told anew. -/
theorem generate_invalidated_after_clearing :
    ∃ asked m e, Worked {} ⟨true, 0, 0, 0⟩ asked m e ∧ m.clock = 2 ∧
      ((e.invalidate ⟨"/repo"⟩ ⟨"src/a.ts"⟩).generate m.view
          (Path.absolute ⟨"/repo"⟩ ⟨"src/a.ts"⟩) "a" false none none).1.id =
        (({ resolve := {}, limits := ⟨true, 0, 0, 0⟩ } : Engine).generate m.view
          (Path.absolute ⟨"/repo"⟩ ⟨"src/a.ts"⟩) "a" false none none).1.id := by
  have hw : Worked {} ⟨true, 0, 0, 0⟩ _ _ _ :=
    .write (.perform (.perform (.write .start ⟨"/repo/src/a.ts"⟩ "export function a() \x7b\x7d")
      (.generate ⟨"/repo/src/a.ts"⟩ "a" false none none)) .clearMemo) ⟨"/repo/src/a.ts"⟩
      "export const a = 1;"
  refine ⟨_, _, _, hw, rfl, (generate_invalidated_iff hw ⟨"/repo"⟩ ⟨"src/a.ts"⟩ "a" false).1.mpr ?_⟩
  intro told htold
  cases htold

/-- A directory with an entry file is asked for its default export, and makes room for a script of
the same name. -/
theorem generate_invalidated_outdated :
    ∃ asked m e, Worked {} ⟨true, 0, 0, 0⟩ asked m e ∧
      m.view.isFile ⟨"/repo/src/card.ts"⟩ = true ∧
      ((e.invalidate ⟨"/repo"⟩ ⟨"src/card.ts"⟩).generate m.view
          (Path.absolute ⟨"/repo"⟩ ⟨"src/card.ts"⟩) "card" true none none).1.id =
        "Component:card.ts" ∧
      (({ resolve := {}, limits := ⟨true, 0, 0, 0⟩ } : Engine).generate m.view
          (Path.absolute ⟨"/repo"⟩ ⟨"src/card.ts"⟩) "card" true none none).1.id ≠
        "Component:card.ts" := by
  have hw : Worked {} ⟨true, 0, 0, 0⟩ _ _ _ :=
    .write (.remove (.perform (.write .start ⟨"/repo/src/card.ts/index.vue"⟩ "")
      (.generate ⟨"/repo/src/card.ts"⟩ "card" true none none)) ⟨"/repo/src/card.ts/index.vue"⟩)
      ⟨"/repo/src/card.ts"⟩ "export default function card() \x7b\x7d"
  refine ⟨_, _, _, hw, by decide +kernel, by decide +kernel, ?_⟩
  -- The script is not read: whatever it holds, its default export is named after the file.
  have hcard : "Component:card.ts" =
      ((⟨.component, "card.ts"⟩ : Identity).resolved .inferred).id := by decide +kernel
  rw [Engine.generate_fst, hcard, ne_eq, Identity.id_inj]
  intro hid
  have hname := congrArg Identity.name hid
  rw [Engine.name_of_infer_default (by decide +kernel) rfl (by decide +kernel)] at hname
  exact absurd hname (by decide +kernel)

end Worked

end Exports
