import Exports.Proofs.Invalidation
import Exports.Proofs.NamedKind

namespace Exports

theorem Identity.resolved_inj {i j : Identity} {confidence : Confidence} :
    i.resolved confidence = j.resolved confidence ↔ i = j :=
  ⟨fun h => id_inj.mp (congrArg Resolved.id h), fun h => congrArg (·.resolved confidence) h⟩

namespace Engine

def inquire (e : Engine) (files : Files) (i : Inquiry) : Resolved × Engine :=
  e.generate files i.file i.name i.isDefault none i.markup

def inquireAll (e : Engine) (files : Files) : List Inquiry → Engine
  | [] => e
  | i :: rest => (e.inquire files i).2.inquireAll files rest

/-- What a content told first, among the inquiries with the same request. -/
def firstTold? (e : Engine) (files : Files) (earlier : List Inquiry) (r : Request) :
    Option Identity :=
  earlier.findSome? fun i => if i.request = r then e.told? files i else none

variable {e e' : Engine} {files : Files} {i : Inquiry} {told : Identity}

theorem inquire_fst (e : Engine) (files : Files) (i : Inquiry) :
    (e.inquire files i).1 =
      ((e.memo.identities.get? i.request).getD (e.fresh files i)).resolved .inferred := by
  rw [inquire, generate_fst, infer_fst, Inquiry.request, fresh, told?]

theorem inquire_fst_clearMemo (e : Engine) (files : Files) (i : Inquiry) :
    (e.clearMemo.inquire files i).1 = (e.clearMemo.fresh files i).resolved .inferred := by
  rw [inquire_fst, clearMemo, Table.get?_empty, Option.getD_none]

/-- Two engines to which contents and names tell the same. -/
structure ToldAlike (files : Files) (e e' : Engine) : Prop where
  resolve : e.resolve = e'.resolve
  told : ∀ i, e.told? files i = e'.told? files i

namespace ToldAlike

theorem refl (files : Files) (e : Engine) : ToldAlike files e e := ⟨rfl, fun _ => rfl⟩

theorem trans {e'' : Engine} (h : ToldAlike files e e') (h' : ToldAlike files e' e'') :
    ToldAlike files e e'' :=
  ⟨h.resolve.trans h'.resolve, fun i => (h.told i).trans (h'.told i)⟩

theorem of_sources (hr : e.resolve = e'.resolve)
    (hs : ∀ p, (e.cache.parse? files p none).1 = (e'.cache.parse? files p none).1) :
    ToldAlike files e e' := by
  refine ⟨hr, fun i => ?_⟩
  rw [told?, told?, classify_fst, classify_fst, target?, target?, hr]
  simp only [hs]

theorem fresh_eq (h : ToldAlike files e e') (i : Inquiry) :
    e.fresh files i = e'.fresh files i := by
  rw [fresh, fresh, h.told, named, named, h.resolve]

theorem firstTold?_eq (h : ToldAlike files e e') (earlier : List Inquiry) (r : Request) :
    e.firstTold? files earlier r = e'.firstTold? files earlier r := by
  simp only [firstTold?, h.told]

end ToldAlike

/-- An inquiry parses at most one file, which changes nothing of what is told. -/
theorem inquire_toldAlike (hc : files.Coherent) (hs : files.Stamped) (e : Engine) (i : Inquiry) :
    ToldAlike files (e.inquire files i).2 e := by
  refine .of_sources (e.infer_drew files i.file i.name i.isDefault i.markup).resolve fun p => ?_
  rcases e.infer_cache files i.file i.name i.isDefault i.markup with h | ⟨target, h⟩
  · rw [inquire, generate, h]
  · rw [inquire, generate, h]
    exact SourceCache.parse?_parse?_fst_of_stamped hc hs e.cache p target

theorem inquireAll_toldAlike (hc : files.Coherent) (hs : files.Stamped) (e : Engine)
    (earlier : List Inquiry) : ToldAlike files (e.inquireAll files earlier) e := by
  induction earlier generalizing e with
  | nil => exact .refl files e
  | cons i rest ih => exact (ih _).trans (inquire_toldAlike hc hs e i)

/-- After any inquiries, what is kept is what was kept before, or what a content told first. -/
theorem get?_inquireAll (hc : files.Coherent) (hs : files.Stamped) (e : Engine)
    (earlier : List Inquiry) (r : Request) :
    (e.inquireAll files earlier).memo.identities.get? r =
      (e.memo.identities.get? r).or (e.firstTold? files earlier r) := by
  induction earlier generalizing e with
  | nil => simp [inquireAll, firstTold?]
  | cons i rest ih =>
    have hkept : (e.inquire files i).2.memo.identities.get? r = _ := e.get?_infer files i r
    rw [inquireAll, ih, hkept, (inquire_toldAlike hc hs e i).firstTold?_eq, Option.or_assoc]
    congr 1
    rw [firstTold?, firstTold?, List.findSome?_cons]
    cases (if i.request = r then e.told? files i else none) <;> rfl

theorem inquire_fst_inquireAll (hc : files.Coherent) (hs : files.Stamped) (e : Engine)
    (earlier : List Inquiry) (i : Inquiry) :
    ((e.clearMemo.inquireAll files earlier).inquire files i).1 =
      ((e.clearMemo.firstTold? files earlier i.request).getD
        (e.clearMemo.fresh files i)).resolved .inferred := by
  have hnone : e.clearMemo.memo.identities.get? i.request = none := rfl
  rw [inquire_fst, get?_inquireAll hc hs, hnone, Option.none_or,
    (inquireAll_toldAlike hc hs e.clearMemo earlier).fresh_eq]

theorem found_of_told? (hs : files.Stamped) (h : e.told? files i = some told) :
    files.Found i.file := by
  rw [told?, classify_fst] at h
  obtain ⟨target, ht, h⟩ := Option.bind_eq_some_iff.mp h
  obtain ⟨parsed, hp, -⟩ := Option.bind_eq_some_iff.mp h
  unfold target? at ht
  split at ht
  · rename_i hd
    exact .inr hd
  · obtain rfl := Option.some.inj ht
    by_contra hn
    rw [SourceCache.parse?_fst_of_not_found hs _ hn] at hp
    cases hp

/-- Inquiries for one name of one place, with one override, are told the same. -/
theorem told?_eq_of_request (hc : files.Coherent) (hs : files.Stamped) {j : Inquiry}
    (hi : files.Reached i.file) (hia : i.file.isAbsolute = true) (hja : j.file.isAbsolute = true)
    (hit : i.file.IsText) (hjt : j.file.IsText) (hr : j.request = i.request)
    (hm : j.markup = i.markup) (h : e.told? files j = some told) :
    e.told? files i = some told := by
  obtain ⟨hfile, hname, hdefault⟩ := Request.mk.inj hr
  have halike : files.Alike i.file j.file :=
    hc.alike hi (.inr (found_of_told? hs h)) (Path.place_eq_of_slashed hia hja hit hjt hfile.symm)
  rw [told?, classify_alike hc halike, ← hname, ← hdefault, ← hm]
  exact h

/-- Whatever was asked before, an inquiry is answered as by an engine that keeps nothing, unless
the content told an earlier one with the same request something else. So it is if all of these had
the same override, for files whose names are texts. Files in memory and on disk are coherent and
stamped. -/
theorem inquire_after_others_iff (hc : files.Coherent) (hs : files.Stamped) (e : Engine)
    (earlier : List Inquiry) (i : Inquiry) :
    (((e.clearMemo.inquireAll files earlier).inquire files i).1 =
        (e.clearMemo.inquire files i).1 ↔
      ∀ told, e.clearMemo.firstTold? files earlier i.request = some told →
        told = e.clearMemo.fresh files i) ∧
    (i.file.isAbsolute = true → i.file.IsText → files.Reached i.file →
      (∀ j ∈ earlier, j.file.isAbsolute = true ∧ j.file.IsText) →
      (∀ j ∈ earlier, j.request = i.request → j.markup = i.markup) →
      ((e.clearMemo.inquireAll files earlier).inquire files i).1 =
        (e.clearMemo.inquire files i).1) := by
  have hiff : ((e.clearMemo.inquireAll files earlier).inquire files i).1 =
        (e.clearMemo.inquire files i).1 ↔
      ∀ told, e.clearMemo.firstTold? files earlier i.request = some told →
        told = e.clearMemo.fresh files i := by
    rw [inquire_fst_inquireAll hc hs, inquire_fst_clearMemo, Identity.resolved_inj]
    cases e.clearMemo.firstTold? files earlier i.request with
    | none => simp
    | some told => simp
  refine ⟨hiff, fun hi hit hreached hearlier hsame => hiff.mpr fun told hfirst => ?_⟩
  obtain ⟨j, hj, htold⟩ := List.exists_of_findSome?_eq_some hfirst
  split at htold
  · rename_i hr
    obtain ⟨hja, hjt⟩ := hearlier j hj
    have hown := told?_eq_of_request hc hs hreached hi hja hit hjt hr (hsame j hj hr) htold
    rw [fresh, hown, Option.getD_some]
  · cases htold

end Engine

namespace MarkupCard

open Script AliasChain

def text : String := "export function Card()\x7b\x7d"

def source : ParsedSource where
  language := .typescript
  scriptLanguage := .typescript
  content := text
  source := text.toList
  tree := phrase .program none 0 24
    [phrase .exportStatement none 0 24
      [word "export" 0,
        phrase .functionDeclaration (some .declaration) 7 17
          [word "function" 7, leaf .identifier (some .name) 16 4,
            phrase .parameters none 20 2 [word "(" 20, word ")" 21],
            phrase .block (some .body) 22 2 [word "\x7b" 22, word "\x7d" 23]]]]
  block := none

def files : MemoryFiles := ({} : MemoryFiles).write ⟨"/repo/src/Card.ts"⟩ text

/-- An engine that has parsed `src/Card.ts`. -/
def engine : Engine :=
  { resolve := {}, limits := ⟨true, 0, 0, 0⟩
    cache := SourceCache.remember {} files.view ⟨"/repo/src/Card.ts"⟩ source }

/-- Where parsing gives that tree for the text, the cache is that of an engine that has parsed the
file. -/
theorem parse?_card (ht : Script.parse (.ofLanguage .typescript) text.toList = source.tree) :
    ({} : SourceCache).parse? files.view ⟨"/repo/src/Card.ts"⟩ none =
      (some source, engine.cache) := by
  have hl : Language.ofPath ⟨"/repo/src/Card.ts"⟩ = .ok .typescript := by decide +kernel
  apply SourceCache.parse?_new
  rw [files, MemoryFiles.source?_write _ hl rfl, ParsedSource.ofScript, ht]
  rfl

/-- The name `Card` is asked for. -/
def inquiry (file : String) (isDefault : Bool) (markup : Option Bool) : Inquiry :=
  ⟨⟨file⟩, "Card", isDefault, markup⟩

/-- The function is asked for twice with the same override, in two spellings of its path, and its
file for a default export without one. -/
theorem inquire_same_override :
    ((engine.clearMemo.inquireAll files.view
          [inquiry "/repo/src/Card.ts" true none,
            inquiry "/repo/src/./Card.ts" false (some true)]).inquire files.view
          (inquiry "/repo/src/Card.ts" false (some true))).1 =
        (engine.clearMemo.inquire files.view (inquiry "/repo/src/Card.ts" false (some true))).1 ∧
      (engine.clearMemo.inquire files.view
        (inquiry "/repo/src/Card.ts" false (some true))).1.id = "Function:Card" := by
  refine ⟨(Engine.inquire_after_others_iff files.view_coherent files.view_stamped engine _ _).2
    ?_ ?_ ?_ ?_ ?_, by decide +kernel⟩
  · decide +kernel
  · exact Path.isText_encode _
  · exact .inr (.inl (by decide +kernel))
  · decide +kernel
  · decide +kernel

/-- Where no markup is built the name makes a component of the function. That answer stays when
the override says that markup is built, and the function builds none. -/
theorem inquire_other_override :
    ((engine.clearMemo.inquireAll files.view [inquiry "/repo/src/Card.ts" false none]).inquire
        files.view (inquiry "/repo/src/Card.ts" false (some true))).1.id = "Component:Card" ∧
      (engine.clearMemo.inquire files.view
        (inquiry "/repo/src/Card.ts" false (some true))).1.id = "Function:Card" := by
  decide +kernel

end MarkupCard

end Exports
