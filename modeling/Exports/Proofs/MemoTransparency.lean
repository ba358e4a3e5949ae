import Exports.Proofs.Extract
import Exports.Proofs.Index
import Exports.Proofs.Lookup

namespace Exports.Engine

/-- Runs of a new engine. An index that was set leaves it unsettled until the next clearing, and
an unsettled engine is not asked for lookups. Lookups are of files whose names are texts. -/
inductive Run (files : Files) (root : Path) (resolve : ResolveSettings) (limits : CacheLimits) :
    Engine → Bool → Prop where
  | start : Run files root resolve limits { resolve, limits } false
  | extract {e : Engine} {unsettled : Bool} (h : Run files root resolve limits e unsettled)
      (base file : Path) : Run files root resolve limits (e.extract files base file).2 unsettled
  | extractAll {e : Engine} {unsettled : Bool} (h : Run files root resolve limits e unsettled)
      (base : Path) (all : List Path) :
      Run files root resolve limits (e.extractAll files base all).2 unsettled
  | setIndex {e : Engine} {unsettled : Bool} (h : Run files root resolve limits e unsettled)
      (es : List Entity) : Run files root resolve limits (e.setIndex es) true
  | lookup {e : Engine} (h : Run files root resolve limits e false) {file : Path}
      (hf : file.IsText) (name : String) (isDefault : Bool) :
      Run files root resolve limits (e.lookup files root file name isDefault).2 false
  | clearLookups {e : Engine} {unsettled : Bool} (h : Run files root resolve limits e unsettled) :
      Run files root resolve limits e.clearLookups false
  | clearMemo {e : Engine} {unsettled : Bool} (h : Run files root resolve limits e unsettled) :
      Run files root resolve limits e.clearMemo false
  | invalidate {e : Engine} {unsettled : Bool} (h : Run files root resolve limits e unsettled)
      (base file : Path) : Run files root resolve limits (e.invalidate base file) unsettled

variable {files : Files} {root : Path} {resolve : ResolveSettings} {limits : CacheLimits}
  {e : Engine} {unsettled : Bool}

/-- What is kept says nothing that a new engine would not say. -/
structure Transparent (files : Files) (resolve : ResolveSettings) (limits : CacheLimits)
    (e : Engine) (unsettled : Bool) : Prop where
  contents : SameContents files e { resolve, limits }
  findings : unsettled = false → SameFindings e { resolve, limits, index := e.index }

/-- An extraction reads files as lookups do, so it tells them nothing new. -/
theorem extract_sameContents (hc : files.Coherent) (e : Engine) (base file : Path) :
    SameContents files (e.extract files base file).2 e := by
  obtain ⟨after, he, hf⟩ := e.extract_snd files base file
  rw [he]
  refine .of_kept rfl rfl fun {p} hp => ?_
  rcases hf with hf | ⟨cache, hcache, hf⟩
  · exact SourceCache.parse?_fst_congr (.refl files p) (by rw [hf])
  · calc (after.parse? files p none).1
        = ((cache.parse? files (Path.absolute base file) none).2.parse? files p none).1 :=
          SourceCache.parse?_fst_congr (.refl files p) (by rw [hf])
      _ = (cache.parse? files p none).1 :=
          SourceCache.parse?_parse?_fst hc cache hp (.absolute files base file)
      _ = (e.cache.parse? files p none).1 :=
          SourceCache.parse?_fst_congr (.refl files p) (by rw [hcache])

theorem extract_sameFindings (e : Engine) (files : Files) (base file : Path) :
    SameFindings (e.extract files base file).2 e := by
  obtain ⟨after, he, -⟩ := e.extract_snd files base file
  rw [he]
  exact .of_memo rfl rfl rfl rfl

namespace Transparent

theorem of_same {e' : Engine} (h : Transparent files resolve limits e unsettled)
    (hc : SameContents files e' e) (hf : SameFindings e' e) :
    Transparent files resolve limits e' unsettled where
  contents := hc.trans h.contents
  findings hu := by
    rw [hf.index]
    exact hf.trans (h.findings hu)

theorem extract (hc : files.Coherent) (h : Transparent files resolve limits e unsettled)
    (base file : Path) :
    Transparent files resolve limits (e.extract files base file).2 unsettled :=
  h.of_same (extract_sameContents hc e base file) (e.extract_sameFindings files base file)

theorem extractAll (hc : files.Coherent) (h : Transparent files resolve limits e unsettled)
    (base : Path) (all : List Path) :
    Transparent files resolve limits (e.extractAll files base all).2 unsettled := by
  induction all generalizing e with
  | nil => exact h
  | cons file rest ih =>
    have hx := h.extract hc base file
    rcases e.extractAll_snd_cons files base file rest with hall | hall
    · rw [hall]
      exact hx
    · rw [hall]
      exact ih hx

theorem setIndex (h : Transparent files resolve limits e unsettled) (es : List Entity) :
    Transparent files resolve limits (e.setIndex es) true where
  contents :=
    have hs : SameContents files (e.setIndex es) e := .of_kept rfl rfl fun _ => rfl
    hs.trans h.contents
  findings hu := by cases hu

theorem clearLookups (h : Transparent files resolve limits e unsettled) :
    Transparent files resolve limits e.clearLookups false where
  contents :=
    have hs : SameContents files e.clearLookups e := .of_kept rfl rfl fun _ => rfl
    hs.trans h.contents
  findings _ := .of_memo h.contents.resolve rfl rfl rfl

theorem clearMemo (h : Transparent files resolve limits e unsettled) :
    Transparent files resolve limits e.clearMemo false where
  contents := .of_kept h.contents.resolve rfl fun hp => h.contents.sources hp
  findings _ := .of_memo h.contents.resolve rfl rfl rfl

theorem invalidate (h : Transparent files resolve limits e unsettled) (base file : Path) :
    Transparent files resolve limits (e.invalidate base file) unsettled := by
  have hsources : ∀ {p}, files.Reached p →
      ((e.cache.clearFile (Path.absolute base file)).parse? files p none).1 =
        (e.cache.parse? files p none).1 := by
    intro p hp
    by_cases hpf : p.place = (Path.absolute base file).place
    · rw [h.contents.sources hp]
      apply SourceCache.parse?_fst_congr (.refl files p)
      rw [SourceCache.clearFile, Table.get?_erase, if_pos hpf, Table.get?_empty]
    · apply SourceCache.parse?_fst_congr (.refl files p)
      rw [SourceCache.clearFile, Table.get?_erase, if_neg hpf]
  have hf : SameFindings (e.invalidate base file) e := .of_memo rfl rfl rfl rfl
  exact h.of_same (.of_kept rfl rfl hsources) hf

end Transparent

theorem Run.transparent (hc : files.Coherent) (hr : root.isAbsolute = true) (ht : root.IsText)
    (h : Run files root resolve limits e unsettled) :
    Transparent files resolve limits e unsettled := by
  induction h with
  | start => exact ⟨.refl files _, fun _ => .refl _⟩
  | extract _ base file ih => exact ih.extract hc base file
  | extractAll _ base all ih => exact ih.extractAll hc base all
  | setIndex _ es ih => exact ih.setIndex es
  | lookup _ hf name isDefault ih =>
    obtain ⟨hs, hf⟩ := lookup_same hc hr ht hf _ name isDefault
    exact ih.of_same hs hf
  | clearLookups _ ih => exact ih.clearLookups
  | clearMemo _ ih => exact ih.clearMemo
  | invalidate _ base file ih => exact ih.invalidate base file

/-- What the index answers is the id of one of its entities. -/
theorem exists_of_lookup_indexed (hm : e.memo = {}) {file : Path} {name : String}
    {isDefault : Bool}
    (h : (e.lookup files root file name isDefault).1.confidence = .indexed) :
    ∃ x ∈ e.index.entities, x.id = (e.lookup files root file name isDefault).1.id := by
  rcases e.lookup_cases files root file name isDefault with
    ⟨id, after, hid, hl⟩ | ⟨after, -, -, -, hl⟩
  · have hfst := e.findIndexed_fst (e.request files root file name isDefault)
    rw [hid, searchNearby_fst_of_empty hm] at hfst
    rw [hl]
    rcases Option.or_eq_some_iff.mp hfst.symm with hx | ⟨-, hx⟩
    · exact Request.exists_of_inFile? hx
    · exact Request.exists_of_nearby? hx
  · rw [hl] at h
    cases h

end Exports.Engine
