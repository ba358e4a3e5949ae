import Exports.Proofs.EntryImport
import Exports.Proofs.Footprint
import Exports.Proofs.ScriptBlock

namespace Exports

namespace CacheLimits

def cost (limits : CacheLimits) (entities : List Entity) : Nat :=
  limits.parsedFileBytes.toNat + entities.length * limits.entityBytes.toNat

/-- No file within the budget leaves anything that counts: there is none, or neither files nor those
entities that they can have take any bytes. -/
def Weightless (limits : CacheLimits) (budget : Nat) : Prop :=
  budget < limits.parsedFileBytes.toNat ∨
    limits.parsedFileBytes.toNat = 0 ∧ (limits.keptBytes = 0 ∨ budget < limits.keptBytes)

end CacheLimits

namespace SourceCache

variable {cache : SourceCache} {limits : CacheLimits} {log : List ResultKey}

def sizes (cache : SourceCache) : List Nat := cache.byAge.map (·.2.entities.length)

theorem entityCount_eq_sizes (cache : SourceCache) : cache.entityCount = cache.sizes.sum :=
  entityCount_eq_sum cache.byAge_perm.symm

theorem sizes_cleaned (h : cache.Ordered log) (limits : CacheLimits) :
    (cache.cleaned limits).sizes = cache.sizes ∨
      0 < cache.footprint limits ∧
        (cache.cleaned limits).sizes = cache.sizes.drop (cache.sizes.length / 2) := by
  unfold cleaned
  split
  · rename_i hover
    right
    have hsize : cache.sizes.length = cache.results.size := by
      rw [sizes, List.length_map, cache.byAge_perm.length_eq]
      rfl
    refine ⟨Nat.zero_lt_of_lt hover, ?_⟩
    rw [hsize, sizes, h.byAge_dropOlderHalf, List.map_drop]
    rfl
  · exact .inl rfl

theorem sizes_store (h : cache.Ordered log) (limits : CacheLimits) (files : Files)
    (extractor : Extractor) (path : Path) (entities : List Entity)
    (hnew : ∀ r ∈ cache.results.entries, r.1 ≠ (extractor, path.place)) :
    ((cache.cleaned limits).store files extractor path entities).sizes =
      (cache.cleaned limits).sizes ++ [entities.length] := by
  have hnot : (extractor, path.place) ∉ (cache.cleaned limits).results.entries.map Prod.fst := by
    intro hm
    obtain ⟨r, hr, hkey⟩ := List.mem_map.mp hm
    exact hnew r (mem_of_mem_cleaned hr) hkey
  rw [sizes, (h.cleaned limits).byAge_store hnot, List.map_append]
  rfl

end SourceCache

namespace Engine

variable {e : Engine} {files : Files} {root file : Path}

/-- What an extraction gives, and the cache that it leaves. -/
inductive Extracts (e : Engine) (files : Files) (root file : Path) :
    Option (List Entity) → SourceCache → Prop where
  | same {es : List Entity} : Extracts e files root file (some es) e.cache
  | checked {es : List Entity} (extractor : Extractor) :
      Extracts e files root file (some es)
        (e.cache.getResult e.limits files extractor (Path.absolute root file)).2
  | left {given : Option (List Entity)} (hl : e.limits.enabled = true → given = none) :
      Extracts e files root file given (e.cacheAtStore files root file)
  | stored {es : List Entity} {extractor : Extractor} (he : e.limits.enabled = true)
      (hlt : (e.cacheAtStore files root file).footprint e.limits < 2 ^ 64) :
      Extracts e files root file (some es)
        (((e.cacheAtStore files root file).cleaned e.limits).store files extractor
          (Path.absolute root file) es)

theorem extracts (e : Engine) (files : Files) (root file : Path) :
    Extracts e files root file (e.extract files root file).1
      (e.extract files root file).2.cache := by
  cases hl : Language.ofPath (Path.absolute root file) with
  | error error =>
    rw [extract_unsupported hl]
    exact .same
  | ok language =>
    have hat := e.cacheAtStore_ok files hl
    rcases hg : e.cache.getResult e.limits files (.ofLanguage language) (Path.absolute root file)
      with ⟨_ | entities, cache⟩
    · rcases hp : cache.parse? files (Path.absolute root file) none with ⟨_ | parsed, after⟩
      · rcases cache.parse?_cases files (Path.absolute root file) with
          ⟨c, -, he⟩ | ⟨parsed, -, -, he⟩ | ⟨-, he⟩
        · rw [he] at hp
          cases hp
        · rw [he] at hp
          cases hp
        · rw [extract_unparsed hl hg he]
          have hc : Extracts e files root file (some []) _ := .checked (.ofLanguage language)
          rwa [hg] at hc
      · have hafter : e.cacheAtStore files root file = after := by rw [hat, hg, hp]
        rw [extract_parsed hl hg hp rfl, ← hafter]
        cases he : e.limits.enabled with
        | false =>
          rw [SourceCache.setResult_disabled he]
          exact .left (by simp [he])
        | true =>
          by_cases hlt : (e.cacheAtStore files root file).footprint e.limits < 2 ^ 64
          · rw [SourceCache.setResult?_of_lt hlt, SourceCache.setResult_enabled he hlt]
            exact .stored he hlt
          · rw [SourceCache.setResult,
              SourceCache.setResult?_eq_none_iff.mpr ⟨he, Nat.not_lt.mp hlt⟩]
            exact .left fun _ => rfl
    · rw [extract_served hl hg]
      have hc : Extracts e files root file (some entities) _ := .checked (.ofLanguage language)
      rwa [hg] at hc

theorem kept_cacheAtStore {log : List ResultKey} (h : Kept e.limits log e.cache) (files : Files)
    (root file : Path) : Kept e.limits log (e.cacheAtStore files root file) := by
  cases hl : Language.ofPath (Path.absolute root file) with
  | error error => rwa [e.cacheAtStore_error files hl]
  | ok language =>
    rw [e.cacheAtStore_ok files hl]
    exact (h.getResult files _ _).parse files _ none

theorem entityCount_cacheAtStore_le (e : Engine) (files : Files) (root file : Path) :
    (e.cacheAtStore files root file).entityCount ≤ e.cache.entityCount := by
  cases hl : Language.ofPath (Path.absolute root file) with
  | error error => rw [e.cacheAtStore_error files hl]
  | ok language =>
    rw [e.cacheAtStore_ok files hl, SourceCache.entityCount_parse?]
    exact e.cache.entityCount_getResult_le ..

theorem extract_kept {log : List ResultKey} (h : Kept e.limits log e.cache) (files : Files)
    (root file : Path) : ∃ log, Kept e.limits log (e.extract files root file).2.cache := by
  have hx := e.extracts files root file
  generalize (e.extract files root file).1 = given, (e.extract files root file).2.cache = after
    at hx ⊢
  cases hx with
  | same => exact ⟨log, h⟩
  | checked extractor => exact ⟨log, h.getResult files extractor _⟩
  | left hl => exact ⟨log, kept_cacheAtStore h files root file⟩
  | @stored es extractor he hlt =>
    rw [← SourceCache.setResult_enabled he hlt]
    exact ⟨_, (kept_cacheAtStore h files root file).setResult (SourceCache.setResult?_of_lt hlt)⟩

/-- Only the result of an extraction adds to the entities, and only where results are kept. -/
theorem entityCount_extract_le {log : List ResultKey} (h : Kept e.limits log e.cache)
    (files : Files) (root file : Path) :
    (e.extract files root file).2.cache.entityCount ≤
      e.cache.entityCount +
        if e.limits.enabled then (e.extracted files root file).length else 0 := by
  have hx := e.extracts files root file
  unfold extracted
  generalize (e.extract files root file).1 = given, (e.extract files root file).2.cache = after
    at hx ⊢
  cases hx with
  | same => exact Nat.le_add_right ..
  | checked extractor => exact Nat.le_add_right_of_le (e.cache.entityCount_getResult_le ..)
  | left hl => exact Nat.le_add_right_of_le (e.entityCount_cacheAtStore_le files root file)
  | @stored es extractor he hlt =>
    have hk := kept_cacheAtStore h files root file
    have hle := e.entityCount_cacheAtStore_le files root file
    have hstore := SourceCache.entityCount_store_le (hk.ordered.cleaned e.limits).distinct files
      extractor (Path.absolute root file) es
    have hclean := (e.cacheAtStore files root file).entityCount_cleaned_le e.limits
    rw [if_pos he, Option.getD_some]
    omega

end Engine

/-- An engine that drew entities from files, one after the other, none of which costs more than the
budget. The files may be other ones each time. It goes on after an extraction that does not
return. -/
inductive Budgeted (resolve : ResolveSettings) (limits : CacheLimits) (budget : Nat) :
    Engine → Prop where
  | start : Budgeted resolve limits budget { resolve, limits }
  | extract {e : Engine} (h : Budgeted resolve limits budget e) (files : Files) (root file : Path)
      (hcost : limits.cost (e.extracted files root file) ≤ budget) :
      Budgeted resolve limits budget (e.extract files root file).2

namespace Budgeted

variable {resolve : ResolveSettings} {limits : CacheLimits} {budget : Nat} {e : Engine}

theorem limits_eq (h : Budgeted resolve limits budget e) : e.limits = limits := by
  induction h with
  | start => rfl
  | @extract e h files root file hcost ih =>
    obtain ⟨after, hafter, -⟩ := e.extract_snd files root file
    rw [hafter]
    exact ih

theorem kept (h : Budgeted resolve limits budget e) : ∃ log, Kept limits log e.cache := by
  induction h with
  | start => exact ⟨[], .start⟩
  | @extract e h files root file hcost ih =>
    obtain ⟨log, hk⟩ := ih
    rw [← h.limits_eq] at hk ⊢
    exact Engine.extract_kept hk files root file

/-- Where no entity that is kept can be paid for, there is none. -/
theorem entityCount_eq_zero (h : Budgeted resolve limits budget e)
    (hlt : budget < limits.keptBytes) : e.cache.entityCount = 0 := by
  have he := CacheLimits.enabled_of_keptBytes (Nat.ne_zero_of_lt hlt)
  rw [CacheLimits.keptBytes_of_enabled he] at hlt
  induction h with
  | start => rfl
  | @extract e h files root file hcost ih =>
    have hnone : (e.extracted files root file).length = 0 := by
      by_contra hne
      have hle := Nat.le_mul_of_pos_left limits.entityBytes.toNat (Nat.pos_of_ne_zero hne)
      simp only [CacheLimits.cost] at hcost
      omega
    obtain ⟨log, hk⟩ := h.kept
    rw [← h.limits_eq] at hk
    have hle := Engine.entityCount_extract_le hk files root file
    rw [hnone, ite_self] at hle
    omega

theorem footprint_of_weightless (h : Budgeted resolve limits budget e)
    (hw : limits.Weightless budget) : e.cache.footprint limits = 0 := by
  obtain ⟨log, hk⟩ := h.kept
  rcases hw with hP | ⟨hP, hE | hE⟩
  · cases h with
    | start => exact SourceCache.footprint_empty limits
    | extract h files root file hcost =>
      simp only [CacheLimits.cost] at hcost
      omega
  · rw [hk.footprint_eq, hP, hE, Nat.mul_zero, Nat.mul_zero]
  · rw [hk.footprint_eq, hP, h.entityCount_eq_zero hE, Nat.mul_zero, Nat.zero_mul]

end Budgeted

theorem settled_cardPlace (depth : Nat) : Place.Settled (cardPlace depth).reverse := by
  rw [cardPlace, List.reverse_cons, List.reverse_append, List.reverse_replicate]
  induction depth with
  | zero => trivial
  | succ depth ih => exact ih

theorem absolute_cardPath (root : Path) (depth : Nat) :
    Path.absolute root (cardPath depth) = cardPath depth := by
  have habs : (cardPath depth).isAbsolute = true := by
    rw [Path.isAbsolute_iff_place, place_cardPath]
    rfl
  have hnormal : (cardPath depth).place.normalize = (cardPath depth).place := by
    have hfold := (settled_cardPlace depth).foldl_reverse
    rw [List.reverse_reverse] at hfold
    rw [place_cardPath, Place.normalize, hfold, List.reverse_reverse]
  rw [Path.absolute_of_normal habs hnormal, Path.plain, place_cardPath]
  rfl

/-- The files when a card with this text is all there is. -/
def cardFiles (depth : Nat) (text : String) : Files :=
  (({} : MemoryFiles).write (cardPath depth) text).view

theorem source?_cardFiles (depth : Nat) (text : String) :
    (cardFiles depth text).source? (cardPath depth) = some (.ofContent .vue text) := by
  have hfile := MemoryFiles.file?_write {} (cardPath depth) (cardPath depth) text
  rw [if_pos rfl] at hfile
  simp only [Files.source?, ofPath_cardPath, cardFiles, SourceCache.contentOf, MemoryFiles.view,
    hfile]
  rfl

def cardEntities (e : Engine) (root : Path) (depth : Nat) (text : String) : List Entity :=
  Module.componentEntities ⟨Path.relative root (cardPath depth), e.resolve⟩ (.ofContent .vue text)

theorem length_cardEntities_empty (e : Engine) (root : Path) (depth : Nat) :
    (cardEntities e root depth "").length = 0 := rfl

theorem length_cardEntities_setup (e : Engine) (root : Path) (depth : Nat) :
    (cardEntities e root depth "<script setup></script>").length = 1 := by
  have hfind : ScriptBlock.find? "<script setup></script>".toList =
      some ⟨[], .javascript, 1, true⟩ := by decide +kernel
  rw [cardEntities, ScriptBlock.componentEntities_of_isSetup hfind rfl]
  rfl

/-- The cache after a card with this text was parsed. -/
def SourceCache.deal (cache : SourceCache) (depth : Nat) (text : String) : SourceCache :=
  cache.remember (cardFiles depth text) (cardPath depth) (.ofContent .vue text)

/-- So many cards went through an engine. -/
structure Dealt (e : Engine) (n : Nat) : Prop where
  files : HoldsCards e.cache.files n
  results : ∀ r ∈ e.cache.results.entries, ∃ k < n, r.1.2 = cardPlace k

namespace Dealt

variable {e : Engine} {n : Nat}

theorem ne_key (h : Dealt e n) : ∀ r ∈ e.cache.results.entries,
    r.1 ≠ (.component, (cardPath n).place) := by
  intro r hr heq
  obtain ⟨k, hk, hplace⟩ := h.results r hr
  rw [heq, place_cardPath] at hplace
  have hnk := cardPlace_injective hplace
  omega

theorem extract_eq (h : Dealt e n) (root : Path) (text : String) :
    e.extract (cardFiles n text) root (cardPath n) =
      (((e.cache.deal n text).setResult? e.limits (cardFiles n text) .component (cardPath n)
          (cardEntities e root n text)).map fun _ => cardEntities e root n text,
        { e with
          cache := (e.cache.deal n text).setResult e.limits (cardFiles n text) .component
            (cardPath n) (cardEntities e root n text) }) := by
  have hnofile : e.cache.files.get? (cardPath n).place = none := by
    rw [place_cardPath]
    exact Table.get?_of_not_mem h.files.not_mem
  have hnoresult : e.cache.results.get? (.component, (cardPath n).place) = none := by
    apply Table.get?_of_not_mem
    intro hm
    obtain ⟨r, hr, hkey⟩ := List.mem_map.mp hm
    exact h.ne_key r hr hkey
  have hget : e.cache.getResult e.limits (cardFiles n text) .component (cardPath n) =
      (none, e.cache) := by
    simp [SourceCache.getResult, hnoresult]
  have hparse : e.cache.parse? (cardFiles n text) (cardPath n) none =
      (some (.ofContent .vue text), e.cache.deal n text) := by
    simp only [SourceCache.parse?_eq, ofPath_cardPath, SourceCache.served?, hnofile,
      source?_cardFiles, Option.filter_none, SourceCache.deal]
  have habs := absolute_cardPath root n
  rw [Engine.extract_parsed (by rw [habs, ofPath_cardPath]) (by rw [habs]; exact hget)
    (by rw [habs]; exact hparse) rfl, habs]
  rfl

theorem extracted_cases (h : Dealt e n) (root : Path) (text : String) :
    e.extracted (cardFiles n text) root (cardPath n) = [] ∨
      e.extracted (cardFiles n text) root (cardPath n) = cardEntities e root n text := by
  rw [Engine.extracted, h.extract_eq]
  cases (e.cache.deal n text).setResult? e.limits (cardFiles n text) .component (cardPath n)
    (cardEntities e root n text) with
  | none => exact .inl rfl
  | some after => exact .inr rfl

theorem extract (h : Dealt e n) (root : Path) (text : String) :
    Dealt (e.extract (cardFiles n text) root (cardPath n)).2 (n + 1) := by
  have hold : ∀ r ∈ e.cache.results.entries, ∃ k < n + 1, r.1.2 = cardPlace k := by
    intro r hr
    obtain ⟨k, hk, hplace⟩ := h.results r hr
    exact ⟨k, by omega, hplace⟩
  rw [h.extract_eq]
  refine ⟨?_, ?_⟩
  · simp only [SourceCache.setResult_files, SourceCache.deal, SourceCache.remember, place_cardPath]
    exact h.files.insert _
  · intro r hr
    rcases (e.cache.deal n text).setResult_cases e.limits (cardFiles n text) .component
      (cardPath n) (cardEntities e root n text) with hs | ⟨-, -, hs⟩
    · simp only [hs] at hr
      exact hold r hr
    · simp only [hs] at hr
      rcases Table.mem_insert.mp hr with rfl | ⟨hr, -⟩
      · exact ⟨n, by omega, place_cardPath n⟩
      · have hmem := SourceCache.mem_of_mem_cleaned hr
        exact hold r hmem

end Dealt

namespace Budgeted

variable {resolve : ResolveSettings} {limits : CacheLimits} {budget : Nat} {e : Engine} {n : Nat}

theorem deal (h : Budgeted resolve limits budget e) (hd : Dealt e n) (root : Path) (text : String)
    (hcost : limits.cost (cardEntities e root n text) ≤ budget) :
    Budgeted resolve limits budget (e.extract (cardFiles n text) root (cardPath n)).2 := by
  apply h.extract
  rcases hd.extracted_cases root text with hx | hx
  · rw [hx]
    exact Nat.le_trans (Nat.add_le_add_left (by simp) _) hcost
  · rw [hx]
    exact hcost

theorem cost_empty (hP : limits.parsedFileBytes.toNat ≤ budget) (e : Engine) (root : Path)
    (n : Nat) : limits.cost (cardEntities e root n "") ≤ budget := by
  rw [CacheLimits.cost, length_cardEntities_empty]
  omega

/-- There are as many empty cards as one likes. -/
theorem exists_empty (resolve : ResolveSettings) (hP : limits.parsedFileBytes.toNat ≤ budget)
    (n : Nat) : ∃ e, Budgeted resolve limits budget e ∧ Dealt e n ∧ e.cache.entityCount = 0 := by
  induction n with
  | zero => exact ⟨_, .start, ⟨rfl, by simp⟩, rfl⟩
  | succ n ih =>
    obtain ⟨e, h, hd, hcount⟩ := ih
    refine ⟨_, h.deal hd ⟨"/"⟩ "" (cost_empty hP ..), hd.extract ⟨"/"⟩ "", ?_⟩
    obtain ⟨log, hk⟩ := h.kept
    rw [← h.limits_eq] at hk
    have hle := Engine.entityCount_extract_le hk (cardFiles n "") ⟨"/"⟩ (cardPath n)
    have hnone : (e.extracted (cardFiles n "") ⟨"/"⟩ (cardPath n)).length = 0 := by
      rcases hd.extracted_cases ⟨"/"⟩ "" with hx | hx
      · rw [hx, List.length_nil]
      · rw [hx, length_cardEntities_empty]
    rw [hnone, ite_self] at hle
    omega

/-- The entities of a card come last, after all results or after their younger half. The latter is
so only if there is something to clean up. -/
theorem sizes_deal (h : Budgeted resolve limits budget e) (hd : Dealt e n)
    (he : limits.enabled = true) (hP : limits.parsedFileBytes.toNat = 0)
    (hlt : e.cache.sizes.sum * limits.entityBytes.toNat < 2 ^ 64) (root : Path) (text : String) :
    let after := (e.extract (cardFiles n text) root (cardPath n)).2
    let size := (cardEntities e root n text).length
    after.cache.sizes = e.cache.sizes ++ [size] ∨
      0 < e.cache.sizes.sum ∧
        after.cache.sizes = e.cache.sizes.drop (e.cache.sizes.length / 2) ++ [size] := by
  intro after size
  obtain ⟨log, hk⟩ := h.kept
  let parsed := e.cache.deal n text
  have ho : parsed.Ordered log := hk.ordered.withFiles _
  have hsizes : parsed.sizes = e.cache.sizes := rfl
  have hfits : parsed.footprint limits < 2 ^ 64 := by
    rw [SourceCache.footprint, SourceCache.entityCount_eq_sizes, hsizes, hP, Nat.mul_zero,
      Nat.zero_add]
    exact hlt
  have hafter : after.cache.sizes = (parsed.cleaned limits).sizes ++ [size] := by
    simp only [after, hd.extract_eq, h.limits_eq]
    rw [SourceCache.setResult_enabled he hfits]
    exact SourceCache.sizes_store ho limits _ _ _ _ hd.ne_key
  rw [hafter]
  rcases SourceCache.sizes_cleaned ho limits with hall | ⟨hpos, hhalf⟩
  · rw [hall, hsizes]
    exact .inl rfl
  · rw [hhalf, hsizes]
    refine .inr ⟨Nat.pos_of_ne_zero ?_, rfl⟩
    intro hzero
    rw [SourceCache.footprint, SourceCache.entityCount_eq_sizes, hsizes, hzero, hP] at hpos
    simp at hpos

/-- Entities pile up behind empty results, as it is only those that cleanups drop. There have to be
enough of them: each cleanup takes half. -/
theorem exists_stacked (resolve : ResolveSettings) (he : limits.enabled = true)
    (hP : limits.parsedFileBytes.toNat = 0) (hE : limits.entityBytes.toNat ≤ budget)
    (ones : Nat) (hfits : ∀ k < ones, k * limits.entityBytes.toNat < 2 ^ 64) (least : Nat) :
    ∃ e n zeros, Budgeted resolve limits budget e ∧ Dealt e n ∧ least ≤ zeros ∧
      e.cache.sizes = List.replicate zeros 0 ++ List.replicate ones 1 := by
  induction ones generalizing least with
  | zero =>
    induction least with
    | zero =>
      refine ⟨_, 0, 0, .start, ⟨rfl, by simp⟩, Nat.le_refl 0, ?_⟩
      simp [SourceCache.sizes, SourceCache.byAge]
    | succ least ih =>
      obtain ⟨e, n, zeros, h, hd, hle, hsizes⟩ := ih
      refine ⟨_, n + 1, zeros + 1, h.deal hd ⟨"/"⟩ "" (cost_empty (by omega) ..),
        hd.extract ⟨"/"⟩ "", by omega, ?_⟩
      rcases h.sizes_deal hd he hP (by simp [hsizes]) ⟨"/"⟩ "" with hall | ⟨hpos, -⟩
      · rw [hall, hsizes, length_cardEntities_empty, List.replicate_succ']
        simp
      · simp [hsizes] at hpos
  | succ ones ih =>
    obtain ⟨e, n, zeros, h, hd, hle, hsizes⟩ :=
      ih (fun k hk => hfits k (by omega)) (2 * least + ones)
    have hcost : limits.cost (cardEntities e ⟨"/"⟩ n "<script setup></script>") ≤ budget := by
      rw [CacheLimits.cost, length_cardEntities_setup]
      omega
    have hdealt := hd.extract ⟨"/"⟩ "<script setup></script>"
    have hlen : e.cache.sizes.length = zeros + ones := by simp [hsizes]
    have hsum : e.cache.sizes.sum = ones := by simp [hsizes]
    have hlt : e.cache.sizes.sum * limits.entityBytes.toNat < 2 ^ 64 := by
      rw [hsum]
      exact hfits ones (Nat.lt_succ_self ones)
    rcases h.sizes_deal hd he hP hlt ⟨"/"⟩ "<script setup></script>" with hall | ⟨-, hhalf⟩
    · refine ⟨_, n + 1, zeros, h.deal hd _ _ hcost, hdealt, by omega, ?_⟩
      rw [hall, hsizes, length_cardEntities_setup, List.append_assoc, ← List.replicate_succ']
    · -- The older half is made of empty results only, as there are more of them than others.
      refine ⟨_, n + 1, zeros - (zeros + ones) / 2, h.deal hd _ _ hcost, hdealt, by omega, ?_⟩
      rw [hhalf, hlen, hsizes, List.drop_append_of_le_length (by simp; omega), List.drop_replicate,
        length_cardEntities_setup, List.append_assoc, ← List.replicate_succ']

/-- What can grow grows beyond every bound that fits into a word, and not by leaps. -/
theorem exists_over (resolve : ResolveSettings) (hw : ¬ limits.Weightless budget) {bound : Nat}
    (hb : bound < 2 ^ 64) :
    ∃ e, Budgeted resolve limits budget e ∧ bound < e.cache.footprint limits ∧
      e.cache.footprint limits ≤ bound + budget := by
  have hbeyond : ∀ {size : Nat}, size ≠ 0 → size ≤ budget →
      bound < (bound / size + 1) * size ∧ (bound / size + 1) * size ≤ bound + budget := by
    intro size hsize hle
    have hlt := Nat.lt_mul_div_succ bound (Nat.pos_of_ne_zero hsize)
    have hdiv := Nat.div_mul_le_self bound size
    rw [Nat.mul_comm] at hlt
    rw [Nat.add_mul] at hlt ⊢
    omega
  simp only [CacheLimits.Weightless, not_or, not_and, Nat.not_lt] at hw
  obtain ⟨hP, hE⟩ := hw
  by_cases hzero : limits.parsedFileBytes.toNat = 0
  · obtain ⟨hne, hle⟩ := hE hzero
    have he := CacheLimits.enabled_of_keptBytes hne
    rw [CacheLimits.keptBytes_of_enabled he] at hne hle
    have hfits : ∀ k < bound / limits.entityBytes.toNat + 1,
        k * limits.entityBytes.toNat < 2 ^ 64 := by
      intro k hk
      have hmul := Nat.mul_le_mul_right limits.entityBytes.toNat (Nat.le_of_lt_succ hk)
      have hdiv := Nat.div_mul_le_self bound limits.entityBytes.toNat
      omega
    obtain ⟨e, n, zeros, h, -, -, hsizes⟩ := exists_stacked resolve he hzero hle _ hfits 0
    refine ⟨e, h, ?_⟩
    have hcount : e.cache.entityCount = bound / limits.entityBytes.toNat + 1 := by
      rw [SourceCache.entityCount_eq_sizes, hsizes]
      simp
    rw [SourceCache.footprint, hzero, hcount, Nat.mul_zero, Nat.zero_add]
    exact hbeyond hne hle
  · obtain ⟨e, h, hd, hcount⟩ := exists_empty resolve hP (bound / limits.parsedFileBytes.toNat + 1)
    refine ⟨e, h, ?_⟩
    rw [SourceCache.footprint, hd.files.size, hcount, Nat.zero_mul, Nat.add_zero]
    exact hbeyond hzero hP

/-- An extraction keeps to the ceiling if it returns and what is left when it stores its result is
down to the trigger. -/
theorem footprint_extract_le {max : Nat} (h : Budgeted resolve limits budget e)
    (hmax : limits.trigger.toNat + budget ≤ max) (hbefore : e.cache.footprint limits ≤ max)
    (files : Files) (root file : Path) {es : List Entity}
    (hes : (e.extract files root file).1 = some es) (hcost : limits.cost es ≤ budget)
    (hroom : ((e.cacheAtStore files root file).cleaned limits).footprint limits ≤
      limits.trigger.toNat) :
    (e.extract files root file).2.cache.footprint limits ≤ max := by
  obtain ⟨log, hk⟩ := h.kept
  obtain rfl := h.limits_eq
  have hkept := Engine.kept_cacheAtStore hk files root file
  have hx := e.extracts files root file
  generalize (e.extract files root file).1 = given, (e.extract files root file).2.cache = after
    at hx hes ⊢
  cases hx with
  | same => exact hbefore
  | checked extractor =>
    have hcount := e.cache.entityCount_getResult_le e.limits files extractor
      (Path.absolute root file)
    rw [SourceCache.footprint, SourceCache.getResult_files]
    exact Nat.le_trans (Nat.add_le_add_left (Nat.mul_le_mul_right _ hcount) _) hbefore
  | left hl =>
    have he : e.limits.enabled = false := by
      by_contra hne
      rw [hl (by simpa using hne)] at hes
      cases hes
    -- There are no results to clean up.
    rw [SourceCache.footprint, SourceCache.cleaned_files] at hroom
    rw [SourceCache.footprint, hkept.entityCount_of_disabled he]
    omega
  | @stored given extractor he hlt =>
    cases hes
    have hcount := SourceCache.entityCount_store_le (hkept.ordered.cleaned e.limits).distinct files
      extractor (Path.absolute root file) es
    have hmul := Nat.mul_le_mul_right e.limits.entityBytes.toNat hcount
    rw [Nat.add_mul] at hmul
    rw [CacheLimits.cost] at hcost
    rw [SourceCache.footprint] at hroom ⊢
    have hfiles : (((e.cacheAtStore files root file).cleaned e.limits).store files extractor
        (Path.absolute root file) es).files =
          ((e.cacheAtStore files root file).cleaned e.limits).files := rfl
    rw [hfiles]
    omega

/-- Files that each cost no more than the budget, which is what a cleanup trigger leaves below the
ceiling, keep the footprint below it if they cost nothing at all, and only then; the same holds of
the estimate, of which there may be none any more. Otherwise the footprint grows beyond every bound
that a word holds, and the estimate beyond those that leave room for the budget. What keeps it below
is that the parsed files and the results that a cleanup spares are down to the trigger each time a
result is stored. -/
theorem ceiling_iff_weightless {max : UInt64} (hmax : limits.trigger ≤ max)
    (resolve : ResolveSettings) :
    let budget := max.toNat - limits.trigger.toNat
    ((∀ e, Budgeted resolve limits budget e → e.cache.footprint limits ≤ max.toNat) ↔
        limits.Weightless budget) ∧
      ((∀ e, Budgeted resolve limits budget e →
          ∃ bytes, e.cache.estimatedBytes? limits = some bytes ∧ bytes ≤ max) ↔
        limits.Weightless budget) ∧
      (¬ limits.Weightless budget → ∀ bound < 2 ^ 64,
        ∃ e, Budgeted resolve limits budget e ∧ bound < e.cache.footprint limits ∧
          (bound + budget < 2 ^ 64 → ∃ bytes, e.cache.estimatedBytes? limits = some bytes ∧
            bound < bytes.toNat)) ∧
      ∀ e, Budgeted resolve limits budget e → e.cache.footprint limits ≤ max.toNat →
        ∀ files root file es, (e.extract files root file).1 = some es → limits.cost es ≤ budget →
          ((e.cacheAtStore files root file).cleaned limits).footprint limits ≤
            limits.trigger.toNat →
          (e.extract files root file).2.cache.footprint limits ≤ max.toNat := by
  intro budget
  have hle := UInt64.le_iff_toNat_le.mp hmax
  refine ⟨⟨?_, ?_⟩, ⟨?_, ?_⟩, ?_, ?_⟩
  · intro hall
    by_contra hw
    obtain ⟨e, h, hover, -⟩ := exists_over resolve hw max.toNat_lt
    exact absurd (hall e h) (Nat.not_le.mpr hover)
  · intro hw e h
    rw [h.footprint_of_weightless hw]
    exact Nat.zero_le _
  · intro hall
    by_contra hw
    obtain ⟨e, h, hover, -⟩ := exists_over resolve hw max.toNat_lt
    obtain ⟨bytes, hbytes, hbelow⟩ := hall e h
    rw [SourceCache.estimatedBytes?_eq_some_iff] at hbytes
    rw [UInt64.le_iff_toNat_le, hbytes] at hbelow
    omega
  · intro hw e h
    refine ⟨0, SourceCache.estimatedBytes?_eq_some_iff.mpr ?_, UInt64.zero_le⟩
    rw [h.footprint_of_weightless hw]
    rfl
  · intro hw bound hb
    obtain ⟨e, h, hover, hnot⟩ := exists_over resolve hw hb
    refine ⟨e, h, hover, fun hroom => ?_⟩
    obtain ⟨bytes, hbytes⟩ := SourceCache.exists_word (Nat.lt_of_le_of_lt hnot hroom)
    exact ⟨bytes, SourceCache.estimatedBytes?_eq_some_iff.mpr hbytes, by rwa [hbytes]⟩
  · intro e h hbefore files root file es hes hcost
    exact h.footprint_extract_le (by omega) hbefore files root file hes hcost

/-- Files are free here and an entity takes ten bytes. Twenty are left from the trigger to the
ceiling, so no file has more than two of them, and yet there is an estimate of over a hundred. -/
theorem ceiling_of_free_files :
    let limits : CacheLimits := ⟨true, 80, 0, 10⟩
    limits.trigger ≤ 100 ∧ ¬ limits.Weightless 20 ∧
      ∃ e bytes, Budgeted {} limits 20 e ∧ e.cache.estimatedBytes? limits = some bytes ∧
        100 < bytes.toNat := by
  intro limits
  have hmax : limits.trigger ≤ 100 := by decide
  have hheavy : ¬ limits.Weightless 20 := by
    simp [CacheLimits.Weightless, CacheLimits.keptBytes, limits]
  obtain ⟨e, h, -, hestimate⟩ := (ceiling_iff_weightless hmax {}).2.2.1 hheavy 100 (by decide)
  obtain ⟨bytes, hbytes, hover⟩ := hestimate (by decide)
  exact ⟨hmax, hheavy, e, bytes, h, hbytes, hover⟩

/-- Three empty component files of one byte each, where two bytes are allowed and a cleanup is due
above one. -/
theorem estimatedBytes?_over_ceiling :
    let limits : CacheLimits := ⟨true, 1, 1, 0⟩
    let files := (((({} : MemoryFiles).write ⟨"/repo/a.vue"⟩ "").write ⟨"/repo/b.vue"⟩ "").write
      ⟨"/repo/c.vue"⟩ "").view
    let first := (Engine.extract { resolve := {}, limits } files ⟨"/repo"⟩ ⟨"a.vue"⟩).2
    let second := (first.extract files ⟨"/repo"⟩ ⟨"b.vue"⟩).2
    let third := (second.extract files ⟨"/repo"⟩ ⟨"c.vue"⟩).2
    limits.trigger ≤ 2 ∧ Budgeted {} limits (2 - 1) third ∧
      third.cache.estimatedBytes? limits = some 3 := by
  intro limits files first second third
  have hfirst : Budgeted {} limits (2 - 1) first := .extract .start _ _ _ (by decide +kernel)
  have hsecond : Budgeted {} limits (2 - 1) second := hfirst.extract _ _ _ (by decide +kernel)
  have hthird : Budgeted {} limits (2 - 1) third := hsecond.extract _ _ _ (by decide +kernel)
  exact ⟨by decide, hthird, by decide +kernel⟩

end Budgeted

end Exports
