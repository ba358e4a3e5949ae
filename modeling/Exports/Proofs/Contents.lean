import Exports.Engine
import Exports.Proofs.Source

namespace Exports.Engine

variable {files : Files} {e e' : Engine}

theorem target?_eq_some {file target : Path} (h : e.target? files file = some target) :
    target = file ∨ files.entryFile? e.resolve.entryFiles file = some target := by
  unfold target? at h
  split at h
  · exact .inr h
  · exact .inl (Option.some.inj h).symm

theorem reached_of_target? {file target : Path} (hf : files.Reached file)
    (h : e.target? files file = some target) : files.Reached target := by
  rcases target?_eq_some h with rfl | h
  · exact hf
  · exact .inr (.inl (Files.isFile_of_entryFile? h))

theorem target?_alike (hc : files.Coherent) {p q : Path} (h : files.Alike p q) :
    (e.target? files p = none ∧ e.target? files q = none) ∨
      ∃ a b, e.target? files p = some a ∧ e.target? files q = some b ∧ files.Alike a b := by
  unfold target?
  rw [← h.isDirectory]
  split
  · rename_i hd
    exact hc.entryFile?_alike h hd _
  · exact .inr ⟨p, q, rfl, rfl, h⟩

theorem classify_fst (e : Engine) (files : Files) (file : Path) (name : String)
    (isDefault : Bool) (markup : Option Bool) :
    (e.classify files file name isDefault markup).1 =
      (e.target? files file).bind fun target =>
        (e.cache.parse? files target none).1.bind fun parsed =>
          Module.ofContent? ⟨target.slashed, e.resolve⟩ markup parsed name isDefault := by
  unfold classify
  cases ht : e.target? files file with
  | none => rfl
  | some target =>
    rcases hp : e.cache.parse? files target none with ⟨_ | parsed, cache⟩ <;> simp [hp]

/-- To classify a file is at most to parse the file that it stands for. -/
theorem classify_snd (e : Engine) (files : Files) (file : Path) (name : String)
    (isDefault : Bool) (markup : Option Bool) :
    (e.classify files file name isDefault markup).2 = e ∨
      ∃ target, e.target? files file = some target ∧
        (e.classify files file name isDefault markup).2 =
          { e with cache := (e.cache.parse? files target none).2 } := by
  unfold classify
  cases ht : e.target? files file with
  | none => exact .inl rfl
  | some target =>
    refine .inr ⟨target, rfl, ?_⟩
    rcases hp : e.cache.parse? files target none with ⟨_ | parsed, cache⟩ <;> simp [hp]

theorem resolve_classify (e : Engine) (files : Files) (file : Path) (name : String)
    (isDefault : Bool) (markup : Option Bool) :
    (e.classify files file name isDefault markup).2.resolve = e.resolve := by
  rcases e.classify_snd files file name isDefault markup with h | ⟨target, -, h⟩ <;> rw [h]

/-- What names alone tell of a file's export. -/
def named (e : Engine) (file : Path) (name : String) (isDefault : Bool) (markup : Option Bool) :
    Identity :=
  Module.ofName ⟨file.slashed, e.resolve⟩
    (markup.getD ((Language.ofPath file).toOption.any Language.allowsMarkup)) name isDefault

/-- The engine after the identity of a request was kept. -/
def keepIdentity (e : Engine) (r : Request) (identity : Identity) : Engine :=
  { e with memo.identities := e.memo.identities.insert r identity }

theorem get?_keepIdentity (e : Engine) (r s : Request) (identity : Identity) :
    (e.keepIdentity r identity).memo.identities.get? s =
      if s = r then some identity else e.memo.identities.get? s :=
  Table.get?_insert ..

theorem infer_cases (e : Engine) (files : Files) (file : Path) (name : String)
    (isDefault : Bool) (markup : Option Bool) :
    (∃ identity, e.memo.identities.get? ⟨file.slashed, name, isDefault⟩ = some identity ∧
      e.infer files file name isDefault markup =
        (identity, { e with counters.identityHits := e.counters.identityHits + 1 })) ∨
    e.memo.identities.get? ⟨file.slashed, name, isDefault⟩ = none ∧
      ((∃ identity after,
        e.classify files file name isDefault markup = (some identity, after) ∧
          e.infer files file name isDefault markup =
            (identity, after.keepIdentity ⟨file.slashed, name, isDefault⟩ identity)) ∨
      ∃ after, e.classify files file name isDefault markup = (none, after) ∧
        e.infer files file name isDefault markup =
          (e.named file name isDefault markup, after)) := by
  cases hk : e.memo.identities.get? ⟨file.slashed, name, isDefault⟩ with
  | some identity => exact .inl ⟨identity, rfl, by simp only [infer, hk]⟩
  | none =>
    refine .inr ⟨rfl, ?_⟩
    have hr := e.resolve_classify files file name isDefault markup
    rcases hc : e.classify files file name isDefault markup with ⟨_ | identity, after⟩
    · rw [hc] at hr
      exact .inr ⟨after, rfl, by simp only [infer, hk, hc, named, ← hr]⟩
    · exact .inl ⟨identity, after, rfl, by simp only [infer, hk, hc, keepIdentity]⟩

/-- What is not kept is told by the content, otherwise by the name. -/
theorem infer_fst (e : Engine) (files : Files) (file : Path) (name : String) (isDefault : Bool)
    (markup : Option Bool) :
    (e.infer files file name isDefault markup).1 =
      (e.memo.identities.get? ⟨file.slashed, name, isDefault⟩).getD
        ((e.classify files file name isDefault markup).1.getD
          (e.named file name isDefault markup)) := by
  rcases e.infer_cases files file name isDefault markup with
    ⟨identity, hk, hi⟩ | ⟨hk, ⟨identity, after, hc, hi⟩ | ⟨after, hc, hi⟩⟩
  · rw [hi, hk, Option.getD_some]
  · rw [hi, hk, hc, Option.getD_none, Option.getD_some]
  · rw [hi, hk, hc, Option.getD_none, Option.getD_none]

theorem generate_fst (e : Engine) (files : Files) (file : Path) (name : String)
    (isDefault : Bool) (markup : Option Bool) :
    (e.generate files file name isDefault none markup).1 =
      (e.infer files file name isDefault markup).1.resolved .inferred := rfl

/-- What contents tell is told alike, where no override of markup is given and the names of the
file are texts. -/
structure SameContents (files : Files) (e e' : Engine) : Prop where
  resolve : e.resolve = e'.resolve
  sources : ∀ {p}, files.Reached p →
    (e.cache.parse? files p none).1 = (e'.cache.parse? files p none).1
  identities : ∀ {p}, files.Reached p → p.isAbsolute = true → p.IsText → ∀ name isDefault,
    (e.infer files p name isDefault none).1 = (e'.infer files p name isDefault none).1

namespace SameContents

theorem refl (files : Files) (e : Engine) : SameContents files e e :=
  ⟨rfl, fun _ => rfl, fun _ _ _ _ _ => rfl⟩

theorem trans {e'' : Engine} (h : SameContents files e e') (h' : SameContents files e' e'') :
    SameContents files e e'' :=
  ⟨h.resolve.trans h'.resolve, fun hp => (h.sources hp).trans (h'.sources hp),
    fun hp ha ht name isDefault =>
      (h.identities hp ha ht name isDefault).trans (h'.identities hp ha ht name isDefault)⟩

end SameContents

/-- What a content tells depends on the settings and on what is parsed. -/
theorem classify_fst_congr (hr : e.resolve = e'.resolve)
    (hs : ∀ {p}, files.Reached p →
      (e.cache.parse? files p none).1 = (e'.cache.parse? files p none).1)
    {file : Path} (hf : files.Reached file) (name : String) (isDefault : Bool)
    (markup : Option Bool) :
    (e.classify files file name isDefault markup).1 =
      (e'.classify files file name isDefault markup).1 := by
  have ht : e'.target? files file = e.target? files file := by rw [target?, ← hr, target?]
  rw [classify_fst, classify_fst, ht]
  cases hg : e.target? files file with
  | none => rw [Option.bind_none, Option.bind_none]
  | some target => simp only [Option.bind_some, hs (reached_of_target? hf hg), hr]

theorem classify_alike (hc : files.Coherent) {p q : Path} (h : files.Alike p q) (name : String)
    (isDefault : Bool) (markup : Option Bool) :
    (e.classify files p name isDefault markup).1 =
      (e.classify files q name isDefault markup).1 := by
  rw [classify_fst, classify_fst]
  rcases e.target?_alike hc h with ⟨hp, hq⟩ | ⟨a, b, hp, hq, hab⟩
  · rw [hp, hq]
  · rw [hp, hq, Option.bind_some, Option.bind_some, Path.slashed_congr hab.place,
      SourceCache.parse?_fst_congr hab (by rw [hab.place])]

theorem infer_fst_congr (hr : e.resolve = e'.resolve)
    (hs : ∀ {p}, files.Reached p →
      (e.cache.parse? files p none).1 = (e'.cache.parse? files p none).1)
    {file : Path} (hf : files.Reached file) {name : String} {isDefault : Bool}
    (hk : e.memo.identities.get? ⟨file.slashed, name, isDefault⟩ =
      e'.memo.identities.get? ⟨file.slashed, name, isDefault⟩) (markup : Option Bool) :
    (e.infer files file name isDefault markup).1 =
      (e'.infer files file name isDefault markup).1 := by
  rw [infer_fst, infer_fst, hk, classify_fst_congr hr hs hf, named, hr, named]

theorem SameContents.of_kept (hr : e.resolve = e'.resolve)
    (hk : e.memo.identities = e'.memo.identities)
    (hs : ∀ {p}, files.Reached p →
      (e.cache.parse? files p none).1 = (e'.cache.parse? files p none).1) :
    SameContents files e e' where
  resolve := hr
  sources := hs
  identities hp _ _ _ _ := infer_fst_congr hr hs hp (by rw [hk]) none

theorem classify_sameContents (hc : files.Coherent) {file : Path} (hf : files.Reached file)
    (name : String) (isDefault : Bool) (markup : Option Bool) :
    SameContents files (e.classify files file name isDefault markup).2 e := by
  rcases e.classify_snd files file name isDefault markup with h | ⟨target, ht, h⟩
  · rw [h]
    exact .refl files e
  · rw [h]
    exact .of_kept rfl rfl fun hp =>
      SourceCache.parse?_parse?_fst hc e.cache hp (reached_of_target? hf ht)

theorem infer_sameContents (hc : files.Coherent) {file : Path} (hf : files.Reached file)
    (ha : file.isAbsolute = true) (ht : file.IsText) (name : String) (isDefault : Bool) :
    SameContents files (e.infer files file name isDefault none).2 e := by
  have hs := classify_sameContents hc hf (e := e) name isDefault none
  rcases e.infer_cases files file name isDefault none with
    ⟨identity, -, hi⟩ | ⟨hk, ⟨identity, after, hcl, hi⟩ | ⟨after, hcl, hi⟩⟩
  · rw [hi]
    exact .of_kept rfl rfl fun _ => rfl
  · rw [hcl] at hs
    rw [hi]
    refine ⟨hs.resolve, hs.sources, fun {p} hp hpa hpt n d => ?_⟩
    by_cases hkey : (⟨p.slashed, n, d⟩ : Request) = ⟨file.slashed, name, isDefault⟩
    · -- One key is one place, so the content tells of `p` what is kept now.
      obtain ⟨hslash, rfl, rfl⟩ := Request.mk.inj hkey
      have halike := hc.alike hp hf (Path.place_eq_of_slashed hpa ha hpt ht hslash)
      have htold : (e.classify files p n d none).1 = some identity := by
        rw [classify_alike hc halike, hcl]
      rw [infer_fst, infer_fst, hslash, hk, htold]
      rw [get?_keepIdentity, if_pos rfl, Option.getD_some, Option.getD_none, Option.getD_some]
    · rw [← hs.identities hp hpa hpt n d]
      refine infer_fst_congr ?_ ?_ hp ?_ none
      · rfl
      · intro q _
        rw [keepIdentity]
      · rw [get?_keepIdentity, if_neg hkey]
  · rw [hcl] at hs
    rw [hi]
    exact hs

/-- An inference touches the cache as a parse does, or not at all. -/
theorem infer_cache (e : Engine) (files : Files) (file : Path) (name : String) (isDefault : Bool)
    (markup : Option Bool) :
    (e.infer files file name isDefault markup).2.cache = e.cache ∨
      ∃ target, (e.infer files file name isDefault markup).2.cache =
        (e.cache.parse? files target none).2 := by
  have hc : (e.classify files file name isDefault markup).2.cache = e.cache ∨
      ∃ target, (e.classify files file name isDefault markup).2.cache =
        (e.cache.parse? files target none).2 := by
    rcases e.classify_snd files file name isDefault markup with h | ⟨target, -, h⟩
    · exact .inl (by rw [h])
    · exact .inr ⟨target, by rw [h]⟩
  rcases e.infer_cases files file name isDefault markup with
    ⟨identity, -, hi⟩ | ⟨-, ⟨identity, after, ha, hi⟩ | ⟨after, ha, hi⟩⟩
  · exact .inl (by rw [hi])
  · rw [hi]
    rwa [ha] at hc
  · rw [hi]
    rwa [ha] at hc

end Exports.Engine
