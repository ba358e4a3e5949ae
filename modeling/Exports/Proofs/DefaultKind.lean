import Exports.Proofs.Mint

namespace Exports.Classifier

variable {c : Classifier} {d : Declaration} {s t : Specifier} {kind : Kind}

/-- The specifier of the clause that exports another local name under the local name of `s`. -/
def namesake? (d : Declaration) (s : Specifier) : Option Specifier :=
  d.specifiers.find? fun t => t.outer = s.inner && t.inner ≠ s.inner

/-- A clause tells another kind of its default specifier, asked for by its local name: that of a
namesake, or where there is none, another than its own since this is out of reach. -/
def Misread (c : Classifier) (d : Declaration) (s : Specifier) (kind : Kind) : Prop :=
  match namesake? d s with
  | some t => (c.localKind t.inner 1).getD (c.fallback s.inner) ≠ kind
  | none => c.OutOfReach aliasLimit s.inner

instance (c : Classifier) (d : Declaration) (s : Specifier) (kind : Kind) :
    Decidable (c.Misread d s kind) :=
  match h : namesake? d s with
  | some t =>
    decidable_of_iff ((c.localKind t.inner 1).getD (c.fallback s.inner) ≠ kind)
      (by rw [Misread, h])
  | none => decidable_of_iff (c.OutOfReach aliasLimit s.inner) (by rw [Misread, h])

theorem namesake?_eq_none (h : ∀ t ∈ d.specifiers, t.outer = s.inner → t.inner = s.inner) :
    namesake? d s = none := by
  apply List.find?_eq_none.mpr
  intro t ht hp
  simp only [Bool.and_eq_true, decide_eq_true_eq] at hp
  exact hp.2 (h t ht hp.1)

theorem namesake?_eq_some (hn : (d.specifiers.map (·.outer)).Nodup) (ht : t ∈ d.specifiers)
    (hout : t.outer = s.inner) (hin : t.inner ≠ s.inner) : namesake? d s = some t := by
  apply find?_eq_some_of_unique ht (by simp [hout, hin])
  intro u hu hp
  simp only [Bool.and_eq_true, decide_eq_true_eq] at hp
  exact List.inj_on_of_nodup_map hn hu ht (hp.1.trans hout.symm)

theorem kindOf_inner (hn : (d.specifiers.map (·.outer)).Nodup) (hs : s ∈ d.specifiers)
    (ho : s.outer = "default") (hk : c.localKind s.inner 0 = some kind) :
    c.kindOf d s.inner = kind ↔ ¬ c.Misread d s kind := by
  have hdefault : d.specifiers.find? (·.outer = "default") = some s := by
    rw [← ho]
    exact Declaration.find?_outer hn hs
  have hown := getD_kindWithin_eq_iff hk (c.fallback s.inner)
  rw [kindOf, kindVia, Declaration.body_of_mem hs]
  simp only [hdefault]
  cases hf : d.specifiers.find? (·.outer = s.inner) with
  | none =>
    have hnone : namesake? d s = none := by
      apply namesake?_eq_none
      intro t ht hout
      exact absurd (decide_eq_true hout) (List.find?_eq_none.mp hf t ht)
    simpa only [Misread, hnone, Option.none_or, Option.bind_some] using hown
  | some t =>
    have ht := List.mem_of_find?_eq_some hf
    have hout : t.outer = s.inner := by simpa using List.find?_some hf
    by_cases hin : t.inner = s.inner
    · have hnone : namesake? d s = none := by
        apply namesake?_eq_none
        intro u hu hu'
        rw [List.inj_on_of_nodup_map hn hu ht (hu'.trans hout.symm), hin]
      simpa only [Misread, hnone, Option.some_or, Option.bind_some, hin] using hown
    · -- The namesake is asked in place of the specifier.
      simp only [Misread, namesake?_eq_some hn ht hout hin, Option.some_or, Option.bind_some,
        not_not]
      rfl

variable {m : Module} {x : Entity}

theorem defaultExport?_eq (hone : (c.declarations.filter (·.isDefault)).length ≤ 1)
    (hd : d ∈ c.declarations) (hdef : d.isDefault = true) : c.defaultExport? = some d := by
  rw [defaultExport?, ← List.head?_filter]
  have hm := List.mem_filter.mpr ⟨hd, hdef⟩
  cases hf : c.declarations.filter (·.isDefault) with
  | nil => simp [hf] at hm
  | cons first rest =>
    have hrest : rest = [] := by simpa [hf] using hone
    rw [hf, hrest] at hm
    rw [List.head?_cons, List.mem_singleton.mp hm]

/-- The kind that the content tells of the default export is the one that it was minted with,
unless a clause exports it and is misread. -/
theorem defaultIdentity_kind_iff (h : Declaration.WellScoped c.declarations)
    (hone : (c.declarations.filter (·.isDefault)).length ≤ 1) (hd : d ∈ c.declarations)
    (he : d.isExported = true) (hdd : d.isDefault = true) (hx : x ∈ m.mint c d)
    (hdef : x.isDefault = true) :
    (c.defaultExport?.map fun d => (c.defaultIdentity m.resolve.entryFiles d).1) = some x.kind ↔
      ∀ s ∈ d.specifiers, s.outer = "default" → ¬ c.Misread d s x.kind := by
  have hn := h.nodup hd
  rw [defaultExport?_eq hone hd hdd, Option.map_some, Option.some_inj]
  rcases Module.mint_cases he hn hx with ⟨-, name, -, rfl⟩ | hx | ⟨s, hs, hx⟩
  · cases hdef
  · refine iff_of_true hx.kind.symm fun s hs => ?_
    rw [hx.notClause] at hs
    cases hs
  · have houter := (Module.specifierEntity?_default hx hdef).1
    have hk := Module.localKind_of_specifierEntity? hx
    rw [Declaration.exportedNames_of_mem he hs] at hn
    rw [defaultIdentity, Declaration.declaredName_of_mem hn hs houter, Option.getD_some,
      kindOf_inner hn hs houter hk]
    constructor
    · intro hread s' hs' houter'
      rwa [List.inj_on_of_nodup_map hn hs' hs (houter'.trans houter.symm)]
    · intro hall
      exact hall s hs houter

def clauseLoad (outer : String) : Declaration :=
  ⟨.named, ⟨3, 3⟩, "", .clause [⟨"load", "default"⟩, ⟨"limit", outer⟩]⟩

/-- A function `load`, a constant `limit`, and the clause that exports them. -/
def loadFile (outer : String) : Classifier where
  declarations :=
    [⟨.unexported, ⟨1, 1⟩, "", .function (some "load") false⟩,
      ⟨.unexported, ⟨2, 2⟩, "", .variables [⟨"limit", .literal⟩]⟩, clauseLoad outer]
  surroundings := ⟨false, false, []⟩
  path := "src/user.ts"

/-- What `clauseLoad` gives as the default export. -/
def defaultFromClause : Entity :=
  { id := "Function:user", kind := .function, file := "src/user.ts", span := ⟨3, 3⟩
    rawName := "default", isDefault := true }

/-- Where `limit` keeps its name, the default export is told to be the function that it is. -/
theorem default_kind_told :
    ((loadFile "limit").defaultExport?.map fun d =>
      ((loadFile "limit").defaultIdentity ["index.ts"] d).1) = some .function := by
  have hscoped : Declaration.WellScoped (loadFile "limit").declarations := by decide
  have hx : defaultFromClause ∈
      (⟨"src/user.ts", { entryFiles := ["index.ts"] }⟩ : Module).mint (loadFile "limit")
        (clauseLoad "limit") := by
    decide +kernel
  refine (defaultIdentity_kind_iff hscoped (by decide) (by decide) rfl rfl hx rfl).mpr ?_
  decide +kernel

/-- Where `limit` is exported as `load`, it is told the kind of the constant. -/
theorem default_kind_of_namesake :
    Declaration.WellScoped (loadFile "load").declarations ∧
      ((loadFile "load").declarations.filter (·.isDefault)) = [clauseLoad "load"] ∧
      defaultFromClause ∈
        (⟨"src/user.ts", { entryFiles := ["index.ts"] }⟩ : Module).mint (loadFile "load")
          (clauseLoad "load") ∧
      defaultFromClause.kind = .function ∧
      ((loadFile "load").defaultExport?.map fun d =>
        ((loadFile "load").defaultIdentity ["index.ts"] d).1) = some .binding := by
  decide +kernel

end Exports.Classifier
