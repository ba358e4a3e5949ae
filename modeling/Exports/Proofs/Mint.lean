import Exports.Proofs.Alias
import Exports.Proofs.Script
import Mathlib.Data.List.Pairwise

namespace Exports

theorem find?_eq_some_of_unique {α : Type} {l : List α} {p : α → Bool} {a : α} (ha : a ∈ l)
    (hp : p a = true) (hu : ∀ b ∈ l, p b = true → b = a) : l.find? p = some a := by
  cases hf : l.find? p with
  | none => exact absurd hp (List.find?_eq_none.mp hf a ha)
  | some b => rw [hu b (List.mem_of_find?_eq_some hf) (List.find?_some hf)]

namespace Declaration

variable {ds : List Declaration} {d d' : Declaration} {name : String} {s : Specifier}

/-- The names that a declaration binds in its module. -/
def boundNames (d : Declaration) : List String :=
  match d.body with
  | .function name _ | .classDecl name _ => name.toList
  | .type name _ => [name]
  | .variables bindings => bindings.map (·.name)
  | .value _ | .clause _ | .defineComponent => []

theorem binds_iff_mem : d.binds name = true ↔ name ∈ d.boundNames := by
  unfold binds boundNames
  match d.body with
  | .function n _ | .classDecl n _ => simp
  | .type n _ => simp [eq_comm]
  | .variables bindings => simp
  | .value _ | .clause _ | .defineComponent => simp

instance (ds : List Declaration) : Decidable (WellScoped ds) :=
  decidable_of_iff
    ((ds.flatMap exportedNames).Nodup ∧
      ds.Pairwise fun d d' => ∀ name ∈ d.boundNames, d'.binds name = false)
    ⟨fun h => ⟨h.1, h.2.imp fun hd name hn => hd name (binds_iff_mem.mp hn)⟩,
      fun h => ⟨h.exports, h.bindings.imp fun hd name hn => hd name (binds_iff_mem.mpr hn)⟩⟩

theorem WellScoped.nodup (h : WellScoped ds) (hd : d ∈ ds) : d.exportedNames.Nodup :=
  (List.nodup_flatMap.mp h.exports).1 d hd

/-- A name is exported by one declaration. -/
theorem WellScoped.eq_of_mem (h : WellScoped ds) (hd : d ∈ ds) (hd' : d' ∈ ds)
    (hn : name ∈ d.exportedNames) (hn' : name ∈ d'.exportedNames) : d = d' := by
  by_contra hne
  have hp := (List.nodup_flatMap.mp h.exports).2
  have : Std.Symm (Function.onFun List.Disjoint exportedNames) :=
    ⟨fun _ _ hdisjoint _ ha hb => hdisjoint hb ha⟩
  exact hp.forall hd hd' hne hn hn'

/-- The specifiers of an export clause. -/
def specifiers (d : Declaration) : List Specifier :=
  match d.body with
  | .clause specifiers => specifiers
  | _ => []

theorem body_of_mem (hs : s ∈ d.specifiers) : d.body = .clause d.specifiers := by
  unfold specifiers at hs ⊢
  split at hs
  · rename_i hb
    rw [hb]
  · cases hs

theorem specifiers_eq_nil (hb : d.binds name = true) : d.specifiers = [] := by
  unfold specifiers
  split
  · rename_i hc
    simp [binds, hc] at hb
  · rfl

theorem exportedNames_of_mem (he : d.isExported = true) (hs : s ∈ d.specifiers) :
    d.exportedNames = d.specifiers.map (·.outer) := by
  have hb := body_of_mem hs
  unfold exportedNames
  rw [hb]
  cases hf : d.form with
  | unexported => simp [isExported, hf] at he
  | named | default => rfl

theorem exportsName_of_mem (hs : s ∈ d.specifiers) : d.exportsName s.outer = true := by
  rw [exportsName, body_of_mem hs]
  exact List.any_eq_true.mpr ⟨s, hs, by simp⟩

/-- Each variable of a default export is exported as the default, so there is only one. -/
theorem declaredName_of_variable {bindings : List Binding} {b : Binding} (hf : d.form = .default)
    (hb : d.body = .variables bindings) (hn : d.exportedNames.Nodup) (hm : b ∈ bindings) :
    d.declaredName = some b.name := by
  cases bindings with
  | nil => cases hm
  | cons first rest =>
    cases rest with
    | nil =>
      rw [declaredName, hb, List.mem_singleton.mp hm]
      rfl
    | cons second rest => simp [exportedNames, hf, hb] at hn

/-- A clause has one specifier for each name that it exports. -/
theorem find?_outer (hn : (d.specifiers.map (·.outer)).Nodup) (hs : s ∈ d.specifiers) :
    d.specifiers.find? (·.outer = s.outer) = some s := by
  apply find?_eq_some_of_unique hs (by simp)
  intro t ht he
  exact List.inj_on_of_nodup_map hn ht hs (by simpa using he)

/-- A clause goes by the local name of its default specifier. -/
theorem declaredName_of_mem (hn : (d.specifiers.map (·.outer)).Nodup) (hs : s ∈ d.specifiers)
    (ho : s.outer = "default") : d.declaredName = some s.inner := by
  have hfound := find?_outer hn hs
  rw [ho] at hfound
  rw [declaredName, body_of_mem hs]
  simp only [hfound, Option.map_some]

end Declaration

/-- What an export clause tells of the name that a specifier exports. -/
theorem Classifier.kindOf_outer (c : Classifier) {d : Declaration} {s : Specifier}
    (hn : (d.specifiers.map (·.outer)).Nodup) (hs : s ∈ d.specifiers) :
    c.kindOf d s.outer = (c.kindWithin aliasLimit s.inner).getD (c.fallback s.outer) := by
  rw [kindOf, kindVia, Declaration.body_of_mem hs]
  simp only [Declaration.find?_outer hn hs, Option.some_or, Option.bind_some]

namespace Module

variable {m : Module} {c : Classifier} {d : Declaration} {x : Entity}

@[simp]
theorem declarations_classifier (m : Module) (markup componentFile : Bool)
    (ds : List Declaration) : (m.classifier markup componentFile ds).declarations = ds := rfl

@[simp]
theorem surroundings_classifier (m : Module) (markup componentFile : Bool)
    (ds : List Declaration) :
    (m.classifier markup componentFile ds).surroundings =
      ⟨markup, componentFile, m.resolve.keywords⟩ := rfl

theorem exists_declaration {markup : Bool} {ds : List Declaration}
    (hx : x ∈ m.scriptEntities markup ds) :
    ∃ d ∈ ds, d.isExported = true ∧ x ∈ m.mint (m.classifier markup false ds) d := by
  obtain ⟨d, hd, hx⟩ := List.mem_flatMap.mp hx
  obtain ⟨hd, he⟩ := List.mem_filter.mp hd
  exact ⟨d, hd, he, hx⟩

theorem exportedAs_mem (he : d.isExported = true) (hx : x ∈ m.mint c d) :
    x.exportedAs ∈ d.exportedNames :=
  (m.mint_exportedAs c he).subset (List.mem_map_of_mem hx)

/-- A named export of a declaration's own. -/
def MintsNamed (m : Module) (c : Classifier) (d : Declaration) (x : Entity) : Prop :=
  d.form = .named ∧ ∃ name, d.binds name = true ∧
    x = m.entity d (c.kindOf d name) name name false

/-- A default export of a declaration's own, under the name that the module gives it. -/
structure MintsDefault (m : Module) (c : Classifier) (d : Declaration) (x : Entity) : Prop where
  notClause : d.specifiers = []
  isDefault : x.isDefault = true
  kind : x.kind = (c.defaultIdentity m.resolve.entryFiles d).1
  id : c.path = m.path → x.id = x.kind.idFor (m.defaultName d.declaredName)

/-- What a clause makes of a local name. -/
def MintsSpecifier (m : Module) (c : Classifier) (d : Declaration) (x : Entity) : Prop :=
  ∃ s ∈ d.specifiers, m.specifierEntity? c d s = some x

theorem mintsNamed_namedEntity {name : String} (hf : d.form = .named)
    (hb : d.binds name = true) : m.MintsNamed c d (m.namedEntity d (c.kindOf d name) name) :=
  ⟨hf, name, hb, by simp [namedEntity, hf]⟩

theorem mintsDefault_namedEntity {name : String} (hf : d.form = .default)
    (hb : d.specifiers = []) (hd : d.declaredName = some name) :
    m.MintsDefault c d (m.namedEntity d (c.kindOf d name) name) where
  notClause := hb
  isDefault := by simp [namedEntity, entity, hf]
  kind := by simp [namedEntity, entity, Classifier.defaultIdentity, hd]
  id _ := by simp [namedEntity, entity, hf, hd]

theorem name_of_defaultIdentity (hp : c.path = m.path) :
    (c.defaultIdentity m.resolve.entryFiles d).2 = m.defaultName d.declaredName := by
  rw [Classifier.defaultIdentity, hp, defaultName]

theorem mintsDefault_of_identity {rawName : String} (hb : d.specifiers = []) :
    m.MintsDefault c d (m.entity d (c.defaultIdentity m.resolve.entryFiles d).1
      (c.defaultIdentity m.resolve.entryFiles d).2 rawName true) where
  notClause := hb
  isDefault := rfl
  kind := rfl
  id hp := by
    rw [name_of_defaultIdentity hp]
    rfl

theorem localKind_of_specifierEntity? {s : Specifier} (hx : m.specifierEntity? c d s = some x) :
    c.localKind s.inner 0 = some x.kind := by
  obtain ⟨kind, hk, rfl⟩ := Option.map_eq_some_iff.mp hx
  split <;> exact hk

/-- A specifier that gives a default export says so. -/
theorem specifierEntity?_default {s : Specifier} (hx : m.specifierEntity? c d s = some x)
    (hdef : x.isDefault = true) :
    s.outer = "default" ∧ x.id = x.kind.idFor (m.defaultName (some s.inner)) := by
  have houter : s.outer = "default" := by
    rw [← exportedAs_specifierEntity hx, Entity.exportedAs, if_pos hdef]
  obtain ⟨kind, -, rfl⟩ := Option.map_eq_some_iff.mp hx
  rw [if_pos houter]
  exact ⟨houter, rfl⟩

theorem callableEntities_cases {name : Option String} (he : d.isExported = true)
    (hc : d.specifiers = []) (hb : ∀ n, d.binds n = decide (name = some n))
    (hx : x ∈ m.callableEntities c d name) : m.MintsNamed c d x ∨ m.MintsDefault c d x := by
  unfold callableEntities at hx
  split at hx
  · obtain rfl := List.mem_singleton.mp hx
    exact .inr (mintsDefault_of_identity hc)
  · rename_i hf
    obtain ⟨n, hm, rfl⟩ := List.mem_map.mp hx
    have hname : d.form = .named := by
      cases h : d.form with
      | unexported => simp [Declaration.isExported, h] at he
      | named => rfl
      | default => exact absurd h hf
    have hn : name = some n := Option.mem_toList.mp hm
    exact .inl ⟨hname, n, by rw [hb, decide_eq_true hn], rfl⟩

/-- An exported declaration mints named exports, a default export, or what its specifiers say. Of
variables that are exported as the default, each has to be the one that the declaration goes by. -/
theorem mint_cases_of_declared (he : d.isExported = true)
    (hn : ∀ bindings, d.form = .default → d.body = .variables bindings →
      ∀ b ∈ bindings, d.declaredName = some b.name)
    (hx : x ∈ m.mint c d) :
    m.MintsNamed c d x ∨ m.MintsDefault c d x ∨ m.MintsSpecifier c d x := by
  obtain ⟨form, span, codeHash, body⟩ := d
  match body with
  | .function name _ | .classDecl name _ =>
    rcases callableEntities_cases he rfl (fun _ => rfl) hx with h | h
    · exact .inl h
    · exact .inr (.inl h)
  | .type name kind =>
    obtain rfl := List.mem_singleton.mp hx
    cases form with
    | unexported => cases he
    | named => exact .inl (mintsNamed_namedEntity (c := c) rfl (by simp [Declaration.binds]))
    | default => exact .inr (.inl (mintsDefault_namedEntity (c := c) rfl rfl rfl))
  | .variables bindings =>
    obtain ⟨b, hb, rfl⟩ := List.mem_map.mp hx
    cases form with
    | unexported => cases he
    | named =>
      exact .inl (mintsNamed_namedEntity rfl (List.any_eq_true.mpr ⟨b, hb, by simp⟩))
    | default => exact .inr (.inl (mintsDefault_namedEntity rfl rfl (hn bindings rfl rfl b hb)))
  | .value shape =>
    obtain rfl := List.mem_singleton.mp hx
    exact .inr (.inl (mintsDefault_of_identity rfl))
  | .clause specifiers =>
    obtain ⟨s, hs, hx⟩ := List.mem_filterMap.mp hx
    exact .inr (.inr ⟨s, hs, hx⟩)
  | .defineComponent => cases hx

theorem mint_cases (he : d.isExported = true) (hn : d.exportedNames.Nodup)
    (hx : x ∈ m.mint c d) :
    m.MintsNamed c d x ∨ m.MintsDefault c d x ∨ m.MintsSpecifier c d x :=
  mint_cases_of_declared he
    (fun _ hf hb _ hm => Declaration.declaredName_of_variable hf hb hn hm) hx

end Module

end Exports
