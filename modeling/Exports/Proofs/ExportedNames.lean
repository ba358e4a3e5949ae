import Exports.Proofs.AliasEnd
import Exports.Proofs.Declared
import Exports.Proofs.Mint

namespace Exports

namespace Declaration

variable {ds : List Declaration} {d : Declaration} {name : String}

/-- The forms that declarations of a file have. A clause is a named export and a value is none, a
default export of variables has at least one, and a mere call is not exported. -/
def Shaped (d : Declaration) : Prop :=
  match d.body with
  | .clause _ => d.form = .named
  | .value _ => d.form ≠ .named
  | .variables bindings => d.form = .default → bindings ≠ []
  | .defineComponent => d.form = .unexported
  | .function _ _ | .classDecl _ _ | .type _ _ => True

instance : (d : Declaration) → Decidable d.Shaped
  | ⟨form, _, _, .clause _⟩ => inferInstanceAs (Decidable (form = .named))
  | ⟨form, _, _, .value _⟩ => inferInstanceAs (Decidable (form ≠ .named))
  | ⟨form, _, _, .variables bindings⟩ =>
    inferInstanceAs (Decidable (form = .default → bindings ≠ []))
  | ⟨form, _, _, .defineComponent⟩ => inferInstanceAs (Decidable (form = .unexported))
  | ⟨_, _, _, .function _ _⟩ | ⟨_, _, _, .classDecl _ _⟩ | ⟨_, _, _, .type _ _⟩ =>
    inferInstanceAs (Decidable True)

def IsClause (d : Declaration) : Prop := d.body = .clause d.specifiers

instance (d : Declaration) : Decidable d.IsClause := inferInstanceAs (Decidable (_ = _))

/-- If the declaration is a clause, it exports a name that is bound under the name. -/
def Backs (ds : List Declaration) (d : Declaration) (name : String) : Prop :=
  d.IsClause → ∃ s ∈ d.specifiers, s.outer = name ∧ Bound ds s.inner

instance (ds : List Declaration) (d : Declaration) (name : String) : Decidable (Backs ds d name) :=
  inferInstanceAs (Decidable (_ → ∃ s ∈ d.specifiers, s.outer = name ∧ Bound ds s.inner))

theorem backs_of_not_isClause (hc : ¬ d.IsClause) : Backs ds d name := fun h => absurd h hc

theorem isClause_of_body {specifiers : List Specifier} (hb : d.body = .clause specifiers) :
    d.IsClause := by
  rw [IsClause, Declaration.specifiers, hb]

theorem exportsName_of_not_isClause (hc : ¬ d.IsClause) :
    d.exportsName name = true ↔ d.form = .named ∧ name ∈ d.boundNames := by
  unfold exportsName
  split
  · rename_i hb
    exact absurd (isClause_of_body hb) hc
  · simp [binds_iff_mem]

theorem isDefault_of_not_isClause (hc : ¬ d.IsClause) :
    d.isDefault = true ↔ d.form = .default := by
  unfold isDefault
  split
  · rename_i hb
    exact absurd (isClause_of_body hb) hc
  · simp

theorem exportsName_of_backs (hc : d.IsClause) (h : Backs ds d name) :
    d.exportsName name = true := by
  obtain ⟨s, hs, rfl, -⟩ := h hc
  exact exportsName_of_mem hs

theorem isDefault_of_backs (hc : d.IsClause) (h : Backs ds d "default") : d.isDefault = true := by
  obtain ⟨s, hs, ho, -⟩ := h hc
  rw [isDefault, hc, Bool.or_eq_true]
  exact .inr (List.any_eq_true.mpr ⟨s, hs, by simpa using ho⟩)

theorem form_of_isClause (hs : d.Shaped) (hc : d.IsClause) : d.form = .named := by
  rwa [Shaped, hc] at hs

theorem isExported_of_exportsName (hs : d.Shaped) (h : d.exportsName name = true) :
    d.isExported = true := by
  have hf : d.form = .named := by
    by_cases hc : d.IsClause
    · exact form_of_isClause hs hc
    · exact ((exportsName_of_not_isClause hc).mp h).1
  simp [isExported, hf]

theorem isExported_of_isDefault (hs : d.Shaped) (h : d.isDefault = true) :
    d.isExported = true := by
  by_cases hc : d.IsClause
  · simp [isExported, form_of_isClause hs hc]
  · simp [isExported, (isDefault_of_not_isClause hc).mp h]

end Declaration

namespace Script.Tree

variable {source : List Char} {decorated : Bool} {t : Tree} {d : Declaration}

theorem shaped_of_declarationBody (h : t.declarationBody source decorated = some d.body)
    (hb : d.form = .default → t.declarationBody source decorated ≠ some (.variables [])) :
    d.Shaped := by
  obtain ⟨form, span, codeHash, body⟩ := d
  match body with
  | .variables bindings =>
    rintro hf rfl
    exact hb hf h
  | .function _ _ | .classDecl _ _ | .type _ _ => trivial
  | .value _ | .clause _ | .defineComponent =>
    unfold declarationBody typeBody at h
    split at h <;> simp at h

theorem shaped_of_valueBody {value : Tree} (h : d.body = value.valueBody source decorated)
    (hf : d.form = .default) : d.Shaped := by
  obtain ⟨form, span, codeHash, body⟩ := d
  obtain rfl : form = .default := hf
  obtain rfl : body = value.valueBody source decorated := h
  unfold valueBody
  split
  · trivial
  · trivial
  · trivial
  · split <;> simp [Declaration.Shaped]

/-- Declarations have the shapes, if each export statement is as the grammar has it. -/
theorem shaped_of_mem_declarations
    (h : ∀ s ∈ t.namedChildren, s.phrase? = some .exportStatement → s.WellExported source)
    (hd : d ∈ t.declarations source) : d.Shaped := by
  obtain ⟨statement, hs, hdeclared⟩ := exists_of_mem_declarations hd
  obtain ⟨hp, hf, hbody⟩ | ⟨hf, hbody⟩ := declared_cases hdeclared
  · have hw := h statement hs hp
    obtain ⟨inner, hi, hbody⟩ | ⟨value, hv, hbody⟩ | ⟨clause, hc, htag, hbody⟩ :=
      exportBody_cases hbody
    · exact shaped_of_declarationBody hbody fun hd => hw.binds_of_default inner hi (hf ▸ hd) _
    · apply shaped_of_valueBody hbody
      rw [hf]
      cases hc : statement.child? .value with
      | some _ => exact hw.default_of_value (by simp [hc])
      | none =>
        rw [hc, Option.none_or] at hv
        exact exportForm_of_assignedValue? (by simp [hv])
    · rw [Declaration.Shaped, hbody]
      exact hf.trans (hw.named_of_clause clause hc htag)
  · obtain hbody | hbody := hbody
    · rw [Declaration.Shaped, hbody]
      exact hf
    · exact shaped_of_declarationBody hbody fun hd => by simp [hf] at hd

end Script.Tree

theorem Entity.exportedAs_eq_iff {x : Entity} {name : String} (hn : name ≠ "default") :
    x.exportedAs = name ↔ x.isDefault = false ∧ x.rawName = name := by
  cases hd : x.isDefault <;> simp [exportedAs, hd, hn.symm]

namespace Module

open Declaration

variable {m : Module} {c : Classifier} {d : Declaration} {x : Entity} {name : String}

/-- A named export mints an entity for each name that it binds. -/
theorem mint_of_named (hs : d.Shaped) (hc : ¬ d.IsClause) (hf : d.form = .named) :
    m.mint c d = d.boundNames.map fun n => m.entity d (c.kindOf d n) n n false := by
  obtain ⟨form, span, codeHash, body⟩ := d
  obtain rfl : form = .named := hf
  match body with
  | .function _ _ | .classDecl _ _ => simp [mint, callableEntities, boundNames]
  | .type _ _ => simp [mint, namedEntity, boundNames, Classifier.kindOf, Classifier.kindVia]
  | .variables _ => simp [mint, namedEntity, boundNames]
  | .value _ => exact absurd rfl hs
  | .clause specifiers => exact absurd rfl hc
  | .defineComponent => cases hs

theorem isDefault_of_mem_mint (hc : ¬ d.IsClause) (hf : d.form = .default)
    (hx : x ∈ m.mint c d) : x.isDefault = true := by
  obtain ⟨form, span, codeHash, body⟩ := d
  obtain rfl : form = .default := hf
  match body with
  | .function _ _ | .classDecl _ _ | .type _ _ | .value _ =>
    obtain rfl := List.mem_singleton.mp hx
    rfl
  | .variables bindings =>
    obtain ⟨b, -, rfl⟩ := List.mem_map.mp hx
    rfl
  | .clause specifiers => exact absurd rfl hc
  | .defineComponent => cases hx

theorem exists_mem_mint (hs : d.Shaped) (hc : ¬ d.IsClause) (hf : d.form = .default) :
    ∃ x, x ∈ m.mint c d := by
  apply List.exists_mem_of_ne_nil
  obtain ⟨form, span, codeHash, body⟩ := d
  obtain rfl : form = .default := hf
  match body with
  | .function _ _ | .classDecl _ _ | .type _ _ | .value _ => exact List.cons_ne_nil _ _
  | .variables bindings => exact fun h => hs rfl (List.map_eq_nil_iff.mp h)
  | .clause specifiers => exact absurd rfl hc
  | .defineComponent => cases hs

/-- A specifier mints an entity if its local name is bound. -/
theorem exists_specifierEntity?_iff (m : Module) (c : Classifier) (d : Declaration)
    (s : Specifier) :
    (∃ x, m.specifierEntity? c d s = some x) ↔ Bound c.declarations s.inner := by
  rw [← Option.isSome_iff_exists, specifierEntity?, Option.isSome_map,
    ← Option.ne_none_iff_isSome, Classifier.localKind_eq_kindWithin (Nat.zero_le _), Ne,
    Classifier.kindWithin_eq_none_iff, not_not]

theorem isDefault_iff_of_isClause (hc : d.IsClause) (hx : x ∈ m.mint c d) :
    x.isDefault = true ↔ x.exportedAs = "default" := by
  rw [mint, hc] at hx
  obtain ⟨s, -, hx⟩ := List.mem_filterMap.mp hx
  constructor
  · intro hd
    rw [Entity.exportedAs, if_pos hd]
  · intro he
    rw [exportedAs_specifierEntity hx] at he
    obtain ⟨kind, -, rfl⟩ := Option.map_eq_some_iff.mp hx
    rw [if_pos he]
    rfl

/-- A clause mints an entity under each name that it exports a bound name as. -/
theorem exportedAs_of_isClause (hc : d.IsClause) :
    (∃ x ∈ m.mint c d, x.exportedAs = name) ↔ Backs c.declarations d name := by
  rw [mint, hc]
  constructor
  · rintro ⟨x, hx, rfl⟩ -
    obtain ⟨s, hs, hx⟩ := List.mem_filterMap.mp hx
    have hbound := (m.exists_specifierEntity?_iff c d s).mp ⟨x, hx⟩
    exact ⟨s, hs, (exportedAs_specifierEntity hx).symm, hbound⟩
  · intro h
    obtain ⟨s, hs, rfl, hbound⟩ := h hc
    obtain ⟨x, hx⟩ := (m.exists_specifierEntity?_iff c d s).mpr hbound
    exact ⟨x, List.mem_filterMap.mpr ⟨s, hs, hx⟩, exportedAs_specifierEntity hx⟩

/-- The entities that are no default exports go by the names that the declaration exports. -/
theorem mint_named_iff (hs : d.Shaped) (hn : name ≠ "default") (he : d.isExported = true) :
    (∃ x ∈ m.mint c d, x.isDefault = false ∧ x.rawName = name) ↔
      d.exportsName name = true ∧ Backs c.declarations d name := by
  by_cases hc : d.IsClause
  · rw [and_iff_right_of_imp (exportsName_of_backs hc), ← exportedAs_of_isClause hc (m := m)]
    simp only [Entity.exportedAs_eq_iff hn]
  · rw [and_iff_left (backs_of_not_isClause hc), exportsName_of_not_isClause hc]
    cases hf : d.form with
    | unexported => simp [isExported, hf] at he
    | named => simp [mint_of_named hs hc hf, entity]
    | default =>
      refine iff_of_false ?_ (by simp)
      rintro ⟨x, hx, hd, -⟩
      rw [isDefault_of_mem_mint hc hf hx] at hd
      cases hd

/-- There is a default export among the entities if the declaration is one. -/
theorem mint_default_iff (hs : d.Shaped) (he : d.isExported = true) :
    (∃ x ∈ m.mint c d, x.isDefault = true) ↔
      d.isDefault = true ∧ Backs c.declarations d "default" := by
  by_cases hc : d.IsClause
  · rw [and_iff_right_of_imp (isDefault_of_backs hc), ← exportedAs_of_isClause hc (m := m)]
    exact exists_congr fun x => and_congr_right fun hx => isDefault_iff_of_isClause hc hx
  · rw [and_iff_left (backs_of_not_isClause hc), isDefault_of_not_isClause hc]
    cases hf : d.form with
    | unexported => simp [isExported, hf] at he
    | named => simp [mint_of_named hs hc hf, entity]
    | default =>
      obtain ⟨x, hx⟩ := exists_mem_mint (m := m) (c := c) hs hc hf
      exact iff_of_true ⟨x, hx, isDefault_of_mem_mint hc hf hx⟩ rfl

/-- If the exported declarations of one sort are those that mint an entity of some other, then the
script has such an entity exactly if it has such a declaration. -/
theorem exists_mem_scriptEntities_iff {markup : Bool} {ds : List Declaration} {p : Entity → Prop}
    {q : Declaration → Prop} (he : ∀ d ∈ ds, q d → d.isExported = true)
    (h : ∀ d ∈ ds, d.isExported = true →
      ((∃ x ∈ m.mint (m.classifier markup false ds) d, p x) ↔ q d)) :
    (∃ x ∈ m.scriptEntities markup ds, p x) ↔ ∃ d ∈ ds, q d := by
  constructor
  · rintro ⟨x, hx, hp⟩
    obtain ⟨d, hd, hexported, hx⟩ := exists_declaration hx
    exact ⟨d, hd, (h d hd hexported).mp ⟨x, hx, hp⟩⟩
  · rintro ⟨d, hd, hq⟩
    have hexported := he d hd hq
    obtain ⟨x, hx, hp⟩ := (h d hd hexported).mpr hq
    exact ⟨x, List.mem_flatMap.mpr ⟨d, List.mem_filter.mpr ⟨hd, hexported⟩, hx⟩, hp⟩

/-- A module has an entity for a name exactly if some declaration exports the name, and a default
export exactly if some declaration is one. Of a clause, this holds if the local name is bound. -/
theorem exports_iff (m : Module) (markup : Bool) {ds : List Declaration}
    (hs : ∀ d ∈ ds, d.Shaped) :
    (∀ name, name ≠ "default" →
      ((∃ x ∈ m.scriptEntities markup ds, x.isDefault = false ∧ x.rawName = name) ↔
        ∃ d ∈ ds, d.exportsName name = true ∧ Backs ds d name)) ∧
      ((∃ x ∈ m.scriptEntities markup ds, x.isDefault = true) ↔
        ∃ d ∈ ds, d.isDefault = true ∧ Backs ds d "default") := by
  constructor
  · intro name hn
    apply exists_mem_scriptEntities_iff
    · intro d hd h
      exact isExported_of_exportsName (hs d hd) h.1
    · intro d hd he
      exact mint_named_iff (hs d hd) hn he
  · apply exists_mem_scriptEntities_iff
    · intro d hd h
      exact isExported_of_isDefault (hs d hd) h.1
    · intro d hd he
      exact mint_default_iff (hs d hd) he

/-- `function load() …` and `export { load as read, load as default, external };` -/
def clauseScript : List Declaration :=
  [⟨.unexported, ⟨1, 1⟩, "", .function (some "load") false⟩,
    ⟨.named, ⟨2, 2⟩, "",
      .clause [⟨"load", "read"⟩, ⟨"load", "default"⟩, ⟨"external", "external"⟩]⟩]

def loadModule : Module := ⟨"src/load.ts", {}⟩

/-- The module exports what the clause says of the function, and nothing that is not in the file. -/
theorem exports_of_clause :
    (∃ x ∈ loadModule.scriptEntities false clauseScript,
        x.isDefault = false ∧ x.rawName = "read") ∧
      (¬ ∃ x ∈ loadModule.scriptEntities false clauseScript,
        x.isDefault = false ∧ x.rawName = "external") ∧
      ∃ x ∈ loadModule.scriptEntities false clauseScript, x.isDefault = true := by
  obtain ⟨hnamed, hdefault⟩ :=
    exports_iff loadModule false (by decide : ∀ d ∈ clauseScript, d.Shaped)
  rw [hnamed "read" (by decide), hnamed "external" (by decide), hdefault]
  decide

end Module

end Exports
