import Exports.Declaration.Lift

namespace Exports.Script.Tree

variable {source : List Char} {decorated : Bool} {t statement : Tree} {d : Declaration}
  {body : Body}

/-- Every declaration stands for what some statement declares. -/
theorem exists_of_mem_declarations (hd : d ∈ t.declarations source) :
    ∃ statement ∈ t.namedChildren, statement.declared source = some (d.form, d.body) := by
  obtain ⟨statement, hs, h⟩ := List.mem_filterMap.mp hd
  obtain ⟨⟨form, body⟩, hdeclared, rfl⟩ := Option.map_eq_some_iff.mp h
  exact ⟨statement, hs, hdeclared⟩

/-- Only export statements export. -/
theorem declared_cases {form : ExportForm} (h : statement.declared source = some (form, body)) :
    (statement.phrase? = some .exportStatement ∧ form = statement.exportForm ∧
      statement.exportBody source = some body) ∨
    form = .unexported ∧
      (body = .defineComponent ∨ statement.declarationBody source false = some body) := by
  unfold declared at h
  split at h
  · rename_i hp
    split at h
    · cases h
    · obtain ⟨b, hb, he⟩ := Option.map_eq_some_iff.mp h
      cases he
      exact .inl ⟨hp, rfl, hb⟩
  · split at h
    · cases h
      exact .inr ⟨rfl, .inl rfl⟩
    · cases h
  · obtain ⟨b, hb, he⟩ := Option.map_eq_some_iff.mp h
    cases he
    exact .inr ⟨rfl, .inr hb⟩

theorem exportForm_ne_unexported (t : Tree) : t.exportForm ≠ .unexported := by
  unfold exportForm
  split <;> simp

theorem exportBody_cases (h : statement.exportBody source = some body) :
    (∃ inner, statement.child? .declaration = some inner ∧
      inner.declarationBody source (statement.hasComponentDecorator source) = some body) ∨
    (∃ value, (statement.child? .value).or statement.assignedValue? = some value ∧
      body = value.valueBody source (statement.hasComponentDecorator source)) ∨
    ∃ clause ∈ statement.children, clause.tag = .phrase .exportClause ∧
      body = .clause (clause.specifiers source) := by
  unfold exportBody at h
  split at h
  · rename_i inner hi
    exact .inl ⟨inner, hi, h⟩
  · split at h
    · rename_i value hv
      cases h
      exact .inr (.inl ⟨value, hv, rfl⟩)
    · obtain ⟨clause, hc, he⟩ := Option.map_eq_some_iff.mp h
      exact .inr (.inr ⟨clause, List.mem_of_find?_eq_some hc,
        by simpa using List.find?_some hc, he.symm⟩)

theorem declarationBody_ne_clause (source : List Char) (decorated : Bool) (t : Tree)
    (specifiers : List Specifier) :
    t.declarationBody source decorated ≠ some (.clause specifiers) := by
  unfold declarationBody typeBody
  split <;> simp

/-- A value that follows an equals sign is a default export. -/
theorem exportForm_of_assignedValue? (h : statement.assignedValue?.isSome) :
    statement.exportForm = .default := by
  obtain ⟨value, hv⟩ := Option.isSome_iff_exists.mp h
  have hne := List.ne_nil_of_mem (List.mem_of_find?_eq_some hv)
  have hmem := (List.dropWhile_sublist _).subset (List.head_mem hne)
  have hsign := List.head_dropWhile_not _ hne
  rw [Bool.not_eq_false'] at hsign
  rw [exportForm, if_pos]
  exact List.any_eq_true.mpr ⟨_, hmem, (Bool.or_eq_true _ _).mpr (.inr hsign)⟩

/-- What the grammar allows of an export statement: a value is exported as the default, and a clause
is not. Only default exports that declare variables and bind none are left out, such as
`export default const {} = x;`. -/
structure WellExported (source : List Char) (t : Tree) : Prop where
  default_of_value : (t.child? .value).isSome → t.exportForm = .default
  named_of_clause : ∀ c ∈ t.children, c.tag = .phrase .exportClause → t.exportForm = .named
  binds_of_default : ∀ inner, t.child? .declaration = some inner → t.exportForm = .default →
    ∀ decorated, inner.declarationBody source decorated ≠ some (.variables [])

end Exports.Script.Tree
