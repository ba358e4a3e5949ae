import Exports.Proofs.ScriptFile

namespace Exports.ScriptFile

variable {s : ScriptFile} {files : Files} {e : Engine} {x y d : Entity}

theorem Indexed.lookup_lastNamed (h : s.Indexed files e) {name : String}
    (hy : lastNamed? s.entities name = some y) :
    (e.lookup files s.root s.file name false).1 = .ofIndexed y.id := by
  apply h.lookup_of_inFile?
  rw [h.inFile?_eq (mem_of_lastNamed? hy).1]
  by_cases hname : name = "default"
  · -- The request is for the default export, and its first choice is the raw name `default`.
    have hkept : s.kept.find? (·.rawName = "default") = some y := by
      rw [kept, FileEntities.find?_ofEntities, ← hname, hy]
    simp [hname, Request.ownDefault?, hkept]
  · simp [hname, hy]

/-- A default export of the same raw name that comes later takes the place of a named one. -/
def Replaced (s : ScriptFile) (x : Entity) : Prop :=
  ∃ d, [x, d].Sublist s.entities ∧ d.isDefault = true ∧ d.rawName = x.rawName ∧ d.id ≠ x.id

/-- A default export that comes after a named one of its raw name is the last of this raw name,
since the file has no second default export. -/
theorem lastNamed?_of_sublist (hx : x ∈ s.entities) (hn : x.isDefault = false)
    (hs : [x, d].Sublist s.entities) (hd : d.isDefault = true) (hr : d.rawName = x.rawName) :
    lastNamed? s.entities x.rawName = some d := by
  obtain ⟨before, after, hes, hb, ha⟩ := List.cons_sublist_iff.mp hs
  have ha : d ∈ after := List.singleton_sublist.mp ha
  obtain ⟨y, hy⟩ := exists_lastNamed? ha
  obtain ⟨hya, hyr⟩ := mem_of_lastNamed? hy
  have hmem : ∀ z ∈ after, z ∈ s.entities := fun z hz => hes ▸ List.mem_append_right before hz
  have hdisjoint := List.disjoint_of_nodup_append (hes ▸ s.nodup_entities)
  have hyx : y ≠ x := by
    rintro rfl
    exact hdisjoint hb hya
  have hyd : y = d := eq_of_isDefault (hmem y hya) (hmem d ha)
    (isDefault_of_rawName hx (hmem y hya) hn (hyr.trans hr) hyx) hd
  rw [← hr, hes, lastNamed?_append, hy, hyd, Option.some_or]

/-- A named import finds its own export exactly if no default export took the place of it. -/
theorem lookup_named_iff (h : s.Indexed files e) (hx : x ∈ s.entities)
    (hn : x.isDefault = false) :
    (e.lookup files s.root s.file x.rawName false).1 = ⟨x.id, x.kind, .indexed⟩ ↔
      ¬ s.Replaced x := by
  obtain ⟨y, hy⟩ := exists_lastNamed? hx
  obtain ⟨hys, hyr⟩ := mem_of_lastNamed? hy
  have hown : Resolved.ofIndexed x.id = ⟨x.id, x.kind, .indexed⟩ := by
    obtain ⟨name, hid, -⟩ := (minted_of_mem hx).id
    rw [hid, Resolved.ofIndexed_idFor]
  rw [h.lookup_lastNamed hy]
  constructor
  · rintro heq ⟨d, hs, hd, hr, hid⟩
    rw [lastNamed?_of_sublist hx hn hs hd hr] at hy
    cases hy
    exact hid (congrArg Resolved.id heq)
  · intro hnot
    have hid : y.id = x.id := by
      by_cases hyx : y = x
      · rw [hyx]
      · have hyd := isDefault_of_rawName hx hys hn hyr hyx
        by_cases hid : y.id = x.id
        · exact hid
        · exact absurd ⟨y, sublist_of_lastNamed? hx hy hyx, hyd, hyr, hid⟩ hnot
    rw [hid, hown]

def clauseLast : ScriptFile :=
  inCard [defaultFoo, clauseFoo] ⟨by decide, by simp [defaultFoo, clauseFoo, Declaration.binds]⟩

def clauseFirst : ScriptFile :=
  inCard [clauseFoo, defaultFoo] ⟨by decide, by simp [defaultFoo, clauseFoo, Declaration.binds]⟩

def namedFoo : Entity :=
  { id := "Function:Foo", kind := .function, file := "src/Card.ts", span := ⟨2, 2⟩
    rawName := "Foo" }

/-- After the default export, the clause stays in the index. -/
theorem named_import_finds_named :
    ¬ clauseLast.Replaced namedFoo ∧
      ((clauseLast.indexedWith []).lookup ({} : MemoryFiles).view ⟨"/repo"⟩ ⟨"src/Card.ts"⟩
        "Foo" false).1 = ⟨"Function:Foo", .function, .indexed⟩ := by
  have hes : clauseLast.entities = [defaultCard, namedFoo] := by decide +kernel
  have hmem : namedFoo ∈ clauseLast.entities := by
    rw [hes]
    simp
  have hstays : ¬ clauseLast.Replaced namedFoo := by
    rintro ⟨d, hs, -⟩
    rw [hes] at hs
    have hfirst : namedFoo = defaultCard := (List.cons.inj (hs.eq_of_length rfl)).1
    exact absurd hfirst (by decide)
  exact ⟨hstays, (lookup_named_iff clauseLast.indexed_alone hmem rfl).mpr hstays⟩

/-- Before the default export, the clause is replaced, and its name leads to the default export. -/
theorem named_import_finds_default :
    namedFoo ∈ clauseFirst.entities ∧
      clauseFirst.Indexed ({} : MemoryFiles).view (clauseFirst.indexedWith []) ∧
      ((clauseFirst.indexedWith []).lookup ({} : MemoryFiles).view ⟨"/repo"⟩ ⟨"src/Card.ts"⟩
        "Foo" false).1 = ⟨"Function:Card", .function, .indexed⟩ := by
  refine ⟨?_, clauseFirst.indexed_alone, ?_⟩ <;> decide +kernel

end Exports.ScriptFile
