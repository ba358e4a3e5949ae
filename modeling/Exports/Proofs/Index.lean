import Exports.Lookup
import Exports.Proofs.Table
import Mathlib.Data.List.Infix
import Mathlib.Data.List.Nodup

namespace Exports

/-- The last of some entities that has the raw name. -/
def lastNamed? (es : List Entity) (raw : String) : Option Entity :=
  es.reverse.find? (·.rawName = raw)

theorem lastNamed?_cons (e : Entity) (es : List Entity) (raw : String) :
    lastNamed? (e :: es) raw =
      (lastNamed? es raw).or (if e.rawName = raw then some e else none) := by
  rw [lastNamed?, lastNamed?, List.reverse_cons, List.find?_append]
  by_cases he : e.rawName = raw <;> simp [he]

theorem mem_of_lastNamed? {es : List Entity} {raw : String} {e : Entity}
    (h : lastNamed? es raw = some e) : e ∈ es ∧ e.rawName = raw := by
  have hr := List.find?_some h
  exact ⟨List.mem_reverse.mp (List.mem_of_find?_eq_some h), of_decide_eq_true hr⟩

theorem lastNamed?_append (es later : List Entity) (raw : String) :
    lastNamed? (es ++ later) raw = (lastNamed? later raw).or (lastNamed? es raw) := by
  rw [lastNamed?, List.reverse_append, List.find?_append]
  rfl

theorem exists_lastNamed? {es : List Entity} {x : Entity} (hx : x ∈ es) :
    ∃ y, lastNamed? es x.rawName = some y := by
  cases h : lastNamed? es x.rawName with
  | some y => exact ⟨y, rfl⟩
  | none =>
    have := List.find?_eq_none.mp h x (List.mem_reverse.mpr hx)
    simp at this

/-- The last of a raw name comes after all others that have it. -/
theorem sublist_of_lastNamed? {es : List Entity} {x y : Entity} (hx : x ∈ es)
    (hy : lastNamed? es x.rawName = some y) (hne : y ≠ x) : [x, y].Sublist es := by
  obtain ⟨-, later, before, he, hlater⟩ := List.find?_eq_some_iff_append.mp hy
  have hes : es = before.reverse ++ y :: later.reverse := by
    rw [← List.reverse_reverse es, he]
    simp
  have hb : x ∈ before.reverse := by
    rw [hes] at hx
    rcases List.mem_append.mp hx with hx | hx
    · exact hx
    · rcases List.mem_cons.mp hx with hx | hx
      · exact absurd hx.symm hne
      · have := hlater x (List.mem_reverse.mp hx)
        simp at this
  rw [hes, List.cons_sublist_iff]
  exact ⟨before.reverse, y :: later.reverse, rfl, hb, by simp⟩

/-- Of the entities of several files, those of one file. -/
theorem filter_file_append {own others : List Entity} {path : String}
    (hown : ∀ x ∈ own, x.file = path) (hothers : ∀ x ∈ others, x.file ≠ path) :
    (own ++ others).filter (·.file = path) = own := by
  have hall : own.filter (·.file = path) = own := by
    apply List.filter_eq_self.mpr
    intro x hx
    simpa using hown x hx
  have hnone : others.filter (·.file = path) = [] := by
    apply List.filter_eq_nil_iff.mpr
    intro x hx
    simpa using hothers x hx
  rw [List.filter_append, hall, hnone, List.append_nil]

namespace FileEntities

/-- The last entity of a raw name takes its place. -/
theorem find?_insert (f : FileEntities) (e : Entity) (raw : String) :
    (f.insert e).entities.find? (·.rawName = raw) =
      if raw = e.rawName then some e else f.entities.find? (·.rawName = raw) := by
  unfold insert
  by_cases hc : f.entities.any (·.rawName = e.rawName) = true
  · have hm : (f.entities.find? (·.rawName = e.rawName)).isSome := by
      simpa [List.find?_isSome] using hc
    simp only [if_pos hc]
    by_cases hr : raw = e.rawName
    · rw [if_pos hr, hr, Table.find?_replace_self Entity.rawName e f.entities hm]
    · rw [if_neg hr, Table.find?_replace_ne Entity.rawName e f.entities hr]
  · have hn : f.entities.find? (·.rawName = e.rawName) = none := by
      simpa [List.find?_eq_none] using hc
    simp only [if_neg hc, List.find?_append]
    by_cases hr : raw = e.rawName
    · rw [if_pos hr, hr, hn]
      simp
    · simp [hr, Ne.symm hr]

theorem mem_insert {f : FileEntities} {e x : Entity} (h : x ∈ (f.insert e).entities) :
    x ∈ f.entities ∨ x = e := by
  unfold insert at h
  simp only at h
  split at h
  · obtain ⟨old, ho, hx⟩ := List.mem_map.mp h
    split at hx
    · exact .inr hx.symm
    · exact .inl (hx ▸ ho)
  · simpa using h

/-- The entities of one file, as they came. -/
def ofEntities (path : String) (es : List Entity) : FileEntities := es.foldl insert ⟨path, []⟩

theorem find?_foldl_insert (es : List Entity) (f : FileEntities) (raw : String) :
    (es.foldl insert f).entities.find? (·.rawName = raw) =
      (lastNamed? es raw).or (f.entities.find? (·.rawName = raw)) := by
  induction es generalizing f with
  | nil => rfl
  | cons e rest ih =>
    rw [List.foldl_cons, ih, find?_insert, lastNamed?_cons, Option.or_assoc]
    by_cases hr : raw = e.rawName
    · simp [hr]
    · simp [hr, Ne.symm hr]

theorem find?_ofEntities (path : String) (es : List Entity) (raw : String) :
    (ofEntities path es).entities.find? (·.rawName = raw) = lastNamed? es raw := by
  rw [ofEntities, find?_foldl_insert]
  simp

theorem mem_foldl_insert {es : List Entity} {f : FileEntities} {x : Entity}
    (h : x ∈ (es.foldl insert f).entities) : x ∈ f.entities ∨ x ∈ es := by
  induction es generalizing f with
  | nil => exact .inl h
  | cons e rest ih =>
    rcases ih h with h | h
    · rcases mem_insert h with h | rfl
      · exact .inl h
      · exact .inr List.mem_cons_self
    · exact .inr (List.mem_cons_of_mem e h)

theorem mem_ofEntities {path : String} {es : List Entity} {x : Entity}
    (h : x ∈ (ofEntities path es).entities) : x ∈ es := by
  rcases mem_foldl_insert h with h | h
  · cases h
  · exact h

/-- A replaced entity keeps its raw name, and a new one brings a new raw name. -/
theorem nodup_insert {f : FileEntities} (h : (f.entities.map (·.rawName)).Nodup) (e : Entity) :
    ((f.insert e).entities.map (·.rawName)).Nodup := by
  unfold insert
  by_cases hc : f.entities.any (·.rawName = e.rawName) = true
  · have hsame : (fun old : Entity => (if old.rawName = e.rawName then e else old).rawName) =
        fun old => old.rawName := by
      funext old
      split
      · rename_i he
        exact he.symm
      · rfl
    simpa only [if_pos hc, List.map_map, Function.comp_def, hsame] using h
  · have hn : e.rawName ∉ f.entities.map (·.rawName) := by
      intro hm
      obtain ⟨old, ho, he⟩ := List.mem_map.mp hm
      exact hc (List.any_eq_true.mpr ⟨old, ho, by simp [he]⟩)
    simp only [if_neg hc, List.map_append, List.map_cons, List.map_nil]
    refine List.nodup_append.mpr ⟨h, by simp, fun a ha b hb => ?_⟩
    obtain rfl := List.mem_singleton.mp hb
    exact fun he => hn (he ▸ ha)

theorem nodup_foldl_insert (es : List Entity) {f : FileEntities}
    (h : (f.entities.map (·.rawName)).Nodup) :
    ((es.foldl insert f).entities.map (·.rawName)).Nodup := by
  induction es generalizing f with
  | nil => exact h
  | cons e rest ih => exact ih (nodup_insert h e)

theorem nodup_ofEntities (path : String) (es : List Entity) :
    ((ofEntities path es).entities.map (·.rawName)).Nodup :=
  nodup_foldl_insert es .nil

/-- A file keeps an entity if none of its raw name came later. -/
theorem mem_ofEntities_iff (path : String) {es : List Entity} {x : Entity} :
    x ∈ (ofEntities path es).entities ↔ lastNamed? es x.rawName = some x := by
  rw [← find?_ofEntities path]
  constructor
  · intro hx
    cases hf : (ofEntities path es).entities.find? (·.rawName = x.rawName) with
    | none => simpa using List.find?_eq_none.mp hf x hx
    | some y =>
      have hy := List.mem_of_find?_eq_some hf
      have he : y.rawName = x.rawName := by simpa using List.find?_some hf
      rw [List.inj_on_of_nodup_map (nodup_ofEntities path es) hy hx he]
  · exact List.mem_of_find?_eq_some

end FileEntities

namespace Index

/-- Every file that has a position stands there. -/
def WellFormed (x : Index) : Prop :=
  ∀ path position, x.positions.get? path = some position →
    ∃ f, x.files[position]? = some f ∧ f.path = path

theorem wellFormed_empty : WellFormed {} := by
  intro path position h
  cases h

theorem WellFormed.register {x : Index} (h : x.WellFormed) (path : String) :
    (x.register path).WellFormed := by
  unfold Index.register
  split
  · exact h
  · intro p position hp
    rw [Table.get?_insert] at hp
    split at hp
    · rename_i he
      cases hp
      exact ⟨⟨path, []⟩, by simp, he.symm⟩
    · obtain ⟨f, hf, hfp⟩ := h p position hp
      have hl : position < x.files.length := (List.getElem?_eq_some_iff.mp hf).1
      exact ⟨f, by rw [List.getElem?_append_left hl, hf], hfp⟩

theorem file?_register {x : Index} (h : x.WellFormed) (path p : String) :
    (x.register path).file? p =
      if p = path then some ((x.file? path).getD []) else x.file? p := by
  unfold register
  split
  · rename_i hc
    obtain ⟨position, hg⟩ := Option.isSome_iff_exists.mp hc
    obtain ⟨f, hf, -⟩ := h path position hg
    split
    · rename_i hp
      simp [hp, file?, hg, hf]
    · rfl
  · rename_i hc
    have hn : x.positions.get? path = none := by simpa [Table.contains] using hc
    simp only [file?, Table.get?_insert]
    split
    · simp [hn]
    · cases hg : x.positions.get? p with
      | none => rfl
      | some position =>
        obtain ⟨f, hf, -⟩ := h p position hg
        have hl : position < x.files.length := (List.getElem?_eq_some_iff.mp hf).1
        simp [List.getElem?_append_left hl]

theorem insert_eq {x : Index} (h : x.WellFormed) (e : Entity) :
    ∃ position f, (x.register e.file).positions.get? e.file = some position ∧
      (x.register e.file).files[position]? = some f ∧
      x.insert e =
        { x.register e.file with
          files := (x.register e.file).files.modify position (·.insert e) } := by
  have hs : ((x.register e.file).file? e.file).isSome := by
    rw [file?_register h, if_pos rfl]
    rfl
  obtain ⟨es, hes⟩ := Option.isSome_iff_exists.mp hs
  obtain ⟨position, hp, hf⟩ := Option.bind_eq_some_iff.mp hes
  obtain ⟨f, hf, -⟩ := Option.map_eq_some_iff.mp hf
  exact ⟨position, f, hp, hf, by simp only [insert, hp]⟩

theorem WellFormed.insert {x : Index} (h : x.WellFormed) (e : Entity) :
    (x.insert e).WellFormed := by
  obtain ⟨position, f, -, -, he⟩ := insert_eq h e
  intro path p hp
  rw [he] at hp ⊢
  obtain ⟨g, hg, hgp⟩ := h.register e.file path p hp
  by_cases heq : position = p
  · refine ⟨g.insert e, ?_, hgp⟩
    simp [heq, hg]
  · refine ⟨g, ?_, hgp⟩
    simp [heq, hg]

/-- An entity goes to its own file and leaves the others alone. -/
theorem file?_insert {x : Index} (h : x.WellFormed) (e : Entity) (path : String) :
    (x.insert e).file? path =
      if path = e.file then
        some ((FileEntities.mk e.file ((x.file? e.file).getD [])).insert e).entities
      else x.file? path := by
  obtain ⟨position, f, hp, hf, he⟩ := insert_eq h e
  have hown := file?_register h e.file e.file
  rw [if_pos rfl, file?, hp, Option.bind_some, hf, Option.map_some] at hown
  rw [he]
  by_cases hpath : path = e.file
  · rw [if_pos hpath, hpath, ← Option.some.inj hown]
    simp [file?, hp, hf, FileEntities.insert]
  · rw [if_neg hpath, ← (file?_register h e.file path).trans (if_neg hpath)]
    simp only [file?]
    cases hg : (x.register e.file).positions.get? path with
    | none => rfl
    | some q =>
      -- One position is one file, so the other file stands elsewhere.
      obtain ⟨g, hgq, hgp⟩ := h.register e.file path q hg
      obtain ⟨g', hgp', hge⟩ := h.register e.file e.file position hp
      have hne : position ≠ q := by
        intro heq
        rw [heq, hgq] at hgp'
        cases hgp'
        exact hpath (hgp.symm.trans hge)
      simp [hgq, hne]

theorem foldl_insert (es : List Entity) {x : Index} (h : x.WellFormed) (path : String) :
    (es.foldl insert x).WellFormed ∧
      (es.foldl insert x).file? path =
        (es.filter (·.file = path)).foldl
          (fun kept e => some ((FileEntities.mk path (kept.getD [])).insert e).entities)
          (x.file? path) := by
  induction es generalizing x with
  | nil => exact ⟨h, rfl⟩
  | cons e rest ih =>
    obtain ⟨hw, hf⟩ := ih (h.insert e)
    refine ⟨hw, hf.trans ?_⟩
    rw [file?_insert h]
    by_cases he : e.file = path
    · simp [he]
    · simp [he, Ne.symm he]

theorem foldl_insert_some (path : String) (es : List Entity) (f : FileEntities) :
    es.foldl (fun kept e => some ((FileEntities.mk path (kept.getD [])).insert e).entities)
        (some f.entities) =
      some (es.foldl FileEntities.insert f).entities := by
  induction es generalizing f with
  | nil => rfl
  | cons e rest ih => exact ih (f.insert e)

/-- A file has the entities that came for it, in a view of their own. -/
theorem file?_ofEntities (es : List Entity) (path : String) :
    (ofEntities es).file? path =
      if (es.filter (·.file = path)).isEmpty then none
      else some (FileEntities.ofEntities path (es.filter (·.file = path))).entities := by
  rw [ofEntities, (foldl_insert es wellFormed_empty path).2]
  cases es.filter (·.file = path) with
  | nil => rfl
  | cons e rest => exact foldl_insert_some path rest ((FileEntities.mk path []).insert e)

/-- All entities. -/
def entities (x : Index) : List Entity := x.files.flatMap (·.entities)

theorem mem_of_file? {x : Index} {path : String} {es : List Entity} (h : x.file? path = some es)
    {e : Entity} (he : e ∈ es) : e ∈ x.entities := by
  obtain ⟨position, -, hp⟩ := Option.bind_eq_some_iff.mp h
  obtain ⟨f, hf, rfl⟩ := Option.map_eq_some_iff.mp hp
  exact List.mem_flatMap.mpr ⟨f, List.mem_of_getElem? hf, he⟩

theorem wellFormed_ofEntities (es : List Entity) : (ofEntities es).WellFormed :=
  (foldl_insert es wellFormed_empty "").1

theorem WellFormed.exists_file {x : Index} (h : x.WellFormed) {path : String} {es : List Entity}
    (hf : x.file? path = some es) : ∃ f ∈ x.files, f.path = path ∧ f.entities = es := by
  obtain ⟨position, hp, hg⟩ := Option.bind_eq_some_iff.mp hf
  obtain ⟨f, hfp, hpath⟩ := h path position hp
  rw [hfp] at hg
  exact ⟨f, List.mem_of_getElem? hfp, hpath, Option.some.inj hg⟩

theorem mem_entities_register (x : Index) (path : String) {e : Entity}
    (h : e ∈ (x.register path).entities) : e ∈ x.entities := by
  unfold register at h
  split at h
  · exact h
  · simpa [entities] using h

theorem mem_entities_insert {x : Index} {new e : Entity} (h : e ∈ (x.insert new).entities) :
    e ∈ x.entities ∨ e = new := by
  unfold insert at h
  simp only at h
  split at h
  · rename_i position _
    obtain ⟨f, hf, he⟩ := List.mem_flatMap.mp h
    obtain ⟨i, hi, hfi⟩ := List.getElem_of_mem hf
    rw [List.getElem_modify] at hfi
    split at hfi
    · rw [← hfi] at he
      rcases FileEntities.mem_insert he with he | he
      · left
        apply mem_entities_register x new.file
        exact List.mem_flatMap.mpr ⟨_, List.getElem_mem _, he⟩
      · exact .inr he
    · left
      apply mem_entities_register x new.file
      exact List.mem_flatMap.mpr ⟨f, hfi ▸ List.getElem_mem _, he⟩
  · exact .inl (mem_entities_register x _ h)

theorem mem_entities_foldl {es : List Entity} {x : Index} {e : Entity}
    (h : e ∈ (es.foldl insert x).entities) : e ∈ x.entities ∨ e ∈ es := by
  induction es generalizing x with
  | nil => exact .inl h
  | cons new rest ih =>
    rcases ih h with h | h
    · rcases mem_entities_insert h with h | rfl
      · exact .inl h
      · exact .inr List.mem_cons_self
    · exact .inr (List.mem_cons_of_mem new h)

/-- The index has no entities but those that it was made of. -/
theorem mem_entities_ofEntities {es : List Entity} {e : Entity}
    (h : e ∈ (ofEntities es).entities) : e ∈ es := by
  rcases mem_entities_foldl h with h | h
  · cases h
  · exact h

theorem mem_of_candidates {x : Index} {top : String} {e : Entity} (h : e ∈ x.candidates top) :
    e ∈ x.entities := by
  have hu : e ∈ x.under top := (List.mergeSort_perm _ _).mem_iff.mp h
  obtain ⟨f, hf, he⟩ := List.mem_flatMap.mp hu
  exact List.mem_flatMap.mpr ⟨f, (List.mem_filter.mp hf).1, he⟩

/-- An entity that its file keeps is a candidate in every directory above. -/
theorem mem_candidates_ofEntities {es : List Entity} {top : String} {e : Entity}
    (hk : lastNamed? (es.filter (·.file = e.file)) e.rawName = some e)
    (hu : isUnder e.file top = true) : e ∈ (ofEntities es).candidates top := by
  have hne : (es.filter (·.file = e.file)).isEmpty = false := by
    cases hl : es.filter (·.file = e.file) with
    | nil => rw [hl] at hk; cases hk
    | cons => rfl
  have hf := file?_ofEntities es e.file
  rw [hne, if_neg (by simp)] at hf
  obtain ⟨f, hfs, hpath, hes⟩ := (wellFormed_ofEntities es).exists_file hf
  have hm : e ∈ f.entities := by
    rw [hes]
    exact (FileEntities.mem_ofEntities_iff _).mpr hk
  apply (List.mergeSort_perm _ _).mem_iff.mpr
  exact List.mem_flatMap.mpr ⟨f, List.mem_filter.mpr ⟨hfs, by rw [hpath, hu]⟩, hm⟩

theorem isUnder_append (top rest : String) : isUnder (top ++ "/" ++ rest) top = true := by
  have hp : top.toList.isPrefixOf? (top ++ "/" ++ rest).toList = some ('/' :: rest.toList) := by
    rw [List.isPrefixOf?_eq_some_iff_append_eq]
    simp
  rw [isUnder, hp]
  simp

end Index

/-- What one of several searches finds is among what was searched. -/
theorem mem_of_or_find? {es : List Entity} {p : Entity → Bool} {other : Option Entity}
    (ho : ∀ e, other = some e → e ∈ es) {e : Entity}
    (h : (es.find? p).or other = some e) : e ∈ es := by
  rcases Option.or_eq_some_iff.mp h with h | ⟨-, h⟩
  · exact List.mem_of_find?_eq_some h
  · exact ho e h

namespace Request

variable {entries : List String} {r : Request} {es : List Entity} {e : Entity}

theorem mem_of_ownDefault? (h : r.ownDefault? entries es = some e) : e ∈ es :=
  mem_of_or_find? (fun _ => mem_of_or_find? fun _ => mem_of_or_find? fun _ =>
    List.mem_of_find?_eq_some) h

theorem mem_of_nearbyDefault? (h : r.nearbyDefault? entries es = some e) : e ∈ es :=
  mem_of_or_find? (fun _ => mem_of_or_find? fun _ => mem_of_or_find? fun _ =>
    mem_of_or_find? fun _ => List.mem_of_find?_eq_some) h

theorem mem_of_choose? (h : r.choose? entries es = some e) : e ∈ es := by
  refine mem_of_or_find? (fun x hx => ?_) h
  split at hx
  · exact mem_of_nearbyDefault? hx
  · exact mem_of_or_find? (fun _ => List.mem_of_find?_eq_some) hx

/-- The entity that a file has under the name, among its entities. -/
def own? (entries : List String) (r : Request) (es : List Entity) : Option Entity :=
  if isComponentPath r.path then es.head?
  else if r.isDefault then r.ownDefault? entries es
  else es.find? (·.rawName = r.name)

theorem inFile?_eq (entries : List String) (r : Request) (x : Index) :
    r.inFile? entries x =
      (x.file? r.path).bind fun es => (r.own? entries es).map (·.id) := by
  unfold inFile? own?
  cases x.file? r.path with
  | none => rfl
  | some es =>
    simp only [bind, Option.bind_some]
    split
    · rw [Option.map_eq_bind]; rfl
    · split <;> (rw [Option.map_eq_bind]; rfl)

theorem mem_of_own? (h : r.own? entries es = some e) : e ∈ es := by
  unfold own? at h
  split at h
  · exact List.mem_of_head? h
  · split at h
    · exact mem_of_ownDefault? h
    · exact List.mem_of_find?_eq_some h

theorem exists_of_inFile? {x : Index} {id : String} (h : r.inFile? entries x = some id) :
    ∃ e ∈ x.entities, e.id = id := by
  rw [inFile?_eq] at h
  obtain ⟨es, hes, h⟩ := Option.bind_eq_some_iff.mp h
  obtain ⟨found, hf, hid⟩ := Option.map_eq_some_iff.mp h
  exact ⟨found, x.mem_of_file? hes (mem_of_own? hf), hid⟩

theorem exists_of_nearby? {x : Index} {id : String} (h : r.nearby? entries x = some id) :
    ∃ e ∈ x.entities, e.id = id := by
  obtain ⟨top, -, h⟩ := List.exists_of_findSome?_eq_some h
  obtain ⟨found, hf, hid⟩ := Option.map_eq_some_iff.mp h
  exact ⟨found, x.mem_of_candidates (mem_of_choose? hf), hid⟩

end Request

end Exports
