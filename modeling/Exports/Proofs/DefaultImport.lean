import Exports.Proofs.ScriptFile

namespace Exports.ScriptFile

variable {s : ScriptFile} {files : Files} {e : Engine} {x y d : Entity}

/-- The entity that a default import of the file means, whatever its name. -/
def default? (s : ScriptFile) : Option Entity :=
  (Request.mk s.toModule.path "default" true).ownDefault? s.resolve.entryFiles s.kept

theorem default?_eq (s : ScriptFile) :
    s.default? =
      (lastNamed? s.entities "default").or ((lastNamed? s.entities s.toModule.name).or
        ((s.kept.find? fun x => Text.endsIn x.id (":" ++ s.toModule.name)).or
          (s.kept.find? (·.isDefault)))) := by
  have hname : ModuleName.ofPath s.resolve.entryFiles s.toModule.path = s.toModule.name := rfl
  have hkept : ∀ raw, s.kept.find? (·.rawName = raw) = lastNamed? s.entities raw :=
    FileEntities.find?_ofEntities s.toModule.path s.entities
  simp only [default?, Request.ownDefault?, hname, hkept]

theorem Indexed.lookup_default (h : s.Indexed files e) (hy : s.default? = some y)
    (hm : y ∈ s.entities) {name : String} {isDefault : Bool}
    (hd : (isDefault || name = "default") = true) :
    (e.lookup files s.root s.file name isDefault).1 = .ofIndexed y.id := by
  apply h.lookup_of_inFile?
  rw [h.inFile?_eq hm, hd, if_pos rfl]
  exact congrArg (Option.map Entity.id) hy

/-- The default export `d` is what default imports find. It is if its raw name is `default`.
Otherwise an entity under the name of the module comes before it, or else one whose id ends in this
name; if there is none, `d` is found as long as the index kept it. -/
def FindsDefault (s : ScriptFile) (d : Entity) : Prop :=
  d.rawName = "default" ∨
    match (lastNamed? s.entities s.toModule.name).or
      (s.kept.find? fun x => Text.endsIn x.id (":" ++ s.toModule.name)) with
    | some x => x.id = d.id
    | none => lastNamed? s.entities d.rawName = some d

theorem mem_of_mem_kept (hx : x ∈ s.kept) : x ∈ s.entities := FileEntities.mem_ofEntities hx

theorem find?_isDefault (hd : d ∈ s.entities) (hdef : d.isDefault = true) :
    s.kept.find? (·.isDefault) = some d ↔ lastNamed? s.entities d.rawName = some d := by
  rw [← FileEntities.mem_ofEntities_iff s.toModule.path]
  constructor
  · exact List.mem_of_find?_eq_some
  · intro hk
    cases hf : s.kept.find? (·.isDefault) with
    | none => exact absurd hdef (List.find?_eq_none.mp hf d hk)
    | some y =>
      have hy := mem_of_mem_kept (List.mem_of_find?_eq_some hf)
      rw [eq_of_isDefault hy hd (List.find?_some hf) hdef]

theorem findsDefault_iff (hd : d ∈ s.entities) (hdef : d.isDefault = true) :
    s.FindsDefault d ↔ ∃ y, s.default? = some y ∧ y.id = d.id := by
  rw [default?_eq, FindsDefault]
  cases hbare : lastNamed? s.entities "default" with
  | some y =>
    -- Only the default export is exported as `default`.
    obtain ⟨hy, hr⟩ := mem_of_lastNamed? hbare
    have hyd : y = d := eq_of_exportedAs hy hd (by simp [Entity.exportedAs, hr, hdef])
    rw [Option.some_or]
    exact ⟨fun _ => ⟨y, rfl, by rw [hyd]⟩, fun _ => .inl (hyd ▸ hr)⟩
  | none =>
    have hr : d.rawName ≠ "default" := by
      intro hr
      obtain ⟨y, hy⟩ := exists_lastNamed? hd
      rw [hr, hbare] at hy
      cases hy
    rw [Option.none_or, or_iff_right hr, ← Option.or_assoc]
    cases (lastNamed? s.entities s.toModule.name).or
      (s.kept.find? fun x => Text.endsIn x.id (":" ++ s.toModule.name)) with
    | some x => simp
    | none =>
      rw [Option.none_or]
      change lastNamed? s.entities d.rawName = some d ↔ _
      rw [← find?_isDefault hd hdef]
      constructor
      · exact fun h => ⟨d, h, rfl⟩
      · rintro ⟨y, hy, -⟩
        have hm := mem_of_mem_kept (List.mem_of_find?_eq_some hy)
        rw [hy, eq_of_isDefault hm hd (List.find?_some hy) hdef]

def stranger (s : ScriptFile) (top id : String) : Entity :=
  { id, kind := .function, file := top ++ "/" ++ s.toModule.path, span := ⟨1, 1⟩
    rawName := "default", isDefault := true }

theorem stranger_file_ne (s : ScriptFile) (top id : String) :
    (s.stranger top id).file ≠ s.toModule.path := by
  intro h
  have hl := congrArg String.length h
  simp only [stranger, String.length_append] at hl
  have : "/".length = 1 := rfl
  omega

/-- Where the file itself has no answer, a stranger answers, if a directory is searched at all. -/
theorem nearby?_stranger (hn : s.default? = none) {top id : String} {rest : List String}
    (hdir : (Request.mk s.toModule.path "default" true).directories = top :: rest) :
    (Request.mk s.toModule.path "default" true).nearby? s.resolve.entryFiles
      (s.indexedWith [s.stranger top id]).index = some id := by
  have hbare : lastNamed? s.entities "default" = none := by
    rw [default?_eq, Option.or_eq_none_iff] at hn
    exact hn.1
  have hcandidate : s.stranger top id ∈
      (s.indexedWith [s.stranger top id]).index.candidates top := by
    apply Index.mem_candidates_ofEntities
    · have hown : s.entities.filter (·.file = (s.stranger top id).file) = [] := by
        apply List.filter_eq_nil_iff.mpr
        intro x hx
        have hf := (minted_of_mem hx).file
        simpa [hf] using (s.stranger_file_ne top id).symm
      rw [List.filter_append, hown]
      simp [lastNamed?]
    · exact Index.isUnder_append top s.toModule.path
  have hfound : ((s.indexedWith [s.stranger top id]).index.candidates top).find?
      (·.rawName = "default") = some (s.stranger top id) := by
    cases hf : ((s.indexedWith [s.stranger top id]).index.candidates top).find?
        (·.rawName = "default") with
    | none =>
      have hs := List.find?_eq_none.mp hf _ hcandidate
      simp [stranger] at hs
    | some y =>
      have hy := Index.mem_entities_ofEntities
        (Index.mem_of_candidates (List.mem_of_find?_eq_some hf))
      have hr : y.rawName = "default" := by simpa using List.find?_some hf
      rcases List.mem_append.mp hy with hy | hy
      · obtain ⟨z, hz⟩ := exists_lastNamed? hy
        rw [hr, hbare] at hz
        cases hz
      · rw [List.mem_singleton.mp hy]
  rw [Request.nearby?, hdir, List.findSome?_cons]
  simp only [Request.choose?, hfound, Option.some_or, Option.map_some]
  rfl

theorem findIndexed_indexedWith (hd : d ∈ s.entities) (hn : s.default? = none)
    {others : List Entity} (hi : s.Indexed ({} : MemoryFiles).view (s.indexedWith others)) :
    ((s.indexedWith others).findIndexed ((s.indexedWith others).request ({} : MemoryFiles).view
      s.root s.file "default" true)).1 =
        (Request.mk s.toModule.path "default" true).nearby? s.resolve.entryFiles
          (s.indexedWith others).index := by
  have hown : (Request.mk s.toModule.path "default" true).inFile?
      (s.indexedWith others).resolve.entryFiles (s.indexedWith others).index = none := by
    rw [hi.inFile?_eq hd, if_pos rfl]
    exact congrArg (Option.map Entity.id) hn
  rw [Engine.findIndexed_fst, hi.request_eq]
  have hflag : (true || decide ("default" = "default")) = true := rfl
  rw [hflag, hown, Option.none_or, Engine.searchNearby_fst_of_empty rfl]
  rfl

/-- Without an answer from the file itself, some index leads a default import elsewhere. -/
theorem exists_missed (hd : d ∈ s.entities) (hn : s.default? = none) :
    ∃ files e, s.Indexed files e ∧
      (e.lookup files s.root s.file "default" true).1 ≠ .ofIndexed d.id := by
  cases hdir : (Request.mk s.toModule.path "default" true).directories with
  | nil =>
    refine ⟨_, _, s.indexed_alone, fun heq => ?_⟩
    have hf := findIndexed_indexedWith hd hn s.indexed_alone
    rw [Request.nearby?, hdir] at hf
    rcases (s.indexedWith []).lookup_cases ({} : MemoryFiles).view s.root s.file "default" true
      with ⟨id, after, hid, -⟩ | ⟨after, -, -, -, hl⟩
    · rw [hid] at hf
      cases hf
    · rw [hl] at heq
      cases congrArg Resolved.confidence heq
  | cons top rest =>
    have hi : s.Indexed ({} : MemoryFiles).view
        (s.indexedWith [s.stranger top (d.id ++ "+")]) := by
      apply indexed_indexedWith
      intro x hx
      rw [List.mem_singleton.mp hx]
      exact s.stranger_file_ne top _
    refine ⟨_, _, hi, fun heq => ?_⟩
    have hf := findIndexed_indexedWith hd hn hi
    rw [nearby?_stranger hn hdir] at hf
    rcases (s.indexedWith [s.stranger top (d.id ++ "+")]).lookup_cases ({} : MemoryFiles).view
      s.root s.file "default" true with ⟨id, after, hid, hl⟩ | ⟨after, hid, -⟩
    · rw [hid] at hf
      rw [hl, Option.some.inj hf] at heq
      have hlen := congrArg (fun r : Resolved => r.id.length) heq
      simp only [Resolved.ofIndexed, String.length_append] at hlen
      have : "+".length = 1 := rfl
      omega
    · rw [hid] at hf
      cases hf

/-- Default imports find the default export, in every engine that indexed the file, exactly if
nothing else of the file comes before it. -/
theorem lookup_default_iff (hd : d ∈ s.entities) (hdef : d.isDefault = true) :
    (∀ files e, s.Indexed files e →
      (∀ name, (e.lookup files s.root s.file name true).1 = .ofIndexed d.id) ∧
        ∀ isDefault, (e.lookup files s.root s.file "default" isDefault).1 = .ofIndexed d.id) ↔
      s.FindsDefault d := by
  rw [findsDefault_iff hd hdef]
  constructor
  · intro hall
    cases hy : s.default? with
    | none =>
      obtain ⟨files, e, hi, hne⟩ := exists_missed hd hy
      exact absurd ((hall files e hi).1 "default") hne
    | some y =>
      have hm : y ∈ s.entities := mem_of_mem_kept (Request.mem_of_ownDefault? hy)
      have hi := s.indexed_alone
      have hyd := (hi.lookup_default hy hm rfl).symm.trans ((hall _ _ hi).1 "default")
      exact ⟨y, rfl, congrArg Resolved.id hyd⟩
  · rintro ⟨y, hy, hid⟩ files e hi
    have hm : y ∈ s.entities := mem_of_mem_kept (Request.mem_of_ownDefault? hy)
    rw [← hid]
    exact ⟨fun name => hi.lookup_default hy hm rfl,
      fun isDefault => hi.lookup_default hy hm (by simp)⟩

def besidePanel : ScriptFile :=
  inCard [defaultFoo, constant "Panel"]
    ⟨by decide, by simp [defaultFoo, constant, Declaration.binds]⟩

def besideCard : ScriptFile :=
  inCard [defaultFoo, constant "Card"]
    ⟨by decide, by simp [defaultFoo, constant, Declaration.binds]⟩

/-- A constant that has not the name of the module leaves the default export alone. -/
theorem default_import_finds_default :
    besidePanel.FindsDefault defaultCard ∧
      ∀ files e, besidePanel.Indexed files e →
        (∀ name, (e.lookup files ⟨"/repo"⟩ ⟨"src/Card.ts"⟩ name true).1 =
          .ofIndexed "Function:Card") ∧
        ∀ isDefault, (e.lookup files ⟨"/repo"⟩ ⟨"src/Card.ts"⟩ "default" isDefault).1 =
          .ofIndexed "Function:Card" := by
  have hfirst : (lastNamed? besidePanel.entities besidePanel.toModule.name).or
      (besidePanel.kept.find? fun x => Text.endsIn x.id (":" ++ besidePanel.toModule.name)) =
        some defaultCard := by
    decide +kernel
  have hfound : besidePanel.FindsDefault defaultCard := by
    right
    rw [hfirst]
  have hmem : defaultCard ∈ besidePanel.entities := by decide +kernel
  exact ⟨hfound, (lookup_default_iff hmem rfl).mpr hfound⟩

/-- A constant that has the name of the module is found in place of the default export. -/
theorem default_import_finds_namesake :
    defaultCard ∈ besideCard.entities ∧
      besideCard.Indexed ({} : MemoryFiles).view (besideCard.indexedWith []) ∧
      ((besideCard.indexedWith []).lookup ({} : MemoryFiles).view ⟨"/repo"⟩ ⟨"src/Card.ts"⟩
        "default" true).1 = ⟨"Variable:Card", .binding, .indexed⟩ := by
  refine ⟨?_, besideCard.indexed_alone, ?_⟩ <;> decide +kernel

end Exports.ScriptFile
