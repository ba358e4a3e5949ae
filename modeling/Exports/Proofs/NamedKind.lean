import Exports.Proofs.Declared
import Exports.Proofs.EntityIds
import Exports.Proofs.ScriptFile

namespace Exports

namespace Script.Tree

theorem isExported_of_clause {source : List Char} {t : Tree} {d : Declaration}
    {specifiers : List Specifier} (hd : d ∈ t.declarations source)
    (hb : d.body = .clause specifiers) : d.isExported = true := by
  obtain ⟨statement, -, h⟩ := exists_of_mem_declarations hd
  rw [hb] at h
  obtain ⟨-, hf, -⟩ | ⟨-, hc | hbody⟩ := declared_cases h
  · simp [Declaration.isExported, hf, exportForm_ne_unexported]
  · cases hc
  · exact absurd hbody (declarationBody_ne_clause source false statement specifiers)

end Script.Tree

namespace Declaration

variable {d : Declaration} {name : String} {s : Specifier}

theorem exportsName_of_binds (hf : d.form = .named) (hb : d.binds name = true) :
    d.exportsName name = true := by
  unfold exportsName
  split
  · rename_i specifiers hc
    simp [binds, hc] at hb
  · simp [hf, hb]

theorem outer_mem_exportedNames (he : d.isExported = true) (hs : s ∈ d.specifiers) :
    s.outer ∈ d.exportedNames := by
  rw [exportedNames_of_mem he hs]
  exact List.mem_map_of_mem hs

theorem mem_exportedNames (hc : ∀ s ∈ d.specifiers, d.isExported = true)
    (h : d.exportsName name = true) : name ∈ d.exportedNames := by
  obtain ⟨form, span, codeHash, body⟩ := d
  match body with
  | .clause specifiers =>
    obtain ⟨s, hs, ho⟩ := List.any_eq_true.mp h
    rw [← of_decide_eq_true ho]
    exact outer_mem_exportedNames (hc s hs) hs
  | .function n _ | .classDecl n _ =>
    simp only [exportsName, binds, Bool.and_eq_true, decide_eq_true_eq] at h
    obtain ⟨rfl, rfl⟩ := h
    simp [exportedNames]
  | .type n _ =>
    simp only [exportsName, binds, Bool.and_eq_true, decide_eq_true_eq] at h
    obtain ⟨rfl, rfl⟩ := h
    simp [exportedNames]
  | .variables bindings =>
    simp only [exportsName, binds, Bool.and_eq_true, decide_eq_true_eq] at h
    obtain ⟨rfl, hb⟩ := h
    simpa [exportedNames] using hb
  | .value _ | .defineComponent => simp [exportsName, binds] at h

end Declaration

namespace Classifier

variable {c c' : Classifier} {m : Module} {d : Declaration} {s : Specifier} {x : Entity}

/-- A clause exports, under the name, what is out of reach for those who ask the clause. -/
def OutOfReachExport (c : Classifier) (name : String) : Prop :=
  ∃ d ∈ c.declarations, ∃ s ∈ d.specifiers, s.outer = name ∧ c.OutOfReach aliasLimit s.inner

instance (c : Classifier) (name : String) : Decidable (c.OutOfReachExport name) :=
  inferInstanceAs (Decidable (∃ d ∈ c.declarations, ∃ s ∈ d.specifiers, _ ∧ _))

/-- Export clauses among the declarations are exported, as they are in every file. -/
def ClausesExported (ds : List Declaration) : Prop :=
  ∀ d ∈ ds, ∀ s ∈ d.specifiers, d.isExported = true

theorem rawName_mem_exportedNames (he : d.isExported = true) (hx : x ∈ m.mint c d)
    (hn : x.isDefault = false) : x.rawName ∈ d.exportedNames := by
  have hs := Module.exportedAs_mem he hx
  rwa [Entity.exportedAs, if_neg (by simp [hn])] at hs

theorem rawName_of_specifier (hx : m.specifierEntity? c d s = some x)
    (hn : x.isDefault = false) : x.rawName = s.outer := by
  rw [← Module.exportedAs_specifierEntity hx, Entity.exportedAs, if_neg (by simp [hn])]

/-- The declaration that exports the name of an entity is the one that it was minted from. -/
theorem namedExport?_of_mint (h : Declaration.WellScoped c.declarations)
    (hc : ClausesExported c.declarations) (hd : d ∈ c.declarations) (he : d.isExported = true)
    (hx : x ∈ m.mint c d) (hn : x.isDefault = false) (hds : c'.declarations = c.declarations) :
    c'.namedExport? x.rawName = some d := by
  have hmem := rawName_mem_exportedNames he hx hn
  rw [namedExport?, hds]
  apply find?_eq_some_of_unique hd
  · rcases Module.mint_cases he (h.nodup hd) hx with ⟨hf, name, hb, rfl⟩ | hx | ⟨s, hs, hx⟩
    · exact Declaration.exportsName_of_binds hf hb
    · rw [hx.isDefault] at hn
      cases hn
    · rw [rawName_of_specifier hx hn]
      exact Declaration.exportsName_of_mem hs
  · intro d' hd' hexports
    exact h.eq_of_mem hd' hd (Declaration.mem_exportedNames (hc d' hd') hexports) hmem

theorem outOfReachExport_iff (h : Declaration.WellScoped c.declarations)
    (hc : ClausesExported c.declarations) (hd : d ∈ c.declarations) (hs : s ∈ d.specifiers) :
    c.OutOfReachExport s.outer ↔ c.OutOfReach aliasLimit s.inner := by
  have he := hc d hd s hs
  constructor
  · rintro ⟨d', hd', s', hs', houter, hout⟩
    have hmem' := Declaration.outer_mem_exportedNames (hc d' hd' s' hs') hs'
    obtain rfl : d' = d :=
      h.eq_of_mem hd' hd hmem' (houter ▸ Declaration.outer_mem_exportedNames he hs)
    have hnodup := Declaration.exportedNames_of_mem he hs ▸ h.nodup hd
    rwa [List.inj_on_of_nodup_map hnodup hs' hs houter] at hout
  · intro hout
    exact ⟨d, hd, s, hs, rfl, hout⟩

theorem not_outOfReachExport {name : String} (h : Declaration.WellScoped c.declarations)
    (hc : ClausesExported c.declarations) (hd : d ∈ c.declarations) (hb : d.binds name = true)
    (hn : name ∈ d.exportedNames) : ¬ c.OutOfReachExport name := by
  rintro ⟨d', hd', s, hs, rfl, -⟩
  have hmem := Declaration.outer_mem_exportedNames (hc d' hd' s hs) hs
  obtain rfl : d = d' := h.eq_of_mem hd hd' hn hmem
  rw [Declaration.specifiers_eq_nil hb] at hs
  cases hs

/-- What content tells of a named export is the kind that it was minted with, unless a clause
exports it and its kind is out of reach. The place of the file does not matter. -/
theorem kindOf_named_iff (h : Declaration.WellScoped c.declarations)
    (hc : ClausesExported c.declarations) (hd : d ∈ c.declarations) (he : d.isExported = true)
    (hx : x ∈ m.mint c d) (hn : x.isDefault = false) (hds : c'.declarations = c.declarations)
    (hsur : c'.surroundings = c.surroundings) :
    c'.kindOf d x.rawName = x.kind ↔ ¬ c.OutOfReachExport x.rawName := by
  have hmem := rawName_mem_exportedNames he hx hn
  rcases Module.mint_cases he (h.nodup hd) hx with ⟨-, name, hb, rfl⟩ | hx | ⟨s, hs, hx⟩
  · exact iff_of_true (kindOf_congr hds hsur hb) (not_outOfReachExport h hc hd hb hmem)
  · rw [hx.isDefault] at hn
    cases hn
  · have hnodup := Declaration.exportedNames_of_mem he hs ▸ h.nodup hd
    rw [rawName_of_specifier hx hn, c'.kindOf_outer hnodup hs, kindWithin_congr hds hsur,
      getD_kindWithin_eq_iff (Module.localKind_of_specifierEntity? hx),
      outOfReachExport_iff h hc hd hs]

end Classifier

namespace ScriptFile

variable {s : ScriptFile} {files : Files} {e : Engine} {x : Entity}

/-- The declarations of the file as an extraction classifies them. -/
def classifier (s : ScriptFile) : Classifier :=
  s.toModule.classifier s.language.allowsMarkup false s.declarations

/-- The declarations of the file as those see them who know its place only. -/
def placed (s : ScriptFile) : Classifier :=
  (Module.mk (Path.absolute s.root s.file).slashed s.resolve).classifier s.language.allowsMarkup
    false s.declarations

/-- An engine that was asked for nothing yet, for which the file has its declarations. What a new
engine parses is what the file holds (`SourceCache.parse?_eq`). -/
structure Parsed (s : ScriptFile) (files : Files) (e : Engine) : Prop where
  notDirectory : files.isDirectory (Path.absolute s.root s.file) = false
  resolve : e.resolve = s.resolve
  fresh : e.memo = {}
  source : ∃ parsed, (e.cache.parse? files (Path.absolute s.root s.file) none).1 = some parsed ∧
    parsed.language = s.language ∧ parsed.declarations = s.declarations

theorem Parsed.clausesExported (h : s.Parsed files e) :
    Classifier.ClausesExported s.declarations := by
  obtain ⟨parsed, -, -, hds⟩ := h.source
  intro d hd s hs
  rw [← hds] at hd
  exact Script.Tree.isExported_of_clause hd (Declaration.body_of_mem hs)

theorem Parsed.generate_named (h : s.Parsed files e) {d : Declaration} {name : String}
    (hd : s.placed.namedExport? name = some d) :
    (e.generate files (Path.absolute s.root s.file) name false none none).1 =
      .mint .inferred (s.placed.kindOf d name) name := by
  obtain ⟨parsed, hp, hl, hds⟩ := h.source
  have htarget : e.target? files (Path.absolute s.root s.file) =
      some (Path.absolute s.root s.file) := by
    simp [Engine.target?, h.notDirectory]
  have htold : Module.ofContent? ⟨(Path.absolute s.root s.file).slashed, e.resolve⟩ none parsed
      name false = some ⟨s.placed.kindOf d name, name⟩ := by
    rw [Module.ofContent?, hl, s.isScript, hds, h.resolve]
    change (s.placed.namedExport? name).map _ = _
    rw [hd]
    rfl
  have hidentity : (e.infer files (Path.absolute s.root s.file) name false none).1 =
      ⟨s.placed.kindOf d name, name⟩ := by
    rw [Engine.infer_fst, h.fresh, Table.get?_empty, Option.getD_none, Engine.classify_fst,
      htarget, Option.bind_some, hp, Option.bind_some, htold, Option.getD_some]
  rw [Engine.generate_fst, hidentity, Identity.resolved]

/-- The content of a file tells the id that a named export was minted with, unless a clause exports
it and its kind is out of reach. -/
theorem generate_named_iff (h : s.Parsed files e) (hx : x ∈ s.entities)
    (hn : x.isDefault = false) :
    (e.generate files (Path.absolute s.root s.file) x.rawName false none none).1.id = x.id ↔
      ¬ s.classifier.OutOfReachExport x.rawName := by
  obtain ⟨d, hd, he, hmint⟩ : ∃ d ∈ s.declarations, d.isExported = true ∧
      x ∈ s.toModule.mint s.classifier d := Module.exists_declaration hx
  have hds : s.placed.declarations = s.classifier.declarations := by simp [placed, classifier]
  have hs : s.placed.surroundings = s.classifier.surroundings := by
    simp [placed, classifier, toModule]
  have hfound := Classifier.namedExport?_of_mint s.wellScoped h.clausesExported hd he hmint hn hds
  have hkind := Classifier.kindOf_named_iff s.wellScoped h.clausesExported hd he hmint hn hds hs
  rw [h.generate_named hfound, Resolved.mint, Module.id_of_named hx hn, Kind.idFor_inj,
    and_iff_left rfl, hkind]

def remembering (s : ScriptFile) (files : Files) (parsed : ParsedSource) : Engine :=
  { resolve := s.resolve, limits := ⟨true, 0, 0, 0⟩
    cache := SourceCache.remember {} files (Path.absolute s.root s.file) parsed }

theorem parsed_remembering {parsed : ParsedSource}
    (hdir : files.isDirectory (Path.absolute s.root s.file) = false)
    (hs : (files.stamp (Path.absolute s.root s.file)).isSome)
    (hl : parsed.language = s.language) (hd : parsed.declarations = s.declarations) :
    s.Parsed files (s.remembering files parsed) where
  notDirectory := hdir
  resolve := rfl
  fresh := rfl
  source := ⟨parsed, SourceCache.parse?_remember {} parsed s.ofPath hs, hl, hd⟩

end ScriptFile

namespace AliasChain

open Script

def letter (k : Nat) : Char := Char.ofNat (97 + k)

/-- As many aliases as that, the function that the last stands for, and an export of the first:
`const a=b;const b=c;function c(){}export{a}` is the chain of two. -/
def text (n : Nat) : List Char :=
  (List.range n).flatMap (fun k => "const ".toList ++ [letter k, '=', letter (k + 1), ';']) ++
    "function ".toList ++ [letter n] ++ "()\x7b\x7dexport\x7ba\x7d".toList

def leaf (lexeme : Lexeme) (role : Option Role) (start length : Nat) : Tree :=
  .node (.lexeme lexeme) role ⟨start, 0⟩ ⟨start + length, 0⟩ []

def word (text : String) (start : Nat) : Tree := leaf (.word text) none start text.length

def phrase (p : Phrase) (role : Option Role) (start length : Nat) (children : List Tree) : Tree :=
  .node (.phrase p) role ⟨start, 0⟩ ⟨start + length, 0⟩ children

/-- `const a=b;` -/
def aliasTree (start : Nat) : Tree :=
  phrase .lexicalDeclaration none start 10
    [word "const" start,
      phrase .declarator none (start + 6) 3
        [leaf .identifier (some .name) (start + 6) 1, word "=" (start + 7),
          leaf .identifier (some .value) (start + 8) 1],
      word ";" (start + 9)]

/-- `function a(){}` -/
def functionTree (start : Nat) : Tree :=
  phrase .functionDeclaration none start 14
    [word "function" start, leaf .identifier (some .name) (start + 9) 1,
      phrase .parameters none (start + 10) 2 [word "(" (start + 10), word ")" (start + 11)],
      phrase .block (some .body) (start + 12) 2
        [word "\x7b" (start + 12), word "\x7d" (start + 13)]]

/-- `export{a}` -/
def exportTree (start : Nat) : Tree :=
  phrase .exportStatement none start 9
    [word "export" start,
      phrase .exportClause none (start + 6) 3
        [word "\x7b" (start + 6),
          phrase .exportSpecifier none (start + 7) 1 [leaf .identifier (some .name) (start + 7) 1],
          word "\x7d" (start + 8)]]

def source (n : Nat) : ParsedSource where
  language := .typescript
  scriptLanguage := .typescript
  content := String.ofList (text n)
  source := text n
  tree := phrase .program none 0 (10 * n + 23)
    ((List.range n).map (fun k => aliasTree (10 * k)) ++
      [functionTree (10 * n), exportTree (10 * n + 14)])
  block := none

def files (n : Nat) : Files :=
  (({} : MemoryFiles).write ⟨"/repo/src/Card.ts"⟩ (String.ofList (text n))).view

/-- `src/Card.ts` with the chain. -/
def file (n : Nat) (h : Declaration.WellScoped (source n).declarations) : ScriptFile :=
  .inCard (source n).declarations h

def engine (n : Nat) (h : Declaration.WellScoped (source n).declarations) : Engine :=
  (file n h).remembering (files n) (source n)

theorem parsed_file {n : Nat} (h : Declaration.WellScoped (source n).declarations) :
    (file n h).Parsed (files n) (engine n h) := by
  have hp : Path.absolute ⟨"/repo"⟩ ⟨"src/Card.ts"⟩ = ⟨"/repo/src/Card.ts"⟩ := by decide +kernel
  apply ScriptFile.parsed_remembering
  · simp [file, ScriptFile.inCard, hp, files, MemoryFiles.view, MemoryFiles.isDirectory,
      MemoryFiles.write, Table.insert, Table.contains]
  · simp [file, ScriptFile.inCard, hp, files, MemoryFiles.view, MemoryFiles.file?,
      MemoryFiles.write, Table.get?_insert]
  · rfl
  · rfl

/-- Where parsing gives that tree for the text, the engine is one that has parsed the file. -/
theorem parse?_chain {n : Nat} (h : Declaration.WellScoped (source n).declarations)
    (ht : Script.parse (.ofLanguage .typescript) (text n) = (source n).tree) :
    ({} : SourceCache).parse? (files n) (Path.absolute ⟨"/repo"⟩ ⟨"src/Card.ts"⟩) none =
      (some (source n), (engine n h).cache) := by
  have hp : Path.absolute ⟨"/repo"⟩ ⟨"src/Card.ts"⟩ = ⟨"/repo/src/Card.ts"⟩ := by decide +kernel
  have hl : Language.ofPath ⟨"/repo/src/Card.ts"⟩ = .ok .typescript := by decide +kernel
  apply SourceCache.parse?_new
  rw [hp, files, MemoryFiles.source?_write _ hl rfl, ParsedSource.ofScript, String.toList_ofList,
    ht]
  rfl

theorem wellScoped_seven : Declaration.WellScoped (source 7).declarations := by decide +kernel

theorem wellScoped_eight : Declaration.WellScoped (source 8).declarations := by decide +kernel

/-- At the end of seven aliases the content tells the function that was extracted. -/
theorem generate_seven :
    ∃ x ∈ (file 7 wellScoped_seven).entities, x.id = "Function:a" ∧
      ((engine 7 wellScoped_seven).generate (files 7) (Path.absolute ⟨"/repo"⟩ ⟨"src/Card.ts"⟩)
        "a" false none none).1.id = "Function:a" := by
  obtain ⟨x, hx, hfacts⟩ : ∃ x ∈ (file 7 wellScoped_seven).entities,
      (x.id, x.rawName, x.isDefault) = ("Function:a", "a", false) :=
    List.mem_map.mp (by decide +kernel)
  obtain ⟨hid, hname, hdef⟩ : x.id = "Function:a" ∧ x.rawName = "a" ∧ x.isDefault = false := by
    simpa using hfacts
  have hreach : ¬ (file 7 wellScoped_seven).classifier.OutOfReachExport x.rawName := by
    rw [hname]
    decide +kernel
  have hsame := (ScriptFile.generate_named_iff (parsed_file wellScoped_seven) hx hdef).mpr hreach
  rw [hname, hid] at hsame
  exact ⟨x, hx, hid, hsame⟩

/-- At the end of eight it tells a variable, though an extraction finds the function. -/
theorem generate_eight :
    (file 8 wellScoped_eight).Parsed (files 8) (engine 8 wellScoped_eight) ∧
      (file 8 wellScoped_eight).entities.map (fun x => (x.id, x.rawName, x.isDefault)) =
        [("Function:a", "a", false)] ∧
      ((engine 8 wellScoped_eight).generate (files 8) (Path.absolute ⟨"/repo"⟩ ⟨"src/Card.ts"⟩)
        "a" false none none).1.id = "Variable:a" := by
  refine ⟨parsed_file wellScoped_eight, ?_⟩
  decide +kernel

end AliasChain

end Exports
