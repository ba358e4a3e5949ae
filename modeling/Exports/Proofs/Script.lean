import Exports.Engine
import Exports.Proofs.Path
import Mathlib.Data.List.Infix
import Mathlib.Data.List.Nodup

namespace Exports

namespace Text

theorem eq_dot_of_toLower {c : Char} (h : c.toLower = '.') : c = '.' := by
  unfold Char.toLower at h
  split at h
  · rename_i hc
    have hv : (c.val + 32).toNat = 46 := congrArg (fun c : Char => c.val.toNat) h
    have hlow : 65 ≤ c.toNat := hc.1
    have hhigh : c.toNat ≤ 90 := hc.2
    rw [UInt32.toNat_add] at hv
    simp at hv
    omega
  · exact h

section

variable {α : Type} [DecidableEq α] {sep : α} {text front rest : List α}

theorem beforeLast_of_not_mem (h : sep ∉ text) : beforeLast sep text = none := by
  induction text with
  | nil => rfl
  | cons c rest ih =>
    rw [List.mem_cons, not_or] at h
    rw [beforeLast, ih h.2]
    simp [Ne.symm h.1]

theorem beforeLast_append (h : sep ∉ rest) (stem : List α) :
    beforeLast sep (stem ++ sep :: rest) = some stem := by
  induction stem with
  | nil => simp [beforeLast, beforeLast_of_not_mem h]
  | cons c stem ih => simp [beforeLast, ih]

/-- What stands before the last separator starts the text, and the separator follows it. -/
theorem exists_of_beforeLast (h : beforeLast sep text = some front) :
    ∃ rest, text = front ++ sep :: rest := by
  induction text generalizing front with
  | nil => cases h
  | cons c cs ih =>
    rw [beforeLast] at h
    cases hb : beforeLast sep cs with
    | some a =>
      rw [hb] at h
      obtain rfl := Option.some.inj h
      obtain ⟨rest, hr⟩ := ih hb
      exact ⟨rest, by rw [hr, List.cons_append]⟩
    | none =>
      simp only [hb] at h
      split at h
      · rename_i hc
        cases h
        exact ⟨cs, by rw [hc, List.nil_append]⟩
      · cases h

end

theorem exists_last_of_mem {α : Type} {sep : α} {text : List α} (h : sep ∈ text) :
    ∃ front rest, text = front ++ sep :: rest ∧ sep ∉ rest := by
  obtain ⟨rest, front, hr, hn⟩ := List.eq_append_cons_of_mem (List.mem_reverse.mpr h)
  refine ⟨front.reverse, rest.reverse, ?_, by simpa using hn⟩
  rw [← List.reverse_reverse text, hr]
  simp

theorem cutFirst_append {sep : Char} {front : List Char} (h : sep ∉ front) (rest : List Char) :
    cutFirst sep (front ++ sep :: rest) = some (front, rest) := by
  induction front with
  | nil => simp [cutFirst]
  | cons c front ih =>
    rw [List.mem_cons, not_or] at h
    simp [cutFirst, Ne.symm h.1, ih h.2]

/-- The last dot of a text is that of the bytes it is shown of. What follows comes from its own bytes
if nothing is stray there. -/
theorem exists_of_shown_extension {name : Bytes} {stem rest : List Char}
    (h : (shown name).toList = stem ++ '.' :: rest) (hd : '.' ∉ rest)
    (hr : replacement ∉ rest) :
    ∃ before, name = before ++ dot :: encode (String.ofList rest) ∧
      dot ∉ encode (String.ofList rest) := by
  have hmem : dot ∈ name := by
    apply mem_of_mem_shown (by decide)
    rw [h]
    exact List.mem_append_right _ List.mem_cons_self
  obtain ⟨before, after, rfl, hafter⟩ := exists_last_of_mem hmem
  have hshown := shownChars_append_ascii (b := dot) (by decide) before after
  have hshownAfter : '.' ∉ shownChars after := by
    intro hm
    refine hafter (mem_of_mem_shown (by decide) ?_)
    rwa [shown, String.toList_ofList]
  rw [shown, String.toList_ofList] at h
  have hstem := beforeLast_append hd stem
  rw [← h, hshown] at hstem
  have hbefore := Option.some.inj ((beforeLast_append hshownAfter _).symm.trans hstem)
  rw [hshown, hbefore] at h
  have hchars := (List.cons.inj (List.append_cancel_left h)).2
  have htext : after = encode (String.ofList rest) := by
    apply isText_of_shown_eq
    · rw [shown, hchars]
    · rwa [String.toList_ofList]
  exact ⟨before, by rw [htext], htext ▸ hafter⟩

end Text

/-- A name that ends like a component file is the name of one, or has no extension. -/
theorem Language.ofPath_of_componentName {p : Path} {name : Text.Bytes}
    (hn : p.fileName? = some name)
    (hc : Text.endsIn (Text.lowerAscii (Text.shown name)) ".vue" = true) {language : Language}
    (hl : Language.ofPath p = .ok language) : language = .vue := by
  obtain ⟨front, hf⟩ := List.isSuffixOf_iff_suffix.mp hc
  rw [Text.lowerAscii, String.toList_map] at hf
  obtain ⟨stem, ending, hname, -, hending⟩ := List.map_eq_append_iff.mp hf.symm
  obtain ⟨c, rest, rfl, hdot, hrest⟩ := List.map_eq_cons_iff.mp hending
  obtain rfl := Text.eq_dot_of_toLower hdot
  have hnot : ∀ d ∈ rest, d ≠ '.' ∧ d ≠ Text.replacement := by
    intro d hd
    have hlow := List.mem_map_of_mem (f := Char.toLower) hd
    rw [hrest] at hlow
    constructor <;>
    · rintro rfl
      revert hlow
      decide
  obtain ⟨before, rfl, hafter⟩ := Text.exists_of_shown_extension hname
    (fun hm => (hnot _ hm).1 rfl) (fun hm => (hnot _ hm).2 rfl)
  have hext : p.extension? =
      if before.isEmpty then none else some (Text.encode (String.ofList rest)) := by
    simp [Path.extension?, hn, Text.beforeLast_append hafter]
  cases hs : before.isEmpty with
  | true => simp [ofPath, hext, hs] at hl
  | false =>
    have hlow : Text.lowerAscii (String.ofList rest) = "vue" := by
      rw [Text.lowerAscii, ← String.ofList_toList (s := (String.ofList rest).map Char.toLower),
        String.toList_map, String.toList_ofList, hrest]
      rfl
    simp [ofPath, hext, hs, Text.decode?_encode, ofExtension, hlow] at hl
    exact hl.symm

namespace Text

/-- What ends in `.vue` ends so in its last piece. -/
theorem endsIn_of_slash {front name : String}
    (h : endsIn (lowerAscii (front ++ "/" ++ name)) ".vue" = true) :
    endsIn (lowerAscii name) ".vue" = true := by
  have hs := List.isSuffixOf_iff_suffix.mp h
  simp only [lowerAscii, String.toList_map, String.toList_append, List.map_append,
    List.append_assoc] at hs
  have hslash : '/' :: name.toList.map Char.toLower <:+
      front.toList.map Char.toLower ++ ('/' :: name.toList.map Char.toLower) :=
    List.suffix_append ..
  have hnot : '/' ∉ ".vue".toList := by decide
  apply List.isSuffixOf_iff_suffix.mpr
  rw [lowerAscii, String.toList_map]
  rcases List.suffix_or_suffix_of_suffix hs hslash with hs | hs
  · rcases List.suffix_cons_iff.mp hs with hs | hs
    · exact absurd (hs ▸ List.mem_cons_self) hnot
    · exact hs
  · exact absurd (hs.subset List.mem_cons_self) hnot

end Text

/-- The key of a file is the end of its place, from somewhere on. -/
theorem Path.exists_relative (root file : Path) :
    ∃ above below, (absolute root file).place = above ++ below ∧
      relative root file = below.slashed := by
  rw [relative, Place.below?]
  generalize (absolute root file).place = whole
  cases hb : root.normalize.place.isPrefixOf? whole with
  | none => exact ⟨[], whole, rfl, rfl⟩
  | some below =>
    exact ⟨root.normalize.place, below, (List.isPrefixOf?_eq_some_iff_append_eq.mp hb).symm, rfl⟩

theorem Place.slashed_concat (place : Place) (name : Text.Bytes) :
    slashed (place ++ [.name name]) = Text.shown name ∨
      slashed (place ++ [.name name]) = place.slashed ++ "/" ++ Text.shown name := by
  have hs : segments (place ++ [.name name]) = place.segments ++ [Text.shown name] := by
    rw [segments, List.filterMap_append]
    rfl
  rw [slashed, hs, slashed]
  cases place.segments with
  | nil => exact .inl (String.intercalate_singleton ..)
  | cons first rest =>
    right
    rw [String.intercalate_append_of_ne_nil (by simp) (by simp), String.intercalate_singleton]

/-- The key of a script file does not end like that of a component file. -/
theorem not_isComponentPath {root file : Path} {language : Language}
    (hl : Language.ofPath (Path.absolute root file) = .ok language)
    (hs : language.isComponentFile = false) :
    isComponentPath (Path.relative root file) = false := by
  obtain ⟨above, below, hplace, hkey⟩ := Path.exists_relative root file
  rw [hkey, ← Bool.not_eq_true]
  intro hc
  generalize Path.absolute root file = path at hl hplace
  rcases List.eq_nil_or_concat below with rfl | ⟨front, last, rfl⟩
  · revert hc
    decide +kernel
  · have hlast : path.place.getLast? = some last := by simp [hplace]
    cases hn : path.fileName? with
    | none => simp [Language.ofPath, Path.extension?, hn] at hl
    | some name =>
      have hname : last = .name name := by
        simp only [Path.fileName?, hlast] at hn
        split at hn
        · rename_i s he
          cases he
          cases hn
          rfl
        · cases hn
      have hend : Text.endsIn (Text.lowerAscii (Text.shown name)) ".vue" = true := by
        rw [hname, List.concat_eq_append, isComponentPath] at hc
        rcases Place.slashed_concat front name with he | he
        · rwa [he] at hc
        · rw [he] at hc
          exact Text.endsIn_of_slash hc
      rw [Language.ofPath_of_componentName hn hend hl] at hs
      cases hs

namespace Declaration

/-- The names that a declaration exports something under, in the order of the source. -/
def exportedNames (d : Declaration) : List String :=
  match d.form, d.body with
  | .unexported, _ => []
  | _, .clause specifiers => specifiers.map (·.outer)
  | _, .value _ => ["default"]
  | _, .defineComponent => []
  | .default, .variables bindings => bindings.map fun _ => "default"
  | .default, _ => ["default"]
  | .named, .function name _ | .named, .classDecl name _ => name.toList
  | .named, .type name _ => [name]
  | .named, .variables bindings => bindings.map (·.name)

/-- Exported names are pairwise distinct, and no name of the module is bound by two
declarations. -/
structure WellScoped (ds : List Declaration) : Prop where
  exports : (ds.flatMap exportedNames).Nodup
  bindings : ds.Pairwise fun d d' => ∀ name, d.binds name = true → d'.binds name = false

end Declaration

/-- The name that an entity is exported under. -/
def Entity.exportedAs (e : Entity) : String := if e.isDefault then "default" else e.rawName

namespace Module

variable {m : Module} {c : Classifier} {d : Declaration} {markup : Bool}
  {ds : List Declaration} {x : Entity}

theorem exportedAs_entity (m : Module) (d : Declaration) (kind : Kind) (idName rawName : String)
    (isDefault : Bool) :
    (m.entity d kind idName rawName isDefault).exportedAs =
      if isDefault then "default" else rawName := rfl

theorem exportedAs_specifierEntity {s : Specifier} (hx : m.specifierEntity? c d s = some x) :
    x.exportedAs = s.outer := by
  obtain ⟨kind, -, rfl⟩ := Option.map_eq_some_iff.mp hx
  split
  · rename_i hs
    rw [exportedAs_entity, hs]
    rfl
  · rfl

/-- The entities of a clause go by the names that it exports. -/
theorem exportedAs_specifiers (m : Module) (c : Classifier) (d : Declaration)
    (specifiers : List Specifier) :
    ((specifiers.filterMap (m.specifierEntity? c d)).map Entity.exportedAs).Sublist
      (specifiers.map (·.outer)) := by
  induction specifiers with
  | nil => exact .slnil
  | cons s rest ih =>
    cases hx : m.specifierEntity? c d s with
    | none =>
      rw [List.filterMap_cons_none hx]
      exact ih.cons _
    | some x =>
      rw [List.filterMap_cons_some hx, List.map_cons, exportedAs_specifierEntity hx]
      exact ih.cons_cons _

/-- What a declaration mints goes by names that it exports. -/
theorem mint_exportedAs (m : Module) (c : Classifier) {d : Declaration}
    (hd : d.isExported = true) :
    ((m.mint c d).map Entity.exportedAs).Sublist d.exportedNames := by
  obtain ⟨form, span, codeHash, body⟩ := d
  cases form with
  | unexported => cases hd
  | named =>
    match body with
    | .function name _ | .classDecl name _ =>
      cases name <;> simp [mint, callableEntities, Declaration.exportedNames, exportedAs_entity]
    | .type _ _ | .variables _ | .value _ | .defineComponent =>
      simp [mint, namedEntity, Declaration.exportedNames, exportedAs_entity, Function.comp_def]
    | .clause specifiers => exact m.exportedAs_specifiers c _ specifiers
  | default =>
    match body with
    | .function _ _ | .classDecl _ _ | .type _ _ | .variables _ | .value _ | .defineComponent =>
      simp [mint, callableEntities, namedEntity, Declaration.exportedNames, exportedAs_entity,
        Function.comp_def]
    | .clause specifiers => exact m.exportedAs_specifiers c _ specifiers

theorem exportedAs_sublist (m : Module) (markup : Bool) (ds : List Declaration) :
    ((m.scriptEntities markup ds).map Entity.exportedAs).Sublist
      (ds.flatMap Declaration.exportedNames) := by
  rw [scriptEntities]
  -- The classifier knows all declarations, so it stays fixed in the induction.
  generalize m.classifier markup false ds = c
  induction ds with
  | nil => exact .slnil
  | cons d rest ih =>
    cases hd : d.isExported with
    | false =>
      rw [List.filter_cons_of_neg (by simp [hd]), List.flatMap_cons]
      exact ih.trans (List.sublist_append_right ..)
    | true =>
      rw [List.filter_cons_of_pos hd, List.flatMap_cons, List.flatMap_cons, List.map_append]
      exact (m.mint_exportedAs c hd).append ih

/-- In a well-scoped script, entities exported under one name are one. -/
theorem eq_of_exportedAs (h : Declaration.WellScoped ds) {x y : Entity}
    (hx : x ∈ m.scriptEntities markup ds) (hy : y ∈ m.scriptEntities markup ds)
    (he : x.exportedAs = y.exportedAs) : x = y :=
  List.inj_on_of_nodup_map (h.exports.sublist (m.exportedAs_sublist markup ds)) hx hy he

/-- An entity stands in the module's file under an id of its kind, and a named export has its
name in its id. -/
structure Minted (m : Module) (x : Entity) : Prop where
  file : x.file = m.path
  id : ∃ name, x.id = x.kind.idFor name ∧ (x.isDefault = false → name = x.rawName)

theorem minted_entity {kind : Kind} {idName rawName : String} {isDefault : Bool}
    (h : isDefault = false → idName = rawName) :
    m.Minted (m.entity d kind idName rawName isDefault) :=
  ⟨rfl, idName, rfl, h⟩

theorem minted_namedEntity {kind : Kind} {name : String} :
    m.Minted (m.namedEntity d kind name) := by
  apply minted_entity
  intro h
  rw [if_neg (by simpa using h)]

theorem minted_callableEntities {name : Option String} (hx : x ∈ m.callableEntities c d name) :
    m.Minted x := by
  unfold callableEntities at hx
  split at hx
  · obtain rfl := List.mem_singleton.mp hx
    exact minted_entity fun h => by cases h
  · obtain ⟨n, -, rfl⟩ := List.mem_map.mp hx
    exact minted_entity fun _ => rfl

theorem minted_specifierEntity {s : Specifier} (hx : m.specifierEntity? c d s = some x) :
    m.Minted x := by
  obtain ⟨kind, -, rfl⟩ := Option.map_eq_some_iff.mp hx
  split
  · exact minted_entity fun h => by cases h
  · exact minted_entity fun _ => rfl

theorem minted_of_mem_mint (hx : x ∈ m.mint c d) : m.Minted x := by
  unfold mint at hx
  split at hx
  · exact minted_callableEntities hx
  · exact minted_callableEntities hx
  · obtain rfl := List.mem_singleton.mp hx
    exact minted_namedEntity
  · obtain ⟨b, -, rfl⟩ := List.mem_map.mp hx
    exact minted_namedEntity
  · obtain rfl := List.mem_singleton.mp hx
    exact minted_entity fun h => by cases h
  · obtain ⟨s, -, hs⟩ := List.mem_filterMap.mp hx
    exact minted_specifierEntity hs
  · cases hx

theorem minted_of_mem (hx : x ∈ m.scriptEntities markup ds) : m.Minted x := by
  obtain ⟨d, -, hd⟩ := List.mem_flatMap.mp hx
  exact minted_of_mem_mint hd

end Module

theorem Kind.ofLabel?_label (kind : Kind) : Kind.ofLabel? kind.label = some kind := by
  cases kind <;> decide

/-- An id tells its kind. -/
theorem Resolved.ofIndexed_idFor (kind : Kind) (name : String) :
    Resolved.ofIndexed (kind.idFor name) = ⟨kind.idFor name, kind, .indexed⟩ := by
  have hcolon : ':' ∉ kind.label.toList := by cases kind <;> decide
  have hcut : Text.cutFirst ':' (kind.idFor name).toList =
      some (kind.label.toList, name.toList) := by
    rw [Kind.idFor, String.toList_append, String.toList_append, List.append_assoc]
    exact Text.cutFirst_append hcolon name.toList
  simp [ofIndexed, hcut, String.ofList_toList, Kind.ofLabel?_label]

end Exports
