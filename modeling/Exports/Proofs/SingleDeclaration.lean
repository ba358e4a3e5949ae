import Exports.Files.Memory
import Exports.Proofs.Mint

namespace Exports

/-- A value that tells its kind by itself: no name, and no call of a wrapper. -/
def Shape.standsAlone : Shape → Bool
  | .name _ => false
  | .call facts => !Naming.isComponentWrapper facts.callee
  | _ => true

namespace Declaration

/-- A declaration exports what it declares: functions, classes and types, variables by their names,
and a value as the default. -/
def isDirect (d : Declaration) : Bool :=
  match d.body with
  | .function _ _ | .classDecl _ _ | .type _ _ | .value _ => true
  | .variables _ => d.form = .named
  | .clause _ | .defineComponent => false

/-- The value that is classified where a declaration is asked for a name. -/
def valueUnder? (d : Declaration) (name : String) : Option Shape :=
  match d.body with
  | .variables bindings => ((bindings.find? (·.name = name)).or bindings.head?).map (·.value)
  | .value shape => some shape
  | _ => none

end Declaration

namespace Classifier

variable {c c' : Classifier} {d : Declaration} {name : String}

theorem standsFor?_of_standsAlone {b : Binding} (h : b.value.standsAlone = true) :
    c.standsFor? b = none := by
  unfold standsFor?
  cases hv : b.value with
  | name target => simp [hv, Shape.standsAlone] at h
  | call facts =>
    have hw : Naming.isComponentWrapper facts.callee = false := by
      simpa [hv, Shape.standsAlone] using h
    simp [hw]
  | absent | literal | object | array | function | classLike | other => simp

theorem valueKind_of_standsAlone {shape : Shape} (h : shape.standsAlone = true)
    (known known' : String → Option Kind) :
    c.valueKind known name shape = c.valueKind known' name shape := by
  cases shape with
  | name target => cases h
  | call facts =>
    have hw : Naming.isComponentWrapper facts.callee = false := by
      simpa [Shape.standsAlone] using h
    simp only [valueKind, hw, Bool.false_eq_true, if_false]
  | absent | literal | object | array | function | classLike | other => rfl

theorem kindVia_of_standsAlone (hd : d.isDirect = true)
    (hv : ∀ shape, d.valueUnder? name = some shape → shape.standsAlone = true)
    (known known' : String → Option Kind) : c.kindVia known d name = c.kindVia known' d name := by
  unfold kindVia
  unfold Declaration.valueUnder? at hv
  match hb : d.body with
  | .function _ _ | .classDecl _ _ | .type _ _ | .defineComponent => rfl
  | .variables bindings =>
    simp only [hb] at hv
    cases hf : (bindings.find? (·.name = name)).or bindings.head? with
    | none => simp only [hf]
    | some b =>
      have halone : b.value.standsAlone = true := hv b.value (by rw [hf, Option.map_some])
      simp only [hf]
      exact bindingKind_of_own (standsFor?_of_standsAlone halone) known known'
  | .value shape =>
    simp only [hb] at hv
    exact valueKind_of_standsAlone (hv shape rfl) known known'
  | .clause _ => simp [Declaration.isDirect, hb] at hd

theorem kindOf_of_standsAlone (hp : c.path = c'.path) (hs : c.surroundings = c'.surroundings)
    (hd : d.isDirect = true)
    (hv : ∀ shape, d.valueUnder? name = some shape → shape.standsAlone = true) :
    c.kindOf d name = c'.kindOf d name := by
  rw [kindOf, kindVia_of_standsAlone hd hv _ (c'.kindWithin aliasLimit), kindOf]
  simp only [kindVia, valueKind, bindingKind, callableKind, classKind, fallback, hp, hs]

end Classifier

namespace Module

variable {m : Module} {c : Classifier} {d : Declaration} {x : Entity}

/-- A direct export mints named exports and a default export of its own. -/
theorem mint_cases_of_isDirect (hd : d.isDirect = true) (he : d.isExported = true)
    (hx : x ∈ m.mint c d) : m.MintsNamed c d x ∨ m.MintsDefault c d x := by
  have hvariables : ∀ bindings, d.form = .default → d.body = .variables bindings →
      ∀ b ∈ bindings, d.declaredName = some b.name := by
    intro bindings hf hb
    simp [Declaration.isDirect, hb, hf] at hd
  rcases mint_cases_of_declared he hvariables hx with h | h | ⟨s, hs, -⟩
  · exact .inl h
  · exact .inr h
  · simp [Declaration.isDirect, Declaration.body_of_mem hs] at hd

theorem valueUnder?_of_default (hd : d.isDirect = true) (hx : x ∈ m.mint c d)
    (hdef : x.isDefault = true) (name name' : String) :
    d.valueUnder? name = d.valueUnder? name' := by
  unfold Declaration.valueUnder?
  split
  · rename_i bindings hb
    rw [mint, hb] at hx
    obtain ⟨b, -, rfl⟩ := List.mem_map.mp hx
    simp_all [Declaration.isDirect, namedEntity, entity]
  · rfl
  · rfl

/-- Kind and name of what a direct export mints, told from the declaration alone. -/
theorem ofDeclaration_of_mint {language : Language} {ds : List Declaration}
    (hl : language.isComponentFile = false) (hd : d.isDirect = true) (he : d.isExported = true)
    (hx : x ∈ m.mint (m.classifier language.allowsMarkup false ds) d)
    (hv : ∀ shape, d.valueUnder? x.rawName = some shape → shape.standsAlone = true) :
    ∃ name, x.id = x.kind.idFor name ∧
      m.ofDeclaration (some language) none d x.rawName x.isDefault = ⟨x.kind, name⟩ := by
  have hkind : ∀ name, (∀ shape, d.valueUnder? name = some shape → shape.standsAlone = true) →
      (m.classifier language.allowsMarkup false [d]).kindOf d name =
        (m.classifier language.allowsMarkup false ds).kindOf d name :=
    fun name hname => Classifier.kindOf_of_standsAlone rfl rfl hd hname
  simp only [ofDeclaration, Option.any_some, hl, Option.getD_none]
  rcases mint_cases_of_isDirect hd he hx with ⟨-, name, -, rfl⟩ | h
  · refine ⟨name, rfl, ?_⟩
    have hnamed := hkind name hv
    simp only [entity, Bool.false_eq_true, if_false, hnamed]
  · refine ⟨m.defaultName d.declaredName, h.id rfl, ?_⟩
    rw [if_pos h.isDefault, h.kind]
    simp only [Classifier.defaultIdentity]
    rw [hkind]
    · rfl
    · rwa [valueUnder?_of_default hd hx h.isDefault _ x.rawName]

end Module

namespace Engine

/-- Generated from a direct export alone, where its value stands alone, the id is that of the
entity that the declaration mints among all declarations of its file. -/
theorem generate_of_direct {e : Engine} {p : String} {language : Language} {d : Declaration}
    {ds : List Declaration} {x : Entity} (hl : Language.ofPath ⟨p⟩ = .ok language)
    (hs : language.isComponentFile = false) (hp : Path.slashed ⟨p⟩ = p)
    (hd : d.isDirect = true) (he : d.isExported = true)
    (hx : x ∈ Module.mint ⟨p, e.resolve⟩
      (Module.classifier ⟨p, e.resolve⟩ language.allowsMarkup false ds) d)
    (hv : ∀ shape, d.valueUnder? x.rawName = some shape → shape.standsAlone = true)
    (files : Files) :
    e.generate files ⟨p⟩ x.rawName x.isDefault (some d) none =
      (⟨x.id, x.kind, .declared⟩, e) := by
  obtain ⟨name, hid, hidentity⟩ := Module.ofDeclaration_of_mint hs hd he hx hv
  simp only [generate, hp, hl, Except.toOption, hidentity, Identity.resolved, Resolved.mint, hid]

/-- `export default defineComponent(Card);` -/
def cardExport : Declaration :=
  ⟨.default, ⟨2, 2⟩, "", .value (.call ⟨"defineComponent", some "Card", false⟩)⟩

def cardScript : List Declaration :=
  [⟨.unexported, ⟨1, 1⟩, "", .type "Card" .interface⟩, cardExport]

/-- The call is a component for the file, where its argument names an interface, and for the
declaration alone, which does not know the argument. -/
theorem generate_of_cardExport :
    ∃ x ∈ Module.mint ⟨"src/card/index.tsx", {}⟩
        (Module.classifier ⟨"src/card/index.tsx", {}⟩ true false cardScript) cardExport,
      x.id = "Component:Card" ∧
        ((Engine.ofSettings {}).generate ({} : MemoryFiles).view ⟨"src/card/index.tsx"⟩ x.rawName
          x.isDefault (some cardExport) none).1 = ⟨x.id, .component, .declared⟩ := by
  obtain ⟨x, hx, hfacts⟩ : ∃ x ∈ Module.mint ⟨"src/card/index.tsx", {}⟩
      (Module.classifier ⟨"src/card/index.tsx", {}⟩ true false cardScript) cardExport,
      (x.id, x.kind) = ("Component:Card", .component) :=
    List.mem_map.mp (by decide +kernel)
  obtain ⟨hid, hkind⟩ := Prod.mk.inj hfacts
  have hl : Language.ofPath ⟨"src/card/index.tsx"⟩ = .ok .tsx := by decide +kernel
  have hv : ∀ shape, cardExport.valueUnder? x.rawName = some shape → shape.standsAlone = true := by
    intro shape hs
    obtain rfl := Option.some.inj hs
    decide
  have hgenerate := generate_of_direct (e := Engine.ofSettings {}) hl rfl (by decide +kernel)
    (d := cardExport) rfl rfl hx hv ({} : MemoryFiles).view
  exact ⟨x, hx, hid, by rw [hgenerate, hkind]⟩

end Engine

end Exports
