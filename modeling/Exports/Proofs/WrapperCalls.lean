import Exports.Proofs.AliasEnd
import Exports.Proofs.Mint

namespace Exports

/-- A call of `defineComponent` wraps nothing. -/
theorem Naming.isComponentWrapper_of_isDefineComponent {callee : String}
    (h : isDefineComponent callee = true) : isComponentWrapper callee = false := by
  have hlast : Text.lastPiece '.' callee = "defineComponent" := by
    rw [isDefineComponent, Bool.or_eq_true, decide_eq_true_eq] at h
    rcases h with rfl | h
    · decide
    · obtain ⟨front, hf⟩ := List.isSuffixOf_iff_suffix.mp h
      obtain rfl : callee = String.ofList front ++ String.singleton '.' ++ "defineComponent" := by
        simp [← String.toList_inj, ← hf]
      have hpiece : Text.split '.' "defineComponent" = ["defineComponent"] := by decide
      rw [Text.lastPiece, Text.split_append, hpiece, List.getLastD_concat]
  rw [isComponentWrapper, hlast]
  decide

namespace Classifier

open Declaration (Bound)

variable {c : Classifier} {m : Module} {d d' : Declaration} {name : String} {facts : CallFacts}
  {known : String → Option Kind} {x y : Entity}

def toldKind? (c : Classifier) (known : String → Option Kind) (facts : CallFacts) : Option Kind :=
  if c.surroundings.markup && facts.buildsMarkup then some .component
  else if Naming.isComponentWrapper facts.callee then facts.firstName.bind known
  else none

/-- Markup is built, or a wrapper is given a name that the file binds. -/
def Tells (c : Classifier) (facts : CallFacts) : Prop :=
  (c.surroundings.markup && facts.buildsMarkup) = true ∨
    Naming.isComponentWrapper facts.callee = true ∧
      ∃ wrapped, facts.firstName = some wrapped ∧ Bound c.declarations wrapped

theorem bindingKind_of_call (hn : Naming.isConstant name = false) :
    c.bindingKind known ⟨name, .call facts⟩ = (c.toldKind? known facts).getD .binding := by
  simp only [bindingKind, toldKind?, hn, Bool.false_eq_true, if_false]
  split
  · rfl
  · split <;> rfl

theorem valueKind_of_call
    (h : Naming.isComponentWrapper facts.callee = true ∨
      Naming.isDefineComponent facts.callee = true) :
    c.valueKind known name (.call facts) = (c.toldKind? known facts).getD .component := by
  cases hd : Naming.isDefineComponent facts.callee with
  | true =>
    have hw := Naming.isComponentWrapper_of_isDefineComponent hd
    simp only [valueKind, toldKind?, hd, hw, if_true, Bool.false_eq_true, if_false]
    split <;> rfl
  | false =>
    have hw : Naming.isComponentWrapper facts.callee = true := by simpa [hd] using h
    simp only [valueKind, toldKind?, hd, hw, if_true, Bool.false_eq_true, if_false]
    split <;> rfl

theorem isSome_toldKind?_iff (c : Classifier) (facts : CallFacts) :
    (c.toldKind? (c.kindWithin aliasLimit) facts).isSome ↔ c.Tells facts := by
  unfold toldKind? Tells
  split
  · rename_i hm
    exact iff_of_true rfl (.inl hm)
  · rename_i hm
    rw [or_iff_right hm]
    split
    · rename_i hw
      rw [and_iff_right hw]
      cases facts.firstName with
      | none => simp
      | some wrapped =>
        have hnone : c.kindWithin aliasLimit wrapped = none ↔ ¬ Bound c.declarations wrapped :=
          c.kindWithin_eq_none_iff (aliasLimit - 1) wrapped
        simp [← Option.ne_none_iff_isSome, hnone]
    · rename_i hw
      exact iff_of_false (by simp) fun h => hw h.1

theorem kindOf_of_call (hb : d.body = .variables [⟨name, .call facts⟩])
    (hn : Naming.isConstant name = false) :
    c.kindOf d name = (c.toldKind? (c.kindWithin aliasLimit) facts).getD .binding := by
  simp [kindOf, kindVia, hb, bindingKind_of_call hn]

theorem defaultIdentity_of_call (hb : d.body = .value (.call facts))
    (h : Naming.isComponentWrapper facts.callee = true ∨
      Naming.isDefineComponent facts.callee = true) (entries : List String) :
    (c.defaultIdentity entries d).1 =
      (c.toldKind? (c.kindWithin aliasLimit) facts).getD .component := by
  simp only [defaultIdentity, kindOf, kindVia, hb, valueKind_of_call h]

/-- A variable whose value is the call of a wrapper, or of `defineComponent`, has the kind of the
default export of the same call exactly if the call tells the kind. Otherwise the default export is
a component and the variable is not. -/
theorem call_kind_iff (hb : d.body = .variables [⟨name, .call facts⟩])
    (hb' : d'.body = .value (.call facts)) (hn : Naming.isConstant name = false)
    (h : Naming.isComponentWrapper facts.callee = true ∨
      Naming.isDefineComponent facts.callee = true)
    (hx : x ∈ m.mint c d) (hy : y ∈ m.mint c d') :
    (x.kind = y.kind ↔ c.Tells facts) ∧
      (¬ c.Tells facts → x.kind = .binding ∧ y.kind = .component) := by
  have hkind : x.kind = (c.toldKind? (c.kindWithin aliasLimit) facts).getD .binding := by
    rw [Module.mint, hb] at hx
    obtain rfl := List.mem_singleton.mp hx
    exact kindOf_of_call hb hn
  have hkind' : y.kind = (c.toldKind? (c.kindWithin aliasLimit) facts).getD .component := by
    rw [Module.mint, hb'] at hy
    obtain rfl := List.mem_singleton.mp hy
    exact defaultIdentity_of_call hb' h _
  rw [hkind, hkind', ← isSome_toldKind?_iff]
  cases c.toldKind? (c.kindWithin aliasLimit) facts <;> simp

/-- `export const Panel = memo(Card);` or with another callee -/
def panelBinding (callee : String) : Declaration :=
  ⟨.named, ⟨1, 1⟩, "", .variables [⟨"Panel", .call ⟨callee, some "Card", false⟩⟩]⟩

def panelDefault (callee : String) : Declaration :=
  ⟨.default, ⟨2, 2⟩, "", .value (.call ⟨callee, some "Card", false⟩)⟩

def panelModule : Module := ⟨"src/Panel.tsx", { entryFiles := ["index.ts"] }⟩

/-- `src/Panel.tsx` with the two calls, after other declarations. -/
def panelFile (ds : List Declaration) (callee : String) : Classifier :=
  panelModule.classifier true false (ds ++ [panelBinding callee, panelDefault callee])

/-- `function Card() { return <div/>; }` -/
def cardFunction : Declaration := ⟨.unexported, ⟨3, 3⟩, "", .function (some "Card") true⟩

/-- Where the file has the function that is wrapped, the variable is a component too. -/
theorem call_kind_of_bound :
    ∃ x ∈ panelModule.mint (panelFile [cardFunction] "React.memo") (panelBinding "React.memo"),
      ∃ y ∈ panelModule.mint (panelFile [cardFunction] "React.memo") (panelDefault "React.memo"),
        x.kind = y.kind ∧ y.kind = .component := by
  have htells : (panelFile [cardFunction] "React.memo").Tells ⟨"React.memo", some "Card", false⟩ :=
    .inr ⟨by decide, "Card", rfl, cardFunction, by decide, by decide⟩
  obtain ⟨x, hx⟩ : ∃ x, x ∈ panelModule.mint (panelFile [cardFunction] "React.memo")
      (panelBinding "React.memo") := ⟨_, List.mem_singleton_self _⟩
  obtain ⟨y, hy, hkind⟩ : ∃ y ∈ panelModule.mint (panelFile [cardFunction] "React.memo")
      (panelDefault "React.memo"), y.kind = .component :=
    ⟨_, List.mem_singleton_self _, by decide +kernel⟩
  refine ⟨x, hx, y, hy, ?_, hkind⟩
  exact (call_kind_iff rfl rfl (by decide) (.inl (by decide)) hx hy).1.mpr htells

/-- Where it has not, or for a call of `defineComponent`, it is none. -/
theorem call_kind_of_unbound :
    Naming.isConstant "Panel" = false ∧ Naming.isComponentWrapper "memo" = true ∧
      (panelModule.scriptEntities true [panelBinding "memo", panelDefault "memo"]).map
        (fun x => (x.kind, x.isDefault)) = [(.binding, false), (.component, true)] ∧
      Naming.isDefineComponent "defineComponent" = true ∧
      (panelModule.scriptEntities true
        [cardFunction, panelBinding "defineComponent", panelDefault "defineComponent"]).map
        (fun x => (x.kind, x.isDefault)) = [(.binding, false), (.component, true)] := by
  decide +kernel

end Classifier

end Exports
