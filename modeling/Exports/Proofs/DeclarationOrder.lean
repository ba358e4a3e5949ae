import Exports.Proofs.Mint
import Mathlib.Data.List.Find
import Mathlib.Data.List.Perm.Basic

namespace Exports

namespace Declaration

variable {ds ds' : List Declaration}

/-- No name is bound by two different declarations. -/
def BoundOnce (ds : List Declaration) : Prop :=
  ∀ d ∈ ds, ∀ d' ∈ ds, ∀ name, d.binds name = true → d'.binds name = true → d = d'

instance (ds : List Declaration) : Decidable (BoundOnce ds) :=
  decidable_of_iff (∀ d ∈ ds, ∀ d' ∈ ds, ∀ name ∈ d.boundNames, d'.binds name = true → d = d')
    ⟨fun h d hd d' hd' name hb => h d hd d' hd' name (binds_iff_mem.mp hb),
      fun h d hd d' hd' name hm => h d hd d' hd' name (binds_iff_mem.mpr hm)⟩

theorem BoundOnce.find?_eq (h : BoundOnce ds) (hp : ds.Perm ds') (name : String) :
    ds.find? (·.binds name) = ds'.find? (·.binds name) := by
  apply List.find?_eq_find?_of_perm hp
  rintro d ⟨hd, hb⟩ d' ⟨hd', hb'⟩
  exact h d hd d' hd' name hb hb'

end Declaration

namespace Classifier

/-- The file stands in one place, and the first declaration that binds a name is the same. -/
structure SameBinders (c c' : Classifier) : Prop where
  path : c.path = c'.path
  surroundings : c.surroundings = c'.surroundings
  find? : ∀ name, c.declarations.find? (·.binds name) = c'.declarations.find? (·.binds name)

namespace SameBinders

variable {c c' : Classifier}

theorem kindWithin (h : c.SameBinders c') (n : Nat) : c.kindWithin n = c'.kindWithin n :=
  funext (kindWithin_of_find? h.find? h.surroundings n)

theorem localKind (h : c.SameBinders c') (name : String) (depth : Nat) :
    c.localKind name depth = c'.localKind name depth := by
  rw [Classifier.localKind, h.kindWithin, Classifier.localKind]

theorem kindOf (h : c.SameBinders c') (d : Declaration) (name : String) :
    c.kindOf d name = c'.kindOf d name := by
  rw [Classifier.kindOf, h.kindWithin, Classifier.kindOf]
  simp only [kindVia, valueKind, bindingKind, callableKind, classKind, fallback, h.path,
    h.surroundings]

theorem defaultIdentity (h : c.SameBinders c') (entries : List String) (d : Declaration) :
    c.defaultIdentity entries d = c'.defaultIdentity entries d := by
  rw [Classifier.defaultIdentity, h.path, h.kindOf, Classifier.defaultIdentity]

end SameBinders

end Classifier

namespace Module

variable {m : Module} {c c' : Classifier} {ds ds' : List Declaration}

/-- What a declaration mints depends on the others only by what they bind. -/
theorem mint_of_sameBinders (h : c.SameBinders c') (d : Declaration) :
    m.mint c d = m.mint c' d := by
  have hspecifier : m.specifierEntity? c d = m.specifierEntity? c' d := by
    funext s
    simp only [specifierEntity?, h.localKind]
  simp only [mint, callableEntities, h.kindOf, h.defaultIdentity, hspecifier]

theorem sameBinders_of_perm (h : Declaration.BoundOnce ds) (hp : ds.Perm ds') (m : Module)
    (markup componentFile : Bool) :
    (m.classifier markup componentFile ds).SameBinders (m.classifier markup componentFile ds') where
  path := rfl
  surroundings := rfl
  find? := h.find?_eq hp

/-- The entities of a script are the same in every order of its declarations, and so are those of
each declaration. -/
theorem scriptEntities_perm (m : Module) (markup : Bool) (h : Declaration.BoundOnce ds)
    (hp : ds.Perm ds') :
    (m.scriptEntities markup ds).Perm (m.scriptEntities markup ds') ∧
      ∀ d ∈ ds,
        m.mint (m.classifier markup false ds) d = m.mint (m.classifier markup false ds') d := by
  have hsame := sameBinders_of_perm h hp m markup false
  refine ⟨?_, fun d _ => mint_of_sameBinders hsame d⟩
  rw [scriptEntities, scriptEntities]
  apply (hp.filter (·.isExported)).flatMap
  intro d _
  rw [mint_of_sameBinders hsame]

/-- `export { Row }; const Row = memo(Cell); export function Cell() …` -/
def rowScript : List Declaration :=
  [⟨.named, ⟨1, 1⟩, "", .clause [⟨"Row", "Row"⟩]⟩,
    ⟨.unexported, ⟨2, 2⟩, "", .variables [⟨"Row", .call ⟨"memo", some "Cell", false⟩⟩]⟩,
    ⟨.named, ⟨3, 3⟩, "", .function (some "Cell") true⟩]

def rowModule : Module := ⟨"src/Row.tsx", {}⟩

/-- The clause finds the kind of `Row` where the function comes last and where it comes first. -/
theorem scriptEntities_reversed :
    (rowModule.scriptEntities true rowScript).Perm
        (rowModule.scriptEntities true rowScript.reverse) ∧
      (rowModule.scriptEntities true rowScript.reverse).map (·.id) =
        ["Component:Cell", "Component:Row"] := by
  have honce : Declaration.BoundOnce rowScript := by decide
  refine ⟨?_, by decide +kernel⟩
  exact (scriptEntities_perm rowModule true honce (List.reverse_perm rowScript).symm).1

end Module

end Exports
