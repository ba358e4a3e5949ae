import Exports.Proofs.Mint

namespace Exports

theorem Kind.idFor_inj {kind kind' : Kind} {name name' : String} :
    kind.idFor name = kind'.idFor name' ↔ kind = kind' ∧ name = name' := by
  constructor
  · intro h
    have hr := congrArg Resolved.ofIndexed h
    rw [Resolved.ofIndexed_idFor, Resolved.ofIndexed_idFor] at hr
    obtain rfl : kind = kind' := congrArg Resolved.kind hr
    refine ⟨rfl, ?_⟩
    have ht := congrArg String.toList h
    simp only [idFor, String.toList_append, List.append_cancel_left_eq] at ht
    exact String.toList_inj.mp ht
  · rintro ⟨rfl, rfl⟩
    rfl

namespace Module

variable {m : Module} {markup : Bool} {ds : List Declaration} {x y : Entity}

/-- The name in the id of the default export, which depends on the declaration that exports it. -/
def defaultIdName? (m : Module) (ds : List Declaration) : Option String :=
  (ds.find? fun d => d.exportedNames.contains "default").map fun d => m.defaultName d.declaredName

theorem id_of_named (hx : x ∈ m.scriptEntities markup ds) (hn : x.isDefault = false) :
    x.id = x.kind.idFor x.rawName := by
  obtain ⟨name, hid, hname⟩ := (minted_of_mem hx).id
  rw [hid, hname hn]

theorem id_of_default (h : Declaration.WellScoped ds) (hx : x ∈ m.scriptEntities markup ds)
    (hdef : x.isDefault = true) :
    ∃ name, m.defaultIdName? ds = some name ∧ x.id = x.kind.idFor name := by
  obtain ⟨d, hd, he, hx⟩ := exists_declaration hx
  have hn := h.nodup hd
  have hexported : "default" ∈ d.exportedNames := by
    have hs := exportedAs_mem he hx
    rwa [Entity.exportedAs, if_pos hdef] at hs
  have hfind : ds.find? (fun d => d.exportedNames.contains "default") = some d := by
    apply find?_eq_some_of_unique hd (by simpa using hexported)
    intro d' hd' he'
    exact h.eq_of_mem hd' hd (by simpa using he') hexported
  refine ⟨m.defaultName d.declaredName, by rw [defaultIdName?, hfind, Option.map_some], ?_⟩
  rcases mint_cases he hn hx with ⟨-, name, -, rfl⟩ | hx | ⟨s, hs, hx⟩
  · cases hdef
  · exact hx.id rfl
  · obtain ⟨houter, hid⟩ := specifierEntity?_default hx hdef
    rw [Declaration.exportedNames_of_mem he hs] at hn
    rw [hid, Declaration.declaredName_of_mem hn hs houter]

/-- A named export has the kind of the default export, and the name of its id. -/
structure HasDefaultId (m : Module) (ds : List Declaration) (x d : Entity) : Prop where
  isDefault : d.isDefault = true
  isNamed : x.isDefault = false
  kind : x.kind = d.kind
  name : m.defaultIdName? ds = some x.rawName

theorem id_eq_default_iff (h : Declaration.WellScoped ds) (hx : x ∈ m.scriptEntities markup ds)
    (hy : y ∈ m.scriptEntities markup ds) (hn : x.isDefault = false)
    (hdef : y.isDefault = true) : x.id = y.id ↔ m.HasDefaultId ds x y := by
  obtain ⟨name, hname, hid⟩ := id_of_default h hy hdef
  rw [id_of_named hx hn, hid, Kind.idFor_inj]
  constructor
  · rintro ⟨hk, rfl⟩
    exact ⟨hdef, hn, hk, hname⟩
  · intro hd
    exact ⟨hd.kind, Option.some.inj (hd.name.symm.trans hname)⟩

/-- Two entities of a well-scoped script have one id exactly if one is the default export and the
other a named export of its kind, under the name that the module gives the default export. -/
theorem id_eq_iff (h : Declaration.WellScoped ds) (hx : x ∈ m.scriptEntities markup ds)
    (hy : y ∈ m.scriptEntities markup ds) (hne : x ≠ y) :
    x.id = y.id ↔ m.HasDefaultId ds x y ∨ m.HasDefaultId ds y x := by
  cases hxd : x.isDefault <;> cases hyd : y.isDefault
  · -- Two named exports of one id would be exported under one name.
    have hid : x.id ≠ y.id := by
      intro hid
      rw [id_of_named hx hxd, id_of_named hy hyd, Kind.idFor_inj] at hid
      exact hne (eq_of_exportedAs h hx hy (by simp [Entity.exportedAs, hxd, hyd, hid.2]))
    refine iff_of_false hid ?_
    rintro (hd | hd)
    · simp [hd.isDefault] at hyd
    · simp [hd.isDefault] at hxd
  · rw [id_eq_default_iff h hx hy hxd hyd, or_iff_left]
    intro hd
    simp [hd.isDefault] at hxd
  · rw [eq_comm, id_eq_default_iff h hy hx hyd hxd, or_iff_right]
    intro hd
    simp [hd.isDefault] at hyd
  · exact absurd (eq_of_exportedAs h hx hy (by simp [Entity.exportedAs, hxd, hyd])) hne

def userModule : Module := ⟨"src/user.ts", {}⟩

/-- `export default function load() {}` -/
def defaultLoad : Declaration := ⟨.default, ⟨1, 1⟩, "", .function (some "load") false⟩

/-- `export const user = 1;` -/
def constantUser : Declaration := ⟨.named, ⟨2, 2⟩, "", .variables [⟨"user", .literal⟩]⟩

def functionUser : Declaration := ⟨.named, ⟨2, 2⟩, "", .function (some "user") false⟩

/-- What `defaultLoad` gives in `src/user.ts`. -/
def defaultUser : Entity :=
  { id := "Function:user", kind := .function, file := "src/user.ts", span := ⟨1, 1⟩
    rawName := "load", isDefault := true }

def namedUser (kind : Kind) : Entity :=
  { id := kind.idFor "user", kind, file := "src/user.ts", span := ⟨2, 2⟩, rawName := "user" }

/-- A constant under the name of the module has an id of its own, since it is of another kind. -/
theorem id_of_constant_differs :
    userModule.defaultIdName? [defaultLoad, constantUser] = some (namedUser .binding).rawName ∧
      defaultUser.id ≠ (namedUser .binding).id := by
  have hscoped : Declaration.WellScoped [defaultLoad, constantUser] := by decide
  have hdefault : defaultUser ∈ userModule.scriptEntities false [defaultLoad, constantUser] := by
    decide +kernel
  have hnamed : namedUser .binding ∈
      userModule.scriptEntities false [defaultLoad, constantUser] := by
    decide +kernel
  refine ⟨by decide +kernel, fun hid => ?_⟩
  rcases (id_eq_iff hscoped hdefault hnamed (by decide)).mp hid with hd | hd
  · cases hd.isDefault
  · cases hd.kind

/-- Two functions share one id: the default export, which goes by the name of the module, and the
one that has this name. -/
theorem id_of_namesake_same :
    Declaration.WellScoped [defaultLoad, functionUser] ∧
      userModule.mint (userModule.classifier false false [defaultLoad, functionUser])
        defaultLoad = [defaultUser] ∧
      userModule.mint (userModule.classifier false false [defaultLoad, functionUser])
        functionUser = [namedUser .function] ∧
      defaultUser ≠ namedUser .function ∧ defaultUser.id = (namedUser .function).id := by
  decide +kernel

end Module

end Exports
