import Exports.Classifier

namespace Exports.Classifier

variable {c : Classifier} {name target : String} {n : Nat}

/-- The name that a variable has its kind from. -/
def standsFor? (c : Classifier) (b : Binding) : Option String :=
  if Naming.isConstant b.name then none
  else match b.value with
    | .name target => some target
    | .call facts =>
      if c.surroundings.markup && facts.buildsMarkup then none
      else if Naming.isComponentWrapper facts.callee then facts.firstName
      else none
    | _ => none

/-- The name that a name of the file has its kind from, if it stands for another. -/
def alias? (c : Classifier) (name : String) : Option String :=
  (c.declarations.find? (·.binds name)).bind fun d =>
    match d.body with
    | .variables bindings => (bindings.find? (·.name = name)).bind c.standsFor?
    | _ => none

/-- The name that is come to after so many aliases. -/
def follow (c : Classifier) : Nat → String → Option String
  | 0, name => some name
  | n + 1, name => (c.alias? name).bind (c.follow n)

theorem bindingKind_of_standsFor {b : Binding} (h : c.standsFor? b = some target)
    (known : String → Option Kind) :
    c.bindingKind known b = (known target).getD .binding := by
  unfold standsFor? at h
  unfold bindingKind
  split at h
  · cases h
  · rename_i hb
    rw [if_neg hb]
    cases hv : b.value with
    | name t =>
      rw [hv] at h
      cases h
      rfl
    | call facts =>
      simp only [hv] at h ⊢
      split at h
      · cases h
      · rename_i hm
        rw [if_neg hm]
        split at h
        · rename_i hw
          rw [if_pos hw, h, Option.bind_some]
        · cases h
    | absent | literal | object | array | function | classLike | other =>
      rw [hv] at h
      cases h

theorem bindingKind_of_own {b : Binding} (h : c.standsFor? b = none)
    (known known' : String → Option Kind) : c.bindingKind known b = c.bindingKind known' b := by
  unfold standsFor? at h
  unfold bindingKind
  split at h
  · rename_i hb
    rw [if_pos hb, if_pos hb]
  · rename_i hb
    rw [if_neg hb, if_neg hb]
    cases hv : b.value with
    | name t =>
      rw [hv] at h
      cases h
    | call facts =>
      simp only [hv] at h ⊢
      split at h
      · rename_i hm
        rw [if_pos hm, if_pos hm]
      · rename_i hm
        rw [if_neg hm, if_neg hm]
        split at h
        · rw [h, Option.bind_none, Option.bind_none]
        · rename_i hw
          rw [if_neg hw, if_neg hw]
    | absent | literal | object | array | function | classLike | other => rfl

theorem find?_of_binds {d : Declaration} {bindings : List Binding} (hd : d.binds name = true)
    (hb : d.body = .variables bindings) :
    ∃ b, bindings.find? (·.name = name) = some b := by
  rw [Declaration.binds, hb] at hd
  cases hf : bindings.find? (·.name = name) with
  | some b => exact ⟨b, rfl⟩
  | none =>
    obtain ⟨b, hm, hn⟩ := List.any_eq_true.mp hd
    exact absurd hn (List.find?_eq_none.mp hf b hm)

theorem kindWithin_succ_of_alias (h : c.alias? name = some target) (n : Nat) :
    c.kindWithin (n + 1) name = some ((c.kindWithin n target).getD .binding) := by
  obtain ⟨d, hd, h⟩ := Option.bind_eq_some_iff.mp h
  split at h
  · rename_i bindings hb
    obtain ⟨b, hf, hs⟩ := Option.bind_eq_some_iff.mp h
    simp only [kindWithin, hd, Option.map_some, kindVia, hb, hf, Option.some_or]
    rw [bindingKind_of_standsFor hs]
  · cases h

theorem kindVia_of_own {d : Declaration} (h : c.alias? name = none)
    (hd : c.declarations.find? (·.binds name) = some d) (known known' : String → Option Kind) :
    c.kindVia known d name = c.kindVia known' d name := by
  have hbinds : d.binds name = true := by simpa using List.find?_some hd
  rw [alias?, hd, Option.bind_some] at h
  unfold kindVia
  match hb : d.body with
  | .variables bindings =>
    obtain ⟨b, hf⟩ := find?_of_binds hbinds hb
    simp only [hb, hf, Option.bind_some] at h
    simp only [hf, Option.some_or]
    exact bindingKind_of_own h _ _
  | .function _ _ | .classDecl _ _ | .type _ _ | .defineComponent => rfl
  | .value _ | .clause _ => simp [Declaration.binds, hb] at hbinds

theorem kindWithin_succ_of_own (h : c.alias? name = none) (n : Nat) :
    c.kindWithin (n + 1) name = c.kindWithin 1 name := by
  simp only [kindWithin]
  cases hd : c.declarations.find? (·.binds name) with
  | none => rfl
  | some d => rw [Option.map_some, Option.map_some, kindVia_of_own h hd]

theorem kindWithin_isSome (c : Classifier) (n : Nat) (name : String) :
    (c.kindWithin (n + 1) name).isSome = (c.declarations.find? (·.binds name)).isSome := by
  rw [kindWithin, Option.isSome_map]

/-- The first name that is out of reach has a kind of its own, and is no variable. -/
def OutOfReach (c : Classifier) (reach : Nat) (name : String) : Prop :=
  ((c.follow reach name).bind (c.kindWithin 1)).getD .binding ≠ .binding

instance (c : Classifier) (reach : Nat) (name : String) : Decidable (c.OutOfReach reach name) :=
  inferInstanceAs (Decidable (_ ≠ _))

theorem not_outOfReach_of_own (h : c.alias? name = none) (n : Nat) :
    ¬ c.OutOfReach (n + 1) name := by
  simp [OutOfReach, follow, h]

theorem outOfReach_of_alias (h : c.alias? name = some target) (n : Nat) :
    c.OutOfReach (n + 1) name ↔ c.OutOfReach n target := by
  simp [OutOfReach, follow, h]

/-- One more step of reach changes the kind of a name exactly if the name that it comes to is
the end of the chain, and no variable. -/
theorem kindWithin_succ_eq_iff (c : Classifier) (n : Nat) (name : String) :
    c.kindWithin (n + 2) name = c.kindWithin (n + 1) name ↔ ¬ c.OutOfReach (n + 1) name := by
  induction n generalizing name with
  | zero =>
    cases ha : c.alias? name with
    | none =>
      exact iff_of_true (kindWithin_succ_of_own ha 1) (not_outOfReach_of_own ha 0)
    | some target =>
      rw [kindWithin_succ_of_alias ha, kindWithin_succ_of_alias ha, outOfReach_of_alias ha,
        Option.some_inj, OutOfReach, Decidable.not_not]
      rfl
  | succ n ih =>
    cases ha : c.alias? name with
    | none =>
      have hlong := kindWithin_succ_of_own ha (n + 2)
      have hshort := kindWithin_succ_of_own ha (n + 1)
      exact iff_of_true (hlong.trans hshort.symm) (not_outOfReach_of_own ha (n + 1))
    | some target =>
      rw [kindWithin_succ_of_alias ha, kindWithin_succ_of_alias ha, outOfReach_of_alias ha, ← ih,
        Option.some_inj]
      have hsome : (c.kindWithin (n + 2) target).isSome = (c.kindWithin (n + 1) target).isSome := by
        rw [kindWithin_isSome, kindWithin_isSome]
      -- Both kinds are there or none is, so the default does not hide a difference.
      revert hsome
      cases c.kindWithin (n + 2) target <;> cases c.kindWithin (n + 1) target <;> simp

theorem getD_kindWithin_succ_eq_iff {kind : Kind} (h : c.kindWithin (n + 2) name = some kind)
    (fallback : Kind) :
    (c.kindWithin (n + 1) name).getD fallback = kind ↔ ¬ c.OutOfReach (n + 1) name := by
  have hiff := c.kindWithin_succ_eq_iff n name
  have hsome : (c.kindWithin (n + 1) name).isSome = (c.kindWithin (n + 2) name).isSome := by
    rw [kindWithin_isSome, kindWithin_isSome]
  rw [h] at hsome hiff
  rw [← hiff]
  cases hk : c.kindWithin (n + 1) name with
  | none => simp [hk] at hsome
  | some short => simp [eq_comm]

/-- What the kind of a name is one step short of its full reach. -/
theorem getD_kindWithin_eq_iff {kind : Kind} (h : c.localKind name 0 = some kind)
    (fallback : Kind) :
    (c.kindWithin aliasLimit name).getD fallback = kind ↔ ¬ c.OutOfReach aliasLimit name :=
  getD_kindWithin_succ_eq_iff h fallback

section Place

variable {c' : Classifier}

theorem kindVia_congr (hs : c.surroundings = c'.surroundings) {d : Declaration}
    (hd : d.binds name = true) (known : String → Option Kind) :
    c.kindVia known d name = c'.kindVia known d name := by
  unfold kindVia
  match hb : d.body with
  | .function _ _ | .classDecl _ _ | .type _ _ | .variables _ | .defineComponent =>
    simp only [callableKind, classKind, bindingKind, hs]
  | .value _ | .clause _ => simp [Declaration.binds, hb] at hd

/-- Of the declarations, only the first that binds a name matters to the kind of the name. -/
theorem kindWithin_of_find?
    (hf : ∀ name, c.declarations.find? (·.binds name) = c'.declarations.find? (·.binds name))
    (hs : c.surroundings = c'.surroundings) (n : Nat) (name : String) :
    c.kindWithin n name = c'.kindWithin n name := by
  induction n generalizing name with
  | zero => rfl
  | succ n ih =>
    have hknown : c.kindWithin n = c'.kindWithin n := funext ih
    simp only [kindWithin, hf, hknown]
    cases hd : c'.declarations.find? (·.binds name) with
    | none => rfl
    | some d =>
      have hbinds : d.binds name = true := by simpa using List.find?_some hd
      simp only [Option.map_some, kindVia_congr hs hbinds]

theorem kindWithin_congr (hd : c.declarations = c'.declarations)
    (hs : c.surroundings = c'.surroundings) (n : Nat) (name : String) :
    c.kindWithin n name = c'.kindWithin n name :=
  kindWithin_of_find? (fun _ => by rw [hd]) hs n name

theorem kindOf_congr (hd : c.declarations = c'.declarations)
    (hs : c.surroundings = c'.surroundings) {d : Declaration} (hb : d.binds name = true) :
    c.kindOf d name = c'.kindOf d name := by
  have hknown : c.kindWithin aliasLimit = c'.kindWithin aliasLimit :=
    funext (kindWithin_congr hd hs aliasLimit)
  rw [kindOf, hknown, kindVia_congr hs hb, kindOf]

end Place

end Exports.Classifier
