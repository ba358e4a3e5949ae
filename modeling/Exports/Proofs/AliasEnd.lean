import Exports.Proofs.Alias

namespace Exports

/-- Some declaration binds the name. -/
def Declaration.Bound (ds : List Declaration) (name : String) : Prop :=
  ∃ d ∈ ds, d.binds name = true

instance (ds : List Declaration) (name : String) : Decidable (Declaration.Bound ds name) :=
  inferInstanceAs (Decidable (∃ d ∈ ds, d.binds name = true))

theorem Declaration.bound_iff {ds : List Declaration} {name : String} :
    Bound ds name ↔ ∃ d, ds.find? (·.binds name) = some d := by
  rw [← Option.isSome_iff_exists, List.find?_isSome, Bound]

namespace Classifier

open Declaration (Bound bound_iff)

variable {c : Classifier} {name target last : String} {d : Declaration} {n : Nat}

/-- A chain of aliases comes, after at most so many, to a name that stands for no other. The
declaration is the first that binds this name. -/
inductive EndsAt (c : Classifier) : Nat → String → String → Declaration → Prop
  | own {reach name d} : c.alias? name = none → c.declarations.find? (·.binds name) = some d →
      EndsAt c reach name name d
  | step {reach name target last d} : c.alias? name = some target →
      EndsAt c reach target last d → EndsAt c (reach + 1) name last d

/-- A chain of aliases comes, after at most so many, to a name that the file does not bind. -/
def Leaves (c : Classifier) (reach : Nat) (name : String) : Prop :=
  ∃ steps ≤ reach, ∃ last, c.follow steps name = some last ∧ ¬ Bound c.declarations last

/-- A chain of aliases comes to some name twice. -/
def Circles (c : Classifier) (name : String) : Prop :=
  ∃ i j last, i < j ∧ c.follow i name = some last ∧ c.follow j name = some last

theorem bound_of_alias (h : c.alias? name = some target) : Bound c.declarations name := by
  obtain ⟨d, hd, -⟩ := Option.bind_eq_some_iff.mp h
  exact bound_iff.mpr ⟨d, hd⟩

theorem localKind_eq_kindWithin {depth : Nat} (h : depth ≤ aliasLimit) (name : String) :
    c.localKind name depth = c.kindWithin (aliasLimit - depth + 1) name := by
  rw [localKind, Nat.sub_add_comm h]

theorem kindWithin_eq_none_iff (c : Classifier) (n : Nat) (name : String) :
    c.kindWithin (n + 1) name = none ↔ ¬ Bound c.declarations name := by
  rw [← Option.not_isSome_iff_eq_none, kindWithin_isSome, List.find?_isSome, Bound]

/-- A name has the kind of the name that its chain ends at. -/
theorem kindWithin_of_endsAt (h : c.EndsAt n name last d) :
    c.kindWithin (n + 1) name = some (c.kindOf d last) := by
  induction h with
  | own ha hd => rw [kindWithin, hd, Option.map_some, kindVia_of_own ha hd, kindOf]
  | step ha _ ih => rw [kindWithin_succ_of_alias ha, ih, Option.getD_some]

theorem endsAt_of_own (ha : c.alias? name = none) :
    (∃ last d, c.EndsAt n name last d) ↔ Bound c.declarations name := by
  constructor
  · rintro ⟨last, d, he⟩
    cases he with
    | own _ hd => exact bound_iff.mpr ⟨d, hd⟩
    | step hs _ => simp [ha] at hs
  · intro hb
    obtain ⟨d, hd⟩ := bound_iff.mp hb
    exact ⟨name, d, .own ha hd⟩

theorem endsAt_of_alias (ha : c.alias? name = some target) :
    c.EndsAt (n + 1) name last d ↔ c.EndsAt n target last d := by
  constructor
  · intro he
    cases he with
    | own hn _ => simp [ha] at hn
    | step hs ht =>
      rw [ha, Option.some_inj] at hs
      exact hs ▸ ht
  · exact .step ha

theorem not_endsAt_zero (ha : c.alias? name = some target) : ¬ c.EndsAt 0 name last d := by
  intro he
  cases he with
  | own hn _ => simp [ha] at hn

theorem exists_alias_of_endless (hb : Bound c.declarations name)
    (h : ∀ last d, ¬ c.EndsAt n name last d) : ∃ target, c.alias? name = some target := by
  apply Option.ne_none_iff_exists'.mp
  intro ha
  obtain ⟨last, d, he⟩ := (endsAt_of_own (n := n) ha).mpr hb
  exact h last d he

/-- A name that the file binds is a variable if its chain has no end in reach. -/
theorem kindWithin_of_endless (hb : Bound c.declarations name)
    (h : ∀ last d, ¬ c.EndsAt n name last d) : c.kindWithin (n + 1) name = some .binding := by
  induction n generalizing name with
  | zero =>
    obtain ⟨target, ha⟩ := exists_alias_of_endless hb h
    exact kindWithin_succ_of_alias ha 0
  | succ n ih =>
    obtain ⟨target, ha⟩ := exists_alias_of_endless hb h
    rw [kindWithin_succ_of_alias ha]
    by_cases ht : Bound c.declarations target
    · rw [ih ht fun last d he => h last d (.step ha he), Option.getD_some]
    · rw [(c.kindWithin_eq_none_iff n target).mpr ht, Option.getD_none]

theorem leaves_of_own (ha : c.alias? name = none) :
    c.Leaves n name ↔ ¬ Bound c.declarations name := by
  constructor
  · rintro ⟨steps, -, last, hf, hb⟩
    cases steps with
    | zero =>
      cases hf
      exact hb
    | succ steps => simp [follow, ha] at hf
  · intro hb
    exact ⟨0, Nat.zero_le n, name, rfl, hb⟩

theorem leaves_of_alias (ha : c.alias? name = some target) :
    c.Leaves (n + 1) name ↔ c.Leaves n target := by
  constructor
  · rintro ⟨steps, hs, last, hf, hb⟩
    cases steps with
    | zero =>
      cases hf
      exact absurd (bound_of_alias ha) hb
    | succ steps =>
      rw [follow, ha, Option.bind_some] at hf
      exact ⟨steps, Nat.le_of_succ_le_succ hs, last, hf, hb⟩
  · rintro ⟨steps, hs, last, hf, hb⟩
    exact ⟨steps + 1, Nat.succ_le_succ hs, last, by rw [follow, ha]; exact hf, hb⟩

theorem endless_iff_of_own (ha : c.alias? name = none) :
    (∀ last d, ¬ c.EndsAt n name last d) ↔
      c.Leaves n name ∨ (c.follow (n + 1) name).isSome := by
  have hstop : c.follow (n + 1) name = none := by simp [follow, ha]
  simp [leaves_of_own ha, hstop, ← endsAt_of_own (n := n) ha]

/-- A chain without an end in reach leaves the file or goes on. -/
theorem endless_iff (c : Classifier) (n : Nat) (name : String) :
    (∀ last d, ¬ c.EndsAt n name last d) ↔
      c.Leaves n name ∨ (c.follow (n + 1) name).isSome := by
  induction n generalizing name with
  | zero =>
    cases ha : c.alias? name with
    | none => exact endless_iff_of_own ha
    | some target =>
      refine iff_of_true (fun last d => not_endsAt_zero ha) (.inr ?_)
      simp [follow, ha]
  | succ n ih =>
    cases ha : c.alias? name with
    | none => exact endless_iff_of_own ha
    | some target =>
      have hnext : c.follow (n + 1 + 1) name = c.follow (n + 1) target := by
        rw [follow, ha, Option.bind_some]
      simp only [endsAt_of_alias ha, leaves_of_alias ha, hnext, ih]

theorem follow_add (c : Classifier) (i j : Nat) (name : String) :
    c.follow (i + j) name = (c.follow i name).bind (c.follow j) := by
  induction i generalizing name with
  | zero => simp [follow]
  | succ i ih =>
    rw [Nat.succ_add, follow, follow, Option.bind_assoc]
    exact congrArg _ (funext ih)

theorem isSome_follow_of_le {i j : Nat} (h : i ≤ j) (hs : (c.follow j name).isSome) :
    (c.follow i name).isSome := by
  obtain ⟨k, rfl⟩ := Nat.exists_eq_add_of_le h
  rw [follow_add] at hs
  exact Option.isSome_of_isSome_bind hs

/-- A chain that comes to some name twice goes on for ever. -/
theorem isSome_follow_of_circles (h : c.Circles name) (n : Nat) :
    (c.follow n name).isSome := by
  obtain ⟨i, j, last, hij, hi, hj⟩ := h
  -- One round leads from the name back to it, so any number of rounds does.
  have hround : c.follow (j - i) last = some last := by
    rwa [← Nat.add_sub_of_le (Nat.le_of_lt hij), follow_add, hi, Option.bind_some] at hj
  have hrounds : ∀ k, c.follow (i + k * (j - i)) name = some last := by
    intro k
    induction k with
    | zero => simpa using hi
    | succ k ih => rw [Nat.succ_mul, ← Nat.add_assoc, follow_add, ih, Option.bind_some, hround]
  have hfar : n ≤ i + n * (j - i) := by
    have := Nat.le_mul_of_pos_right n (Nat.sub_pos_of_lt hij)
    omega
  apply isSome_follow_of_le hfar
  rw [hrounds]
  rfl

/-- The kind of a name of the file, after so many names were followed to reach it. There is none if
too many were followed or the file does not bind the name. A name whose chain ends in reach has the
kind that the declaration at the end has under its own name; every other is a variable, and these
are the names whose chain leaves the file or is longer than the reach. A chain that goes in a circle
is longer than every reach. -/
theorem localKind_of_chain (c : Classifier) (name : String) (depth : Nat) :
    (c.localKind name depth = none ↔ aliasLimit < depth ∨ ¬ Bound c.declarations name) ∧
      (depth ≤ aliasLimit → Bound c.declarations name →
        (∀ last d, c.EndsAt (aliasLimit - depth) name last d →
          c.localKind name depth = some (c.kindOf d last)) ∧
        ((∀ last d, ¬ c.EndsAt (aliasLimit - depth) name last d) →
          c.localKind name depth = some .binding)) ∧
      ((∀ last d, ¬ c.EndsAt (aliasLimit - depth) name last d) ↔
        c.Leaves (aliasLimit - depth) name ∨ (c.follow (aliasLimit - depth + 1) name).isSome) ∧
      (c.Circles name → (c.follow (aliasLimit - depth + 1) name).isSome) := by
  refine ⟨?_, ?_, c.endless_iff _ name, fun h => isSome_follow_of_circles h _⟩
  · rcases Nat.lt_or_ge aliasLimit depth with h | h
    · rw [localKind, Nat.sub_eq_zero_of_le h]
      exact iff_of_true rfl (.inl h)
    · rw [localKind_eq_kindWithin h, kindWithin_eq_none_iff, or_iff_right (Nat.not_lt.mpr h)]
  · intro h hb
    rw [localKind_eq_kindWithin h]
    exact ⟨fun last d => kindWithin_of_endsAt, kindWithin_of_endless hb⟩

/-- `const a = b; const b = a; const load = read; function read() …` -/
def aliasFile : Classifier where
  declarations :=
    [⟨.unexported, ⟨1, 1⟩, "", .variables [⟨"a", .name "b"⟩]⟩,
      ⟨.unexported, ⟨2, 2⟩, "", .variables [⟨"b", .name "a"⟩]⟩,
      ⟨.unexported, ⟨3, 3⟩, "", .variables [⟨"load", .name "read"⟩]⟩,
      ⟨.unexported, ⟨4, 4⟩, "", .function (some "read") false⟩]
  surroundings := ⟨false, false, []⟩
  path := "src/load.ts"

/-- The names of a circle are variables. The end of a chain counts if it is just in reach. -/
theorem localKind_of_circle :
    aliasFile.localKind "a" 0 = some .binding ∧ aliasFile.localKind "load" 7 = some .function ∧
      aliasFile.localKind "load" 8 = some .binding := by
  refine ⟨?_, ?_, ?_⟩
  · obtain ⟨-, hkind, hends, hcircle⟩ := localKind_of_chain aliasFile "a" 0
    have hround : aliasFile.Circles "a" := ⟨0, 2, "a", by decide, rfl, by decide⟩
    exact (hkind (by decide) (by decide)).2 (hends.mpr (.inr (hcircle hround)))
  · have hend : aliasFile.EndsAt 1 "load" "read" _ := .step (by decide) (.own (by decide) rfl)
    exact ((localKind_of_chain aliasFile "load" 7).2.1 (by decide) (by decide)).1 _ _ hend
  · obtain ⟨-, hkind, hends, -⟩ := localKind_of_chain aliasFile "load" 8
    exact (hkind (by decide) (by decide)).2 (hends.mpr (.inr (by decide)))

end Classifier

end Exports
