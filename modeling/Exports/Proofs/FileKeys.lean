import Exports.Proofs.Path
import Mathlib.Data.List.Infix

namespace Exports

namespace Place

/-- What is left of a place below `base`, and all of it where it lies elsewhere. -/
def within (base place : Place) : Place := (below? base place).getD place

theorem within_append (base rest : Place) : within base (base ++ rest) = rest := by
  have h : base.isPrefixOf? (base ++ rest) = some rest :=
    List.isPrefixOf?_eq_some_iff_append_eq.mpr rfl
  rw [within, below?, h, Option.getD_some]

theorem within_of_outside {base place : Place} (h : ¬ base <+: place) :
    within base place = place := by
  cases hb : base.isPrefixOf? place with
  | none => rw [within, below?, hb, Option.getD_none]
  | some rest => exact absurd ⟨rest, List.isPrefixOf?_eq_some_iff_append_eq.mp hb⟩ h

theorem length_within (base place : Place) :
    (within base place).length = place.length ∨
      (within base place).length + base.length = place.length := by
  by_cases h : base <+: place
  · obtain ⟨rest, rfl⟩ := h
    right
    rw [within_append, List.length_append, Nat.add_comm]
  · exact .inl (by rw [within_of_outside h])

theorem mem_of_mem_within {base place : Place} {c : Component} (h : c ∈ within base place) :
    c ∈ place := by
  by_cases hb : base <+: place
  · obtain ⟨rest, rfl⟩ := hb
    rw [within_append] at h
    exact List.mem_append_right base h
  · rwa [within_of_outside hb] at h

/-- Where steps lead from a settled place. -/
def follow (base steps : Place) : Place := (steps.foldl keep base.reverse).reverse

theorem normalize_append (place steps : Place) :
    normalize (place ++ steps) = follow place.normalize steps := by
  rw [normalize, List.foldl_append, follow, normalize, List.reverse_reverse]

theorem up_mem_map_shown {place : Place} : .up ∈ place.map Component.shown ↔ .up ∈ place := by
  constructor
  · intro h
    obtain ⟨c, hc, hs⟩ := List.mem_map.mp h
    cases c with
    | up => exact hc
    | root | here | name => cases hs
  · exact fun h => List.mem_map.mpr ⟨.up, h, rfl⟩

/-- Places with no step up. -/
def Down (place : Place) : Prop := ∀ c ∈ place, ∃ s, c = .name s

theorem Down.up_not_mem {place : Place} (h : place.Down) : .up ∉ place := by
  intro hu
  obtain ⟨s, hs⟩ := h .up hu
  cases hs

theorem follow_down (base : Place) {steps : Place} (h : steps.Down) :
    follow base steps = base ++ steps := by
  induction steps generalizing base with
  | nil => simp [follow]
  | cons c rest ih =>
    obtain ⟨s, rfl⟩ := h c (by simp)
    have hkeep : follow base (.name s :: rest) = follow (base ++ [.name s]) rest := by
      rw [follow, follow, List.foldl_cons, List.reverse_append]
      rfl
    rw [hkeep, ih _ fun d hd => h d (List.mem_cons_of_mem _ hd), List.append_assoc]
    rfl

/-- A step up leaves the last step of a base, whatever that is. -/
theorem follow_up {base rest : Place} (hn : base ≠ []) (hr : .root ∉ base) (h : rest.Down) :
    follow base (.up :: rest) = base.dropLast ++ rest := by
  obtain ⟨front, last, rfl⟩ := (List.eq_nil_or_concat base).resolve_left hn
  have hlast : last ≠ .root := by
    rintro rfl
    exact hr (by simp)
  have hkeep : keep (last :: front.reverse) .up = front.reverse := by
    cases last with
    | root => exact absurd rfl hlast
    | here | up | name => rfl
  have hfollow : follow (front ++ [last]) (.up :: rest) = follow front rest := by
    rw [follow, List.foldl_cons, List.reverse_append, follow]
    exact congrArg (fun kept => (rest.foldl keep kept).reverse) hkeep
  rw [List.concat_eq_append, hfollow, follow_down front h, List.dropLast_concat]

/-- Settled places that start from nowhere in particular: below, or above by one step. -/
inductive Unrooted : Place → Prop where
  | down {place : Place} (h : place.Down) : Unrooted place
  | up {rest : Place} (h : rest.Down) : Unrooted (.up :: rest)

theorem Unrooted.up_or_name {place : Place} (h : place.Unrooted) {c : Component}
    (hc : c ∈ place) : c = .up ∨ ∃ s, c = .name s := by
  cases h with
  | down h => exact .inr (h c hc)
  | up h =>
    rcases List.mem_cons.mp hc with rfl | hc
    · exact .inl rfl
    · exact .inr (h c hc)

theorem Unrooted.root_not_mem {place : Place} (h : place.Unrooted) : .root ∉ place := by
  intro hr
  simpa using h.up_or_name hr

theorem Unrooted.here_not_mem {place : Place} (h : place.Unrooted) : .here ∉ place := by
  intro hr
  simpa using h.up_or_name hr

theorem Settled.unrooted {kept : Place} (h : Settled kept) (hr : .root ∉ kept) :
    Unrooted kept.reverse := by
  match kept, h with
  | [], _ => exact .down (by simp [Down])
  | [.root], _ => simp at hr
  | [.up], _ => exact .up (by simp [Down])
  | [.up, .root], _ => simp at hr
  | .name s :: below, h =>
    have hb : Unrooted below.reverse := Settled.unrooted h (by simpa using hr)
    have happend : ∀ {place : Place}, place.Down → Down (place ++ [.name s]) := by
      intro place hp c hc
      rcases List.mem_append.mp hc with hc | hc
      · exact hp c hc
      · exact ⟨s, List.mem_singleton.mp hc⟩
    rw [List.reverse_cons]
    generalize below.reverse = front at hb
    cases hb with
    | down hd => exact .down (happend hd)
    | up hd => exact .up (happend hd)

theorem unrooted_normalize {place : Place} (h : .root ∉ place) : place.normalize.Unrooted := by
  apply (settled_nil.foldl place).unrooted
  intro hr
  rcases mem_foldl_keep hr with hr | hr | hr
  · cases hr
  · exact h hr
  · cases hr

/-- Roots onto which a path may be joined twice without harm: where one starts from, the place one
step above, and what stands right there. -/
def Near (place : Place) : Prop := place = [] ∨ place = [.up] ∨ ∃ s, place = [.up, .name s]

theorem Down.eq_nil_of_near {place : Place} (h : place.Down) (hn : place.Near) : place = [] := by
  rcases hn with rfl | rfl | ⟨s, rfl⟩
  · rfl
  · exact absurd (by simp) h.up_not_mem
  · exact absurd (by simp) h.up_not_mem

theorem not_prefix_of_up {base place : Place} (h : place.Down) (hu : .up ∈ base) :
    ¬ base <+: place :=
  fun hp => h.up_not_mem (hp.subset hu)

/-- A place that was reached from `base` below is joined onto it once more. -/
theorem within_follow_down {base place : Place} (hp : place.Down) :
    (within base (follow base place)).map Component.shown =
        (within base place).map Component.shown ↔
      base = [] ∨ ¬ base <+: place := by
  rw [follow_down base hp, within_append]
  by_cases h : base <+: place
  · obtain ⟨rest, rfl⟩ := h
    rw [within_append]
    simp
  · rw [within_of_outside h]
    simp [h]

/-- A place one step above `base` leads elsewhere when it is joined onto `base`, unless `base` is
near. -/
theorem within_follow_up {base rest : Place} (hb : base.Unrooted) (h : rest.Down) :
    (within base (follow base (.up :: rest))).map Component.shown =
        (within base (.up :: rest)).map Component.shown ↔
      base.Near := by
  by_cases hn : base = []
  · subst hn
    have hfollow : follow [] (.up :: rest) = .up :: rest := follow_down [.up] h
    rw [hfollow]
    simp [Near]
  · rw [follow_up hn hb.root_not_mem h]
    cases hb with
    | down hd =>
      -- All that is left has no step up, while the place itself has one.
      have hout : ¬ base <+: .up :: rest := by
        intro hp
        obtain ⟨c, below, rfl⟩ := List.exists_cons_of_ne_nil hn
        obtain ⟨rfl, -⟩ := List.cons_prefix_cons.mp hp
        exact hd.up_not_mem (by simp)
      refine iff_of_false ?_ fun hnear => hn (hd.eq_nil_of_near hnear)
      intro he
      rw [within_of_outside hout] at he
      have hup : .up ∈ within base (base.dropLast ++ rest) := by
        rw [← up_mem_map_shown, he, up_mem_map_shown]
        exact List.mem_cons_self
      have hu := mem_of_mem_within hup
      rcases List.mem_append.mp hu with hu | hu
      · exact hd.up_not_mem (List.mem_of_mem_dropLast hu)
      · exact h.up_not_mem hu
    | @up names hd =>
      match names with
      | [] =>
        have hleft : within [.up] rest = rest := within_of_outside (not_prefix_of_up h (by simp))
        have hright : within [.up] (.up :: rest) = rest := within_append [.up] rest
        simp [Near, hleft, hright]
      | [c] =>
        obtain ⟨s, rfl⟩ := hd c (by simp)
        simp [Near]
      | c :: d :: more =>
        -- The joined place is longer by all but two of the steps of the base.
        refine iff_of_false ?_ (by simp [Near])
        intro he
        have hlength := congrArg List.length he
        have hl := length_within (.up :: c :: d :: more) ((.up :: c :: d :: more).dropLast ++ rest)
        have hr := length_within (.up :: c :: d :: more) (.up :: rest)
        rw [List.length_map, List.length_map] at hlength
        simp only [List.length_append, List.length_dropLast, List.length_cons] at hl hr
        omega

theorem within_follow_iff {base place : Place} (hb : base.Unrooted) (hp : place.Unrooted) :
    (within base (follow base place)).map Component.shown =
        (within base place).map Component.shown ↔
      base.Near ∨ .up ∉ place ∧ ¬ base <+: place := by
  cases hp with
  | down h =>
    rw [within_follow_down h, and_iff_right h.up_not_mem]
    constructor
    · rintro (rfl | hout)
      · exact .inl (.inl rfl)
      · exact .inr hout
    · rintro ((rfl | rfl | ⟨s, rfl⟩) | hout)
      · exact .inl rfl
      · exact .inr (not_prefix_of_up h (by simp))
      · exact .inr (not_prefix_of_up h (by simp))
      · exact .inr hout
  | up h =>
    rw [within_follow_up hb h, or_iff_left]
    exact fun hout => hout.1 List.mem_cons_self

end Place

namespace Path

theorem root_not_mem_place {p : Path} (h : p.isAbsolute = false) : .root ∉ p.place := by
  rw [place_eq, start]
  intro hr
  rcases List.mem_append.mp hr with hr | hr
  · split at hr
    · simp_all
    · split at hr <;> simp at hr
  · exact (proper_of_mem_steps hr).ne_root rfl

/-- A relative path is followed from the root. -/
theorem place_absolute {p : Path} (hp : p.isAbsolute = false) (root : Path) :
    (absolute root p).place = Place.follow root.normalize.place (steps p.bytes) := by
  rw [absolute, place_normalize, place_normalize]
  by_cases hr : root.bytes = []
  · have hroot : root.place = [] := root.place_eq_nil_iff.mpr hr
    have hstart : Place.normalize p.start = [] := by
      unfold start
      split
      · simp_all
      · split <;> rfl
    rw [join_of_empty hr, place_eq, Place.normalize_append, hstart, hroot]
    rfl
  · rw [place_join hp hr, Place.normalize_append]

/-- Where root and path are both relative, so is what they lead to. -/
theorem unrooted_place_absolute {root p : Path} (hr : root.isAbsolute = false)
    (hp : p.isAbsolute = false) : (absolute root p).place.Unrooted := by
  have hroot : .root ∉ (root.join p).place := by
    by_cases hn : root.bytes = []
    · rw [join_of_empty hn]
      exact root_not_mem_place hp
    · rw [place_join hp hn]
      intro h
      rcases List.mem_append.mp h with h | h
      · exact root_not_mem_place hr h
      · exact (proper_of_mem_steps h).ne_root rfl
  rw [absolute, place_normalize]
  exact Place.unrooted_normalize hroot

theorem isAbsolute_of_unrooted {p : Path} (h : p.place.Unrooted) : p.isAbsolute = false := by
  rw [Bool.eq_false_iff]
  intro ha
  apply h.root_not_mem
  rw [place_of_absolute ha]
  exact List.mem_cons_self

theorem steps_of_unrooted {p : Path} (h : p.place.Unrooted) : steps p.bytes = p.place := by
  have hstart : p.start = [] := by
    unfold start
    split
    · rw [isAbsolute_of_unrooted h] at *
      contradiction
    · split
      · rename_i ha hd
        refine absurd ?_ h.here_not_mem
        rw [place_eq, start, if_neg ha, if_pos hd]
        exact List.mem_cons_self
      · rfl
  rw [place_eq, hstart, List.nil_append]

theorem proper_of_unrooted {p : Path} (h : p.place.Unrooted) : ∀ c ∈ p.place, c.Proper := by
  rw [← steps_of_unrooted h]
  exact fun c hc => proper_of_mem_steps hc

theorem relative_eq (root p : Path) :
    relative root p = (Place.within root.normalize.place (absolute root p).place).slashed := rfl

/-- A relative path that was joined onto a relative root is joined onto it once more. -/
theorem relative_absolute_of_relative {root p : Path} (hr : root.isAbsolute = false)
    (hp : p.isAbsolute = false) :
    relative root (absolute root p) = relative root p ↔
      (Place.within root.normalize.place
          (Place.follow root.normalize.place (absolute root p).place)).map Component.shown =
        (Place.within root.normalize.place (absolute root p).place).map Component.shown := by
  have hone := unrooted_place_absolute hr hp
  have htwo := unrooted_place_absolute hr (isAbsolute_of_unrooted hone)
  have hplace := place_absolute (isAbsolute_of_unrooted hone) root
  rw [steps_of_unrooted hone] at hplace
  rw [relative_eq, relative_eq, Place.slashed_eq_iff, hplace]
  · exact fun c hc => proper_of_unrooted htwo c (Place.mem_of_mem_within hc)
  · exact fun c hc => proper_of_unrooted hone c (Place.mem_of_mem_within hc)

/-- An absolute path is joined onto no root. -/
theorem relative_absolute_of_absolute {file : Path} (h : file.isAbsolute = true) (root : Path) :
    relative root (absolute root file) = relative root file := by
  have hone : absolute root file = file.normalize := by rw [absolute, join_of_absolute h]
  have htwo : absolute root file.normalize = file.normalize := by
    rw [absolute, join_of_absolute (isAbsolute_normalize h), normalize_normalize]
  rw [relative_eq, relative_eq, hone, htwo]

/-- Roots and files whose key does not change when it is made of the joined path. -/
def KeepsKey (root file : Path) : Prop :=
  root.isAbsolute = true ∨ file.isAbsolute = true ∨ root.normalize.place.Near ∨
    .up ∉ (absolute root file).place ∧ ¬ root.normalize.place <+: (absolute root file).place

/-- The key that a file is registered under is the one that it is searched under, exactly if the
root or the file is absolute, the root is near, or the file leaves the root and stays below the
place that both start from. -/
theorem relative_absolute_iff (root file : Path) :
    relative root (absolute root file) = relative root file ↔ KeepsKey root file := by
  unfold KeepsKey
  cases hr : root.isAbsolute with
  | true => simp [relative_absolute hr]
  | false =>
    cases hf : file.isAbsolute with
    | true => simp [relative_absolute_of_absolute hf]
    | false =>
      have hbase : root.normalize.place.Unrooted := by
        rw [place_normalize]
        exact Place.unrooted_normalize (root_not_mem_place hr)
      rw [relative_absolute_of_relative hr hf,
        Place.within_follow_iff hbase (unrooted_place_absolute hr hf)]
      simp

/-- Below a relative root a file is registered with the root before its key, and searched
without. -/
theorem relative_absolute_of_relative_root :
    relative ⟨"repo"⟩ (absolute ⟨"repo"⟩ ⟨"a.ts"⟩) = "repo/a.ts" ∧
      relative ⟨"repo"⟩ ⟨"a.ts"⟩ = "a.ts" := by
  decide +kernel

/-- A file outside the root, at the place that a file below the root has from there. -/
structure Mirrors (root inside outside : Path) : Prop where
  place : ∃ below, (absolute root inside).place = root.normalize.place ++ below ∧
    (absolute root outside).place = .root :: below
  isOutside : ¬ root.normalize.place <+: (absolute root outside).place

theorem Mirrors.isInside {root inside outside : Path} (h : Mirrors root inside outside) :
    root.normalize.place <+: (absolute root inside).place := by
  obtain ⟨below, hin, -⟩ := h.place
  exact ⟨below, hin.symm⟩

/-- Joined paths are spelled alike if they lead to one place. -/
theorem absolute_eq_iff {root base p q : Path} :
    absolute root p = absolute base q ↔ (absolute root p).place = (absolute base q).place := by
  constructor
  · exact congrArg place
  · intro h
    rw [← plain_absolute root p, plain_congr h, plain_absolute]

theorem proper_of_below {root p : Path} {below : Place} (hr : root.isAbsolute = true)
    (h : (absolute root p).place = root.normalize.place ++ below) : ∀ c ∈ below, c.Proper := by
  rw [place_of_absolute (isAbsolute_absolute hr p),
    place_of_absolute (isAbsolute_normalize hr), List.cons_append] at h
  intro c hc
  apply proper_of_mem_steps
  rw [(List.cons.inj h).2]
  exact List.mem_append_right _ hc

/-- All names that go into the key of a file are texts. -/
def HasTextKey (root p : Path) : Prop :=
  (Place.within root.normalize.place (absolute root p).place).IsText

instance {root p : Path} : Decidable (HasTextKey root p) :=
  inferInstanceAs (Decidable (Place.IsText _))

theorem IsText.hasTextKey {root p : Path} (hr : root.IsText) (hp : p.IsText) :
    HasTextKey root p :=
  fun c hc => hr.absolute hp c (Place.mem_of_mem_within hc)

theorem HasTextKey.below {root p : Path} {below : Place} (h : HasTextKey root p)
    (hp : root.normalize.place ++ below = (absolute root p).place) : below.IsText := by
  rwa [HasTextKey, ← hp, Place.within_append] at h

theorem HasTextKey.steps {root p : Path} (h : HasTextKey root p)
    (hp : ¬ root.normalize.place <+: (absolute root p).place) :
    Place.IsText (steps (absolute root p).bytes) := by
  rw [HasTextKey, Place.within_of_outside hp] at h
  exact IsText.steps h

/-- The key of a file inside the root and one outside are one, if the one mirrors the other. -/
theorem relative_eq_iff_mirrors {root p q : Path} (hr : root.isAbsolute = true)
    (htp : HasTextKey root p) (htq : HasTextKey root q)
    (hp : root.normalize.place <+: (absolute root p).place)
    (hq : ¬ root.normalize.place <+: (absolute root q).place) :
    relative root p = relative root q ↔ Mirrors root p q := by
  obtain ⟨below, hbelow⟩ := hp
  have hwhole := place_of_absolute (isAbsolute_absolute hr q)
  have hkey : relative root q = Place.slashed (steps (absolute root q).bytes) := by
    rw [relative_eq, Place.within_of_outside hq, hwhole, Place.slashed_root]
  rw [hkey, relative_eq, ← hbelow, Place.within_append,
    (htp.below hbelow).slashed_inj (htq.steps hq) (proper_of_below hr hbelow.symm)
      fun c hc => proper_of_mem_steps hc]
  constructor
  · intro he
    exact ⟨⟨below, hbelow.symm, by rw [hwhole, he]⟩, hq⟩
  · rintro ⟨⟨rest, hin, hout⟩, -⟩
    rw [← hbelow, List.append_cancel_left_eq] at hin
    rw [hwhole] at hout
    rw [hin, (List.cons.inj hout).2]

/-- Two files have one key exactly if they are one, or one mirrors the other. -/
theorem relative_eq_iff {root p q : Path} (hr : root.isAbsolute = true) (htp : HasTextKey root p)
    (htq : HasTextKey root q) :
    relative root p = relative root q ↔
      absolute root p = absolute root q ∨ Mirrors root p q ∨ Mirrors root q p := by
  by_cases hp : root.normalize.place <+: (absolute root p).place <;>
  by_cases hq : root.normalize.place <+: (absolute root q).place
  · have hmirrors : ¬ (Mirrors root p q ∨ Mirrors root q p) := by
      rintro (h | h)
      · exact h.isOutside hq
      · exact h.isOutside hp
    rw [or_iff_left hmirrors, absolute_eq_iff]
    obtain ⟨below, hbelow⟩ := hp
    obtain ⟨below', hbelow'⟩ := hq
    rw [relative_eq, relative_eq, ← hbelow, ← hbelow', Place.within_append, Place.within_append,
      (htp.below hbelow).slashed_inj (htq.below hbelow') (proper_of_below hr hbelow.symm)
        (proper_of_below hr hbelow'.symm),
      List.append_cancel_left_eq]
  · have hne : absolute root p ≠ absolute root q := by
      intro he
      rw [he] at hp
      exact hq hp
    have hback : ¬ Mirrors root q p := fun h => h.isOutside hp
    rw [relative_eq_iff_mirrors hr htp htq hp hq, or_iff_right hne, or_iff_left hback]
  · have hne : absolute root p ≠ absolute root q := by
      intro he
      rw [← he] at hq
      exact hp hq
    have hback : ¬ Mirrors root p q := fun h => h.isOutside hq
    rw [eq_comm, relative_eq_iff_mirrors hr htq htp hq hp, or_iff_right hne, or_iff_right hback]
  · have hmirrors : ¬ (Mirrors root p q ∨ Mirrors root q p) := by
      rintro (h | h)
      · exact hp h.isInside
      · exact hq h.isInside
    rw [or_iff_left hmirrors, absolute_eq_iff, relative_eq, relative_eq,
      Place.within_of_outside hp, Place.within_of_outside hq,
      place_of_absolute (isAbsolute_absolute hr p), place_of_absolute (isAbsolute_absolute hr q),
      Place.slashed_root, Place.slashed_root,
      (htp.steps hp).slashed_inj (htq.steps hq) (fun c hc => proper_of_mem_steps hc)
        fun c hc => proper_of_mem_steps hc]
    simp

end Path

end Exports
