import Exports.Path
import Exports.Proofs.Bytes

namespace Exports

open Text (Bytes slash dot)

namespace Text

theorem pieces_eq_splitOn {α : Type} [DecidableEq α] (sep : α) (cs : List α) :
    pieces sep cs = cs.splitOn sep := by
  induction cs with
  | nil => rfl
  | cons c cs ih =>
    rw [pieces, List.splitOn_cons_eq_if_modifyHead, ih]
    by_cases hc : c = sep
    · simp [hc]
    · obtain ⟨p, ps, hp⟩ := List.exists_cons_of_ne_nil (List.splitOn_ne_nil sep cs)
      simp [hc, hp]

theorem pieces_append {α : Type} [DecidableEq α] (sep : α) (front back : List α) :
    pieces sep (front ++ sep :: back) = pieces sep front ++ pieces sep back := by
  simp [pieces_eq_splitOn, List.splitOn_append_cons_self]

theorem pieces_ne_nil {α : Type} [DecidableEq α] (sep : α) (cs : List α) : pieces sep cs ≠ [] := by
  simp [pieces_eq_splitOn, List.splitOn_ne_nil]

theorem not_mem_of_mem_pieces {α : Type} [DecidableEq α] {sep : α} {text piece : List α}
    (h : piece ∈ pieces sep text) : sep ∉ piece := by
  induction text generalizing piece with
  | nil => simp_all [pieces]
  | cons c rest ih =>
    rw [pieces] at h
    split at h
    · rcases List.mem_cons.mp h with rfl | h
      · simp
      · exact ih h
    · rename_i hc
      cases hp : pieces sep rest with
      | nil => exact absurd hp (pieces_ne_nil sep rest)
      | cons first others =>
        rw [hp] at h
        rcases List.mem_cons.mp h with rfl | h
        · have hf : sep ∉ first := ih (by simp [hp])
          simp [hf, Ne.symm hc]
        · exact ih (by simp [hp, h])

theorem pieces_intercalate {α : Type} [DecidableEq α] {sep : α} {parts : List (List α)}
    (hn : parts ≠ []) (h : ∀ part ∈ parts, sep ∉ part) :
    pieces sep ([sep].intercalate parts) = parts := by
  rw [pieces_eq_splitOn, List.splitOn_intercalate sep h hn]

theorem split_append (sep : Char) (s t : String) :
    split sep (s ++ String.singleton sep ++ t) = split sep s ++ split sep t := by
  simp [split, pieces_append]

theorem split_slash (s t : String) : split '/' (s ++ "/" ++ t) = split '/' s ++ split '/' t :=
  split_append '/' s t

theorem split_ne_nil (sep : Char) (s : String) : split sep s ≠ [] := by
  simp [split, pieces_ne_nil]

theorem split_intercalate {sep : Char} {parts : List String} (hn : parts ≠ [])
    (h : ∀ part ∈ parts, sep ∉ part.toList) :
    split sep ((String.singleton sep).intercalate parts) = parts := by
  have hs : (parts.map String.toList).map String.ofList = parts := by
    simp [Function.comp_def]
  rw [split, String.toList_intercalate, String.toList_singleton, pieces_intercalate, hs]
  · simpa using hn
  · intro cs hm
    obtain ⟨part, hp, rfl⟩ := List.mem_map.mp hm
    exact h part hp

theorem intercalate_split (s : String) : "/".intercalate (split '/' s) = s := by
  rw [← String.toList_inj, String.toList_intercalate, split, List.map_map]
  have hback : String.toList ∘ String.ofList = id := by
    funext cs
    exact String.toList_ofList
  rw [hback, List.map_id, pieces_eq_splitOn]
  exact List.intercalate_splitOn '/'

/-- Between the slashes of a text stand texts. -/
theorem pieces_encode (s : String) : pieces slash (encode s) = (split '/' s).map encode := by
  have hencode : encode s = [slash].intercalate ((split '/' s).map encode) := by
    rw [← encode_intercalate, intercalate_split]
  rw [hencode]
  apply pieces_intercalate
  · simpa using split_ne_nil '/' s
  · intro part hm hs
    obtain ⟨piece, hp, rfl⟩ := List.mem_map.mp hm
    obtain ⟨cs, hc, rfl⟩ := List.mem_map.mp hp
    refine not_mem_of_mem_pieces hc ?_
    rw [← String.toList_ofList (l := cs)]
    exact mem_of_mem_encode (by decide) hs

end Text

namespace Component

theorem ofPiece_eq_none_iff (piece : Bytes) :
    ofPiece piece = none ↔ piece = [] ∨ piece = [dot] := by
  unfold ofPiece
  by_cases hn : piece = [] ∨ piece = [dot]
  · simp [hn]
  · by_cases hu : piece = [dot, dot] <;> simp [hn, hu]

theorem spelled_of_ofPiece {piece : Bytes} {c : Component} (h : ofPiece piece = some c) :
    c.spelled = piece := by
  unfold ofPiece at h
  split at h
  · cases h
  · split at h
    · rename_i hu
      cases h
      exact hu.symm
    · cases h
      rfl

/-- Steps that a piece between slashes can spell. -/
def Proper (c : Component) : Prop := ofPiece c.spelled = some c ∧ slash ∉ c.spelled

theorem Proper.of_piece {piece : Bytes} {c : Component} (h : ofPiece piece = some c)
    (hs : slash ∉ piece) : c.Proper := by
  unfold ofPiece at h
  split at h
  · cases h
  · rename_i hn
    split at h
    · cases h
      exact ⟨by decide, by decide⟩
    · rename_i hu
      cases h
      exact ⟨by simp [ofPiece, spelled, hn, hu], hs⟩

theorem Proper.up : Proper up := ⟨by decide, by decide⟩

theorem Proper.ne_root {c : Component} (h : c.Proper) : c ≠ root := by
  rintro rfl
  exact h.2 (by decide)

theorem Proper.ne_here {c : Component} (h : c.Proper) : c ≠ here := by
  rintro rfl
  exact absurd h.1 (by decide)

/-- The component that is read from a key in place of another one: a name becomes a text. -/
def shown : Component → Component
  | name bytes => name (Text.encode (Text.shown bytes))
  | c => c

theorem Proper.spelled_shown {c : Component} (h : c.Proper) :
    c.shown.spelled = Text.encode (Text.shown c.spelled) := by
  cases c with
  | root => exact absurd rfl h.ne_root
  | here => exact absurd rfl h.ne_here
  | up => exact (Text.isText_encode "..").symm
  | name => rfl

/-- No other name is shown as a step up, or as none. -/
theorem Proper.shown {c : Component} (h : c.Proper) : c.shown.Proper := by
  cases c with
  | root => exact absurd rfl h.ne_root
  | here => exact absurd rfl h.ne_here
  | up => exact h
  | name bytes =>
    have hnone : ∀ s : String, Text.replacement ∉ s.toList →
        Text.encode (Text.shown bytes) = Text.encode s → bytes = Text.encode s := by
      intro s hs he
      exact Text.isText_of_shown_eq (Text.encode_inj.mp he) hs
    have hpiece : ofPiece (Text.encode (Text.shown bytes)) =
        some (name (Text.encode (Text.shown bytes))) := by
      have hown := h.1
      unfold ofPiece at hown ⊢
      split at hown
      · cases hown
      · rename_i hn
        split at hown
        · cases hown
        · rename_i hu
          rw [if_neg, if_neg]
          · exact fun he => hu (hnone ".." (by decide) he)
          · rintro (he | he)
            · exact hn (.inl (hnone "" (by decide) he))
            · exact hn (.inr (hnone "." (by decide) he))
    exact ⟨hpiece, fun hs => Text.slash_not_mem_shown h.2 (Text.mem_of_mem_encode (by decide) hs)⟩

/-- The component is read from a key as it is. -/
def IsText (c : Component) : Prop := c.shown = c

instance (c : Component) : Decidable c.IsText := inferInstanceAs (Decidable (_ = _))

end Component

namespace Path

/-- The steps that are spelled between slashes. -/
def steps (bytes : Bytes) : Place := (Text.pieces slash bytes).filterMap Component.ofPiece

/-- What the front of a path adds to its steps: where they start from. -/
def start (p : Path) : Place :=
  if p.isAbsolute then [.root]
  else if (Text.pieces slash p.bytes).head? = some [dot] then [.here]
  else []

theorem isAbsolute_iff (p : Path) : p.isAbsolute = true ↔ ∃ rest, p.bytes = slash :: rest := by
  unfold isAbsolute
  cases hp : p.bytes with
  | nil => simp
  | cons c rest =>
    simp only [List.isPrefixOf_cons_cons, List.isPrefixOf_nil_left, Bool.and_true, beq_iff_eq,
      List.cons.injEq, exists_and_left, exists_eq', and_true]
    exact eq_comm

theorem pieces_of_absolute {p : Path} (h : p.isAbsolute = true) :
    ∃ rest, Text.pieces slash p.bytes = [] :: rest := by
  obtain ⟨rest, hr⟩ := p.isAbsolute_iff.mp h
  exact ⟨Text.pieces slash rest, by simp [hr, Text.pieces]⟩

theorem pieces_of_relative {p : Path} (h : p.isAbsolute = false) (hn : p.bytes ≠ []) :
    ∃ first rest, Text.pieces slash p.bytes = first :: rest ∧ first ≠ [] := by
  have ha : ¬ ∃ rest, p.bytes = slash :: rest := by
    rw [← p.isAbsolute_iff, h]
    simp
  cases hp : p.bytes with
  | nil => exact absurd hp hn
  | cons c cs =>
    have hc : c ≠ slash := by
      rintro rfl
      exact ha ⟨cs, hp⟩
    obtain ⟨q, qs, hq⟩ := List.exists_cons_of_ne_nil (Text.pieces_ne_nil slash cs)
    exact ⟨c :: q, qs, by rw [Text.pieces, if_neg hc, hq], List.cons_ne_nil _ _⟩

theorem place_eq (p : Path) : p.place = p.start ++ steps p.bytes := by
  unfold place start steps
  cases hs : Text.pieces slash p.bytes with
  | nil => exact absurd hs (Text.pieces_ne_nil slash p.bytes)
  | cons first rest =>
    simp only [List.head?_cons, Option.some.injEq, List.filterMap_cons]
    by_cases ha : p.isAbsolute = true
    · obtain ⟨rest', hr⟩ := pieces_of_absolute ha
      rw [hs] at hr
      cases hr
      simp [ha, Component.ofPiece]
    · by_cases hd : first = [dot]
      · simp [ha, hd, Component.ofPiece]
      · cases hc : Component.ofPiece first <;> simp [ha, hd]

theorem place_of_absolute {p : Path} (h : p.isAbsolute = true) :
    p.place = .root :: steps p.bytes := by
  rw [place_eq, start, if_pos h]
  rfl

theorem proper_of_mem_steps {bytes : Bytes} {c : Component} (h : c ∈ steps bytes) : c.Proper := by
  obtain ⟨piece, hm, hc⟩ := List.mem_filterMap.mp h
  exact .of_piece hc (Text.not_mem_of_mem_pieces hm)

/-- The pieces that are steps. -/
theorem map_spelled_steps (bytes : Bytes) :
    (steps bytes).map Component.spelled =
      (Text.pieces slash bytes).filter fun piece => (Component.ofPiece piece).isSome := by
  unfold steps
  induction Text.pieces slash bytes with
  | nil => rfl
  | cons piece rest ih =>
    cases hc : Component.ofPiece piece with
    | none => simpa [hc] using ih
    | some c => simpa [hc, Component.spelled_of_ofPiece hc] using ih

theorem steps_append (s t : Bytes) : steps (s ++ slash :: t) = steps s ++ steps t := by
  rw [steps, Text.pieces_append, List.filterMap_append]
  rfl

theorem pieces_proper {place : Place} (h : ∀ c ∈ place, c.Proper) (hn : place ≠ []) :
    Text.pieces slash ([slash].intercalate (place.map Component.spelled)) =
      place.map Component.spelled := by
  refine Text.pieces_intercalate (by simpa using hn) ?_
  intro piece hm
  obtain ⟨c, hc, rfl⟩ := List.mem_map.mp hm
  exact (h c hc).2

/-- Steps written out with slashes between them are read back. -/
theorem steps_intercalate {place : Place} (h : ∀ c ∈ place, c.Proper) :
    steps ([slash].intercalate (place.map Component.spelled)) = place := by
  have hback : (place.map Component.spelled).filterMap Component.ofPiece = place := by
    rw [List.filterMap_map]
    induction place with
    | nil => rfl
    | cons c rest ih =>
      have hc : (Component.ofPiece ∘ Component.spelled) c = some c := (h c (by simp)).1
      rw [List.filterMap_cons, hc, ih (fun d hd => h d (by simp [hd]))]
  by_cases hn : place = []
  · subst hn
    decide
  · rw [steps, pieces_proper h hn, hback]

/-- Only the empty path names no place at all. -/
theorem place_eq_nil_iff (p : Path) : p.place = [] ↔ p.bytes = [] := by
  by_cases hn : p.bytes = []
  · have hp : p = ⟨[]⟩ := by cases p; simpa using hn
    subst hp
    decide
  · refine iff_of_false ?_ hn
    rw [place_eq]
    by_cases ha : p.isAbsolute = true
    · simp [start, ha]
    · obtain ⟨first, rest, hs, hf⟩ := pieces_of_relative (by simpa using ha) hn
      by_cases hd : first = [dot]
      · simp [start, ha, hs, hd]
      · by_cases hu : first = [dot, dot] <;> simp [start, ha, steps, hs, hd, hu, hf, Component.ofPiece]

theorem isAbsolute_append (s t : Bytes) :
    isAbsolute ⟨s ++ slash :: t⟩ = (decide (s = []) || isAbsolute ⟨s⟩) := by
  cases s <;> simp [isAbsolute, List.isPrefixOf]

/-- What follows a slash does not change where the steps start from. -/
theorem start_append (s t u : Bytes) : start ⟨s ++ slash :: t⟩ = start ⟨s ++ slash :: u⟩ := by
  obtain ⟨first, rest, hs⟩ := List.exists_cons_of_ne_nil (Text.pieces_ne_nil slash s)
  simp only [start, isAbsolute_append, Text.pieces_append, hs, List.cons_append, List.head?_cons]

theorem start_append_of_ne {s : Bytes} (hs : s ≠ []) (t : Bytes) :
    start ⟨s ++ slash :: t⟩ = start ⟨s⟩ := by
  obtain ⟨first, rest, hf⟩ := List.exists_cons_of_ne_nil (Text.pieces_ne_nil slash s)
  simp only [start, isAbsolute_append, Text.pieces_append, hf, hs, List.cons_append,
    List.head?_cons, decide_false, Bool.false_or]

theorem exists_append_slash {s : Bytes} (h : [slash].isSuffixOf s = true) :
    ∃ t, s = t ++ [slash] := by
  obtain ⟨t, ht⟩ := List.isSuffixOf_iff_suffix.mp h
  exact ⟨t, ht.symm⟩

/-- Joining goes on from the first place, unless the second starts anew. -/
theorem place_join {p q : Path} (hq : q.isAbsolute = false) (hp : p.bytes ≠ []) :
    (p.join q).place = p.place ++ steps q.bytes := by
  unfold join
  simp only [hq, hp, decide_false, Bool.or_self, Bool.false_eq_true, ↓reduceIte]
  split
  · rename_i he
    obtain ⟨t, ht⟩ := exists_append_slash he
    have ht' : steps (t ++ [slash]) = steps t := by
      simpa [steps, Text.pieces, Component.ofPiece] using steps_append t []
    have he : p = ⟨t ++ [slash]⟩ := by cases p; simpa using ht
    subst he
    rw [List.append_assoc, List.singleton_append, place_eq, place_eq, steps_append,
      start_append t q.bytes [], ht', List.append_assoc]
  · rw [place_eq, place_eq, steps_append, start_append_of_ne hp, List.append_assoc]

theorem join_of_absolute {p q : Path} (hq : q.isAbsolute = true) : p.join q = q := by
  simp [join, hq]

theorem join_of_empty {p q : Path} (hp : p.bytes = []) : p.join q = q := by
  simp [join, hp]

/-- Joining onto two paths of one place leads to one place. -/
theorem place_join_congr {p p' : Path} (h : p.place = p'.place) (q : Path) :
    (p.join q).place = (p'.join q).place := by
  by_cases hq : q.isAbsolute = true
  · rw [join_of_absolute hq, join_of_absolute hq]
  · by_cases hp : p.bytes = []
    · have hp' : p'.bytes = [] := by rwa [← place_eq_nil_iff, ← h, place_eq_nil_iff]
      rw [join_of_empty hp, join_of_empty hp']
    · have hp' : p'.bytes ≠ [] := by rwa [Ne, ← place_eq_nil_iff, ← h, place_eq_nil_iff]
      rw [place_join (by simpa using hq) hp, place_join (by simpa using hq) hp', h]

theorem isAbsolute_iff_place (p : Path) : p.isAbsolute = true ↔ p.place.head? = some .root := by
  constructor
  · intro h
    rw [place_of_absolute h]
    rfl
  · intro h
    by_cases ha : p.isAbsolute = true
    · exact ha
    · -- A relative path starts with a step of its own or with `.`.
      rw [place_eq, start, if_neg ha] at h
      split at h
      · cases h
      · exact absurd rfl (proper_of_mem_steps (List.mem_of_mem_head? h)).ne_root

theorem isAbsolute_congr {p p' : Path} (h : p.place = p'.place) :
    p.isAbsolute = p'.isAbsolute := by
  rw [Bool.eq_iff_iff, isAbsolute_iff_place, isAbsolute_iff_place, h]

theorem ne_empty_of_absolute {p : Path} (h : p.isAbsolute = true) : p.bytes ≠ [] := by
  intro he
  rw [← place_eq_nil_iff, place_of_absolute h] at he
  cases he

theorem isAbsolute_join {p : Path} (h : p.isAbsolute = true) (q : Path) :
    (p.join q).isAbsolute = true := by
  by_cases hq : q.isAbsolute = true
  · rwa [join_of_absolute hq]
  · rw [isAbsolute_iff_place, place_join (by simpa using hq) (ne_empty_of_absolute h),
      place_of_absolute h]
    rfl

end Path

namespace Place

/-- Places that a path can have: proper steps from the root, from `.` or from nowhere. -/
def Clean (place : Place) : Prop :=
  ∃ steps, (∀ c ∈ steps, c.Proper) ∧
    (place = steps ∨ place = .root :: steps ∨ place = .here :: steps)

theorem toPath_of_proper {steps : Place} (h : ∀ c ∈ steps, c.Proper) :
    toPath steps = ⟨[slash].intercalate (steps.map Component.spelled)⟩ := by
  cases steps with
  | nil => rfl
  | cons c rest =>
    have hc : c ≠ .root := (h c (by simp)).ne_root
    cases c with
    | root => exact absurd rfl hc
    | here | up | name => rfl

/-- Steps written out start from nowhere in particular. -/
theorem start_of_proper {steps : Place} (h : ∀ c ∈ steps, c.Proper) :
    Path.start ⟨[slash].intercalate (steps.map Component.spelled)⟩ = [] := by
  cases hs : steps with
  | nil => decide
  | cons c rest =>
    rw [← hs]
    have hc : c.Proper := h c (by simp [hs])
    have hsplit := Path.pieces_proper h (by simp [hs])
    have hne : c.spelled ≠ [] := by
      intro he
      have := hc.1
      simp [he, Component.ofPiece] at this
    have hnd : c.spelled ≠ [dot] := by
      intro he
      have := hc.1
      simp [he, Component.ofPiece] at this
    have ha : Path.isAbsolute ⟨[slash].intercalate (steps.map Component.spelled)⟩ = false := by
      rw [Bool.eq_false_iff]
      intro ha
      obtain ⟨others, ho⟩ := Path.pieces_of_absolute ha
      rw [hsplit, hs] at ho
      exact hne (List.cons.inj ho).1
    rw [Path.start, ha, hsplit, hs]
    simp [hnd]

/-- The path rebuilt from a place names that place. -/
theorem Clean.place_toPath {place : Place} (h : place.Clean) : place.toPath.place = place := by
  obtain ⟨steps, hp, rfl | rfl | rfl⟩ := h
  · rw [toPath_of_proper hp, Path.place_eq, start_of_proper hp, Path.steps_intercalate hp,
      List.nil_append]
  · have ha : Path.isAbsolute ⟨slash :: [slash].intercalate (steps.map Component.spelled)⟩ =
        true := by
      simp [Path.isAbsolute]
    have hs : Path.steps (slash :: [slash].intercalate (steps.map Component.spelled)) = steps := by
      have h0 := Path.steps_append [] ([slash].intercalate (steps.map Component.spelled))
      rw [Path.steps_intercalate hp] at h0
      simpa [Path.steps, Text.pieces, Component.ofPiece] using h0
    rw [toPath, Path.place_of_absolute ha, hs]
  · cases hs : steps with
    | nil => decide
    | cons c rest =>
      rw [← hs]
      have ht : toPath (.here :: steps) =
          ⟨[dot] ++ slash :: [slash].intercalate (steps.map Component.spelled)⟩ := by
        simp [toPath, hs, Component.spelled, List.intercalate]
      have hd : Path.start ⟨[dot]⟩ ++ Path.steps [dot] = [.here] := by decide
      rw [ht, Path.place_eq, Path.start_append_of_ne (by decide), Path.steps_append,
        Path.steps_intercalate hp, ← List.append_assoc, hd]
      rfl

/-- Components kept by normalization, last first: names on top of the root or of one `..`. -/
def Settled : Place → Prop
  | [] | [.root] | [.up] | [.up, .root] => True
  | .name _ :: below => Settled below
  | _ => False

theorem Settled.keep {kept : Place} (h : Settled kept) (c : Component) :
    Settled (Place.keep kept c) := by
  cases c with
  | here => exact h
  | root => trivial
  | name s => exact h
  | up =>
    match kept, h with
    | [], _ => trivial
    | [.root], _ => trivial
    | [.up], _ => trivial
    | [.up, .root], _ => trivial
    | .name _ :: below, h => exact h

theorem Settled.foldl {kept : Place} (h : Settled kept) (place : Place) :
    Settled (place.foldl Place.keep kept) := by
  induction place generalizing kept with
  | nil => exact h
  | cons c rest ih => exact ih (h.keep c)

/-- What is settled is kept as it is. -/
theorem Settled.foldl_reverse {kept : Place} (h : Settled kept) :
    kept.reverse.foldl Place.keep [] = kept := by
  match kept, h with
  | [], _ => rfl
  | [.root], _ => rfl
  | [.up], _ => rfl
  | [.up, .root], _ => rfl
  | .name s :: below, h =>
    have ih : below.reverse.foldl Place.keep [] = below := Settled.foldl_reverse h
    rw [List.reverse_cons, List.foldl_append, ih]
    rfl

theorem settled_nil : Settled [] := trivial

theorem normalize_normalize (place : Place) : place.normalize.normalize = place.normalize := by
  have hs : Settled (place.foldl Place.keep []) := settled_nil.foldl place
  unfold normalize
  rw [hs.foldl_reverse]

/-- What is kept comes from the place, `..` apart. -/
theorem mem_foldl_keep {place kept : Place} {c : Component}
    (h : c ∈ place.foldl Place.keep kept) : c ∈ kept ∨ c ∈ place ∨ c = .up := by
  induction place generalizing kept with
  | nil => exact .inl h
  | cons d rest ih =>
    rcases ih h with hk | hr | hu
    · cases d with
      | here => exact .inl hk
      | root => simp_all [Place.keep]
      | name s =>
        rcases List.mem_cons.mp hk with rfl | hk
        · simp
        · exact .inl hk
      | up =>
        match kept with
        | [] => simp_all [Place.keep]
        | .root :: below =>
          rcases List.mem_cons.mp hk with hu | hk
          · exact .inr (.inr hu)
          · exact .inl hk
        | .here :: below | .up :: below | .name _ :: below => exact .inl (List.mem_cons_of_mem _ hk)
    · exact .inr (.inl (List.mem_cons_of_mem _ hr))
    · exact .inr (.inr hu)

/-- Settled components are proper steps on top of the root or of nothing. -/
theorem Settled.exists_steps {kept : Place} (h : Settled kept)
    (hp : ∀ s, .name s ∈ kept → (Component.name s).Proper) :
    ∃ steps : Place, (∀ c ∈ steps, c.Proper) ∧ (kept = steps ∨ kept = steps ++ [.root]) := by
  match kept, h with
  | [], _ => exact ⟨[], by simp, .inl rfl⟩
  | [.root], _ => exact ⟨[], by simp, .inr rfl⟩
  | [.up], _ => exact ⟨[.up], by simp [Component.Proper.up], .inl rfl⟩
  | [.up, .root], _ => exact ⟨[.up], by simp [Component.Proper.up], .inr rfl⟩
  | .name s :: below, h =>
    have hb : Settled below := h
    obtain ⟨steps, hs, hk⟩ := hb.exists_steps fun t ht => hp t (List.mem_cons_of_mem _ ht)
    refine ⟨.name s :: steps, ?_, ?_⟩
    · intro c hc
      rcases List.mem_cons.mp hc with rfl | hc
      · exact hp s (by simp)
      · exact hs c hc
    · rcases hk with rfl | rfl
      · exact .inl rfl
      · exact .inr rfl

/-- Proper steps never remove the root that they start from. -/
theorem foldl_keep_root (place l : Place) (h : ∀ c ∈ place, c.Proper) :
    ∃ l', place.foldl Place.keep (l ++ [.root]) = l' ++ [.root] := by
  induction place generalizing l with
  | nil => exact ⟨l, rfl⟩
  | cons c rest ih =>
    have hr : ∀ d ∈ rest, d.Proper := fun d hd => h d (List.mem_cons_of_mem _ hd)
    have hc : c.Proper := h c (by simp)
    cases c with
    | root => exact absurd rfl hc.ne_root
    | here => exact ih l hr
    | name s => exact ih (.name s :: l) hr
    | up =>
      match l with
      | [] => exact ih [.up] hr
      | .root :: below => exact ih (.up :: .root :: below) hr
      | .here :: below | .up :: below | .name _ :: below => exact ih below hr

theorem segments_of_proper {place : Place} (h : ∀ c ∈ place, c.Proper) :
    place.segments = place.map fun c => Text.shown c.spelled := by
  induction place with
  | nil => rfl
  | cons c rest ih =>
    have hr := ih fun d hd => h d (List.mem_cons_of_mem _ hd)
    have hc : c.Proper := h c (by simp)
    cases c with
    | root => exact absurd rfl hc.ne_root
    | here => exact absurd rfl hc.ne_here
    | up =>
      have hup : Text.shown Component.up.spelled = ".." := Text.shown_encode ".."
      simpa [segments, hup] using hr
    | name => simpa [segments, Component.spelled] using hr

end Place

namespace Path

theorem proper_of_mem_place {p : Path} {bytes : Bytes} (h : .name bytes ∈ p.place) :
    (Component.name bytes).Proper := by
  rw [place_eq] at h
  rcases List.mem_append.mp h with hs | hs
  · unfold start at hs
    split at hs
    · simp at hs
    · split at hs <;> simp at hs
  · exact proper_of_mem_steps hs

theorem clean_normalize (p : Path) : p.place.normalize.Clean := by
  have hs : Place.Settled (p.place.foldl Place.keep []) := Place.settled_nil.foldl p.place
  obtain ⟨steps, hp, hk⟩ := hs.exists_steps (by
    intro s hm
    rcases Place.mem_foldl_keep hm with h | h | h
    · cases h
    · exact proper_of_mem_place h
    · cases h)
  refine ⟨steps.reverse, by simpa using hp, ?_⟩
  unfold Place.normalize
  rcases hk with hk | hk
  · exact .inl (by rw [hk])
  · exact .inr (.inl (by rw [hk, List.reverse_append]; rfl))

theorem place_normalize (p : Path) : p.normalize.place = p.place.normalize :=
  p.clean_normalize.place_toPath

theorem normalize_normalize (p : Path) : p.normalize.normalize = p.normalize := by
  rw [normalize, place_normalize, Place.normalize_normalize]
  rfl

theorem normalize_congr {p p' : Path} (h : p.place = p'.place) : p.normalize = p'.normalize := by
  rw [normalize, h, normalize]

theorem clean_place (p : Path) : p.place.Clean := by
  refine ⟨steps p.bytes, fun c hc => proper_of_mem_steps hc, ?_⟩
  rw [place_eq, start]
  split
  · exact .inr (.inl rfl)
  · split
    · exact .inr (.inr rfl)
    · exact .inl rfl

/-- What normalization makes of an absolute path is absolute. -/
theorem isAbsolute_normalize {p : Path} (h : p.isAbsolute = true) :
    p.normalize.isAbsolute = true := by
  obtain ⟨l, hl⟩ := Place.foldl_keep_root (steps p.bytes) [] fun c hc => proper_of_mem_steps hc
  have hf : (steps p.bytes).foldl Place.keep [.root] = l ++ [.root] := hl
  have hp : p.place.normalize = .root :: l.reverse := by
    rw [place_of_absolute h, Place.normalize, List.foldl_cons, Place.keep, hf,
      List.reverse_append]
    rfl
  rw [isAbsolute_iff_place, place_normalize, hp]
  rfl

theorem isAbsolute_absolute {root : Path} (h : root.isAbsolute = true) (file : Path) :
    (absolute root file).isAbsolute = true :=
  isAbsolute_normalize (isAbsolute_join h file)

theorem absolute_absolute {root : Path} (h : root.isAbsolute = true) (file : Path) :
    absolute root (absolute root file) = absolute root file := by
  have ha : (absolute root file).isAbsolute = true := isAbsolute_absolute h file
  rw [absolute, join_of_absolute ha, absolute, normalize_normalize]

/-- Extraction and lookup know a file by the same key. -/
theorem relative_absolute {root : Path} (h : root.isAbsolute = true) (file : Path) :
    relative root (absolute root file) = relative root file := by
  rw [relative, absolute_absolute h, relative]

/-- A path spelled plainly, without empty pieces and inner dots. -/
def plain (p : Path) : Path := p.place.toPath

theorem place_plain (p : Path) : p.plain.place = p.place := p.clean_place.place_toPath

theorem plain_congr {p p' : Path} (h : p.place = p'.place) : p.plain = p'.plain := by
  rw [plain, h, plain]

theorem plain_normalize (p : Path) : p.normalize.plain = p.normalize := by
  rw [plain, place_normalize, normalize]

theorem plain_absolute (root file : Path) : (absolute root file).plain = absolute root file :=
  plain_normalize _

theorem slashed_congr {p q : Path} (h : p.place = q.place) : p.slashed = q.slashed := by
  rw [slashed, h, slashed]

end Path

namespace Place

variable {place place' : Place}

theorem encode_slashed (h : ∀ c ∈ place, c.Proper) :
    Text.encode place.slashed =
      [slash].intercalate ((place.map Component.shown).map Component.spelled) := by
  have hspelled : place.segments.map Text.encode =
      (place.map Component.shown).map Component.spelled := by
    rw [segments_of_proper h, List.map_map, List.map_map]
    exact List.map_congr_left fun c hc => (h c hc).spelled_shown.symm
  rw [slashed, Text.encode_intercalate, hspelled]

theorem proper_map_shown (h : ∀ c ∈ place, c.Proper) :
    ∀ c ∈ place.map Component.shown, c.Proper := by
  intro c hc
  obtain ⟨d, hd, rfl⟩ := List.mem_map.mp hc
  exact (h d hd).shown

/-- A key is read back into the steps that it shows. -/
theorem steps_slashed (h : ∀ c ∈ place, c.Proper) :
    Path.steps place.slashed = place.map Component.shown := by
  rw [encode_slashed h, Path.steps_intercalate (proper_map_shown h)]

/-- Keys tell apart what they show. -/
theorem slashed_eq_iff (h : ∀ c ∈ place, c.Proper) (h' : ∀ c ∈ place', c.Proper) :
    place.slashed = place'.slashed ↔ place.map Component.shown = place'.map Component.shown := by
  constructor
  · intro he
    rw [← steps_slashed h, he, steps_slashed h']
  · intro he
    rw [← Text.encode_inj, encode_slashed h, he, encode_slashed h']

theorem slashed_root (place : Place) : slashed (.root :: place) = place.slashed := rfl

/-- All names of the place are texts. -/
def IsText (place : Place) : Prop := ∀ c ∈ place, c.IsText

instance : Decidable place.IsText := inferInstanceAs (Decidable (∀ c ∈ place, _))

theorem isText_iff : place.IsText ↔ place.map Component.shown = place := by
  have hid : place.map Component.shown = place.map id ↔ ∀ c ∈ place, c.shown = id c :=
    List.map_inj_left
  rw [List.map_id] at hid
  exact hid.symm

theorem IsText.slashed_inj (ht : place.IsText) (ht' : place'.IsText) (h : ∀ c ∈ place, c.Proper)
    (h' : ∀ c ∈ place', c.Proper) : place.slashed = place'.slashed ↔ place = place' := by
  rw [slashed_eq_iff h h', isText_iff.mp ht, isText_iff.mp ht']

theorem IsText.normalize (h : place.IsText) : place.normalize.IsText := by
  intro c hc
  rcases mem_foldl_keep (List.mem_reverse.mp hc) with hk | hp | rfl
  · cases hk
  · exact h c hp
  · rfl

end Place

namespace Path

variable {p q root file : Path}

/-- All names of the path are texts. -/
def IsText (p : Path) : Prop := p.place.IsText

instance : Decidable p.IsText := inferInstanceAs (Decidable p.place.IsText)

/-- A path that is written as a text has texts as names. -/
theorem isText_encode (s : String) : IsText ⟨s⟩ := by
  intro c hc
  rw [place_eq] at hc
  rcases List.mem_append.mp hc with hc | hc
  · unfold start at hc
    split at hc
    · rw [List.mem_singleton.mp hc]
      rfl
    · split at hc
      · rw [List.mem_singleton.mp hc]
        rfl
      · cases hc
  · obtain ⟨piece, hm, hp⟩ := List.mem_filterMap.mp hc
    have hspelled := Component.spelled_of_ofPiece hp
    rw [Text.pieces_encode] at hm
    obtain ⟨part, -, rfl⟩ := List.mem_map.mp hm
    cases c with
    | root | here | up => rfl
    | name bytes =>
      obtain rfl : bytes = Text.encode part := hspelled
      rw [Component.IsText, Component.shown, Text.shown_encode]

theorem IsText.normalize (h : p.IsText) : p.normalize.IsText := by
  rw [IsText, place_normalize]
  exact Place.IsText.normalize h

theorem mem_place_join {c : Component} (h : c ∈ (p.join q).place) : c ∈ p.place ∨ c ∈ q.place := by
  by_cases hq : q.isAbsolute = true
  · rw [join_of_absolute hq] at h
    exact .inr h
  · by_cases hp : p.bytes = []
    · rw [join_of_empty hp] at h
      exact .inr h
    · rw [place_join (by simpa using hq) hp] at h
      rcases List.mem_append.mp h with h | h
      · exact .inl h
      · right
        rw [place_eq]
        exact List.mem_append_right _ h

theorem IsText.join (hp : p.IsText) (hq : q.IsText) : (p.join q).IsText := by
  intro c hc
  rcases mem_place_join hc with hc | hc
  · exact hp c hc
  · exact hq c hc

theorem IsText.absolute (hr : root.IsText) (hf : file.IsText) : (absolute root file).IsText :=
  (hr.join hf).normalize

theorem IsText.steps (h : p.IsText) : Place.IsText (steps p.bytes) := by
  intro c hc
  apply h c
  rw [place_eq]
  exact List.mem_append_right _ hc

/-- Absolute paths with one key have one place, if their names are texts. -/
theorem place_eq_of_slashed (hp : p.isAbsolute = true) (hq : q.isAbsolute = true)
    (htp : p.IsText) (htq : q.IsText) (h : p.slashed = q.slashed) : p.place = q.place := by
  have hproper : ∀ {bytes : Bytes}, ∀ c ∈ steps bytes, c.Proper := fun c hc => proper_of_mem_steps hc
  rw [slashed, slashed, place_of_absolute hp, place_of_absolute hq, Place.slashed_root,
    Place.slashed_root, htp.steps.slashed_inj htq.steps hproper hproper] at h
  rw [place_of_absolute hp, place_of_absolute hq, h]

end Path

end Exports
