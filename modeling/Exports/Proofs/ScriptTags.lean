import Exports.Proofs.Script

namespace Exports

namespace Text

variable {sep : Char} {needle text front rest : List Char}

theorem eq_of_cutFirst (h : cutFirst sep text = some (front, rest)) :
    text = front ++ sep :: rest ∧ sep ∉ front := by
  induction text generalizing front with
  | nil => cases h
  | cons c cs ih =>
    rw [cutFirst] at h
    split at h
    · rename_i hc
      cases h
      exact ⟨by rw [hc, List.nil_append], List.not_mem_nil⟩
    · rename_i hc
      obtain ⟨⟨a, b⟩, ha, he⟩ := Option.map_eq_some_iff.mp h
      cases he
      obtain ⟨rfl, hn⟩ := ih ha
      refine ⟨rfl, ?_⟩
      rw [List.mem_cons, not_or]
      exact ⟨fun h => hc h.symm, hn⟩

theorem cutAt_eq_some (hn : needle ≠ []) (h : cutAt needle text = some (front, rest)) :
    text = front ++ needle ++ rest ∧ ¬ needle <:+: front := by
  induction text generalizing front with
  | nil => simp [cutAt, hn] at h
  | cons c cs ih =>
    rw [cutAt] at h
    split at h
    · rename_i hp
      cases h
      refine ⟨(List.isPrefixOf?_eq_some_iff_append_eq.mp hp).symm, ?_⟩
      simpa using hn
    · rename_i hp
      obtain ⟨⟨a, b⟩, ha, he⟩ := Option.map_eq_some_iff.mp h
      cases he
      obtain ⟨hcs, hout⟩ := ih ha
      refine ⟨by rw [hcs]; simp, ?_⟩
      rw [List.infix_cons_iff]
      rintro (⟨more, hm⟩ | hin)
      · -- The needle would stand at the front already.
        have hfront : needle.isPrefixOf? (c :: cs) = some (more ++ needle ++ rest) := by
          apply List.isPrefixOf?_eq_some_iff_append_eq.mpr
          rw [hcs, ← List.append_assoc, ← List.append_assoc, hm]
          simp
        rw [hp] at hfront
        cases hfront
      · exact hout hin

theorem cutAt_eq_none_iff : cutAt needle text = none ↔ ¬ needle <:+: text := by
  induction text with
  | nil => simp [cutAt]
  | cons c cs ih =>
    rw [cutAt, List.infix_cons_iff]
    split
    · rename_i rest hp
      have hfront : needle <+: c :: cs := ⟨rest, List.isPrefixOf?_eq_some_iff_append_eq.mp hp⟩
      simp [hfront]
    · rename_i hp
      have hfront : ¬ needle <+: c :: cs := by
        rintro ⟨rest, hr⟩
        rw [List.isPrefixOf?_eq_some_iff_append_eq.mpr hr] at hp
        cases hp
      rw [Option.map_eq_none_iff, ih, not_or, and_iff_right hfront]

end Text

namespace ScriptBlock

/-- The attributes of an opening tag: the word of the tag ends before them, and they hold no end of
the tag. -/
structure IsAttributes (attributes : List Char) : Prop where
  wordEnds : ∀ c ∈ attributes.head?, Text.Class.isWordPart c = false
  inside : '>' ∉ attributes

def tagText (attributes : List Char) : List Char := "<script".toList ++ attributes ++ ['>']

theorem tagText_append (attributes more : List Char) :
    tagText attributes ++ more = "<script".toList ++ (attributes ++ '>' :: more) := by
  -- By its equation, the literal would be unfolded into characters first.
  delta tagText
  rw [List.append_assoc, List.append_assoc]
  rfl

theorem length_tagText (attributes : List Char) :
    (tagText attributes).length = "<script".length + attributes.length + 1 := by
  delta tagText
  rw [List.length_append, List.length_append, String.length_toList, List.length_singleton]

/-- An opening tag with these attributes stands at an offset. -/
def TagAt (text : List Char) (start : Nat) (attributes : List Char) : Prop :=
  IsAttributes attributes ∧ tagText attributes <+: text.drop start

theorem attributesAt_eq_some_iff {cs attributes : List Char} :
    attributesAt cs = some attributes ↔ IsAttributes attributes ∧ tagText attributes <+: cs := by
  rw [attributesAt]
  constructor
  · intro h
    obtain ⟨rest, hp, h⟩ := Option.bind_eq_some_iff.mp h
    split at h
    · cases h
    · rename_i hword
      obtain ⟨⟨_, more⟩, hcut, he⟩ := Option.bind_eq_some_iff.mp h
      cases he
      obtain ⟨rfl, hin⟩ := Text.eq_of_cutFirst hcut
      refine ⟨⟨fun c hc => ?_, hin⟩, more, ?_⟩
      · have hhead : (attributes ++ '>' :: more).head? = some c := by
          rw [List.head?_append, Option.mem_def.mp hc]
          rfl
        rwa [hhead, Option.any_some, Bool.not_eq_true] at hword
      · rw [tagText_append, List.isPrefixOf?_eq_some_iff_append_eq.mp hp]
  · rintro ⟨⟨hword, hin⟩, more, rfl⟩
    have hp : "<script".toList.isPrefixOf? (tagText attributes ++ more) =
        some (attributes ++ '>' :: more) :=
      List.isPrefixOf?_eq_some_iff_append_eq.mpr (tagText_append ..).symm
    have hany : (attributes ++ '>' :: more).head?.any Text.Class.isWordPart = false := by
      cases attributes with
      | nil => exact (by decide : Text.Class.isWordPart '>' = false)
      | cons c cs => exact hword c rfl
    simp only [hp, hany, Text.cutFirst_append hin, Option.bind_eq_bind, Option.bind_some,
      Bool.false_eq_true, if_false]

/-- Tags from an offset on, each the leftmost one after the end of the one before, with none after
the last. -/
inductive Successive (text : List Char) : Nat → List OpenTag → Prop where
  | done {i : Nat} (h : ∀ start attributes, i ≤ start → ¬ TagAt text start attributes) :
      Successive text i []
  | next {i start : Nat} {attributes : List Char} {tags : List OpenTag} (h : i ≤ start)
      (tag : TagAt text start attributes)
      (leftmost : ∀ s a, i ≤ s → s < start → ¬ TagAt text s a)
      (rest : Successive text (start + (tagText attributes).length) tags) :
      Successive text i (⟨start + (tagText attributes).length, attributes⟩ :: tags)

variable {text : List Char} {i : Nat} {tags tags' : List OpenTag}

theorem TagAt.unique {start : Nat} {a b : List Char} (ha : TagAt text start a)
    (hb : TagAt text start b) : a = b :=
  Option.some.inj
    ((attributesAt_eq_some_iff.mpr ha).symm.trans (attributesAt_eq_some_iff.mpr hb))

/-- A text has its tags in one way only. -/
theorem Successive.unique (h : Successive text i tags) (h' : Successive text i tags') :
    tags = tags' := by
  induction h generalizing tags' with
  | done hnone =>
    cases h' with
    | done => rfl
    | next hi tag => exact absurd tag (hnone _ _ hi)
  | @next i start attributes tags hi tag leftmost rest ih =>
    cases h' with
    | done hnone => exact absurd tag (hnone _ _ hi)
    | @next _ start' attributes' tags' hi' tag' leftmost' rest' =>
      obtain rfl : start = start' := by
        rcases Nat.lt_trichotomy start start' with hs | hs | hs
        · exact absurd tag (leftmost' _ _ hi hs)
        · exact hs
        · exact absurd tag' (leftmost _ _ hi' hs)
      obtain rfl := tag.unique tag'
      rw [ih rest']

theorem Successive.exists_eq {tag : OpenTag} (h : Successive text i tags) (hm : tag ∈ tags) :
    ∃ pre rest, text = pre ++ tagText tag.attributes ++ rest ∧
      (pre ++ tagText tag.attributes).length = tag.contentStart := by
  induction h with
  | done => cases hm
  | @next i start attributes tags hi hat leftmost rest ih =>
    rcases List.mem_cons.mp hm with rfl | hm
    · obtain ⟨-, more, hmore⟩ := hat
      have hlen := congrArg List.length hmore
      rw [List.length_append, length_tagText, List.length_drop] at hlen
      refine ⟨text.take start, more, ?_, ?_⟩
      · rw [List.append_assoc, hmore, List.take_append_drop]
      · rw [List.length_append, List.length_take, Nat.min_eq_left (by omega)]
    · exact ih hm

/-- Where no tag stands, the tags are those that follow. -/
theorem Successive.of_succ (h : Successive text (i + 1) tags) (hn : ∀ a, ¬ TagAt text i a) :
    Successive text i tags := by
  have hat : ∀ s a, i ≤ s → (i + 1 ≤ s → ¬ TagAt text s a) → ¬ TagAt text s a := by
    intro s a hs hlater
    rcases Nat.eq_or_lt_of_le hs with rfl | hlt
    · exact hn a
    · exact hlater hlt
  cases h with
  | done hnone => exact .done fun s a hs => hat s a hs (hnone s a)
  | next hi tag leftmost rest =>
    exact .next (Nat.le_of_succ_le hi) tag
      (fun s a hs hlt => hat s a hs fun hle => leftmost s a hle hlt) rest

/-- The search skips the rest of each tag that it finds, so it finds the successive tags. -/
theorem successive_openTagsFrom (skip : Nat) {cs : List Char} (h : text.drop i = cs) :
    Successive text (i + skip) (openTagsFrom i skip cs) := by
  induction cs generalizing i skip with
  | nil =>
    rw [openTagsFrom]
    apply Successive.done
    rintro start a hs ⟨-, hm⟩
    have hend : text.length ≤ start := by
      have := List.drop_eq_nil_iff.mp h
      omega
    have hlen := hm.length_le
    rw [List.drop_eq_nil_of_le hend, length_tagText] at hlen
    simp at hlen
  | cons c cs ih =>
    have hcs : text.drop (i + 1) = cs := by rw [← List.drop_drop, h, List.drop_one, List.tail_cons]
    cases skip with
    | succ skip =>
      have hnext := ih skip hcs
      rwa [Nat.add_right_comm, Nat.add_assoc] at hnext
    | zero =>
      rw [openTagsFrom]
      cases ha : attributesAt (c :: cs) with
      | none =>
        refine Successive.of_succ (ih 0 hcs) fun a hat => ?_
        have hsome : attributesAt (c :: cs) = some a := attributesAt_eq_some_iff.mpr (h ▸ hat)
        rw [ha] at hsome
        cases hsome
      | some attributes =>
        have htag : TagAt text i attributes := by
          rw [TagAt, h]
          exact attributesAt_eq_some_iff.mp ha
        have hnext := ih ((tagText attributes).length - 1) hcs
        have hlen := length_tagText attributes
        rw [show i + 1 + ((tagText attributes).length - 1) = i + (tagText attributes).length by
          omega] at hnext
        simp only [← hlen]
        exact .next (Nat.le_refl i) htag (fun s a hs hlt => by omega) hnext

theorem successive_openTags (text : List Char) : Successive text 0 (openTags text) :=
  successive_openTagsFrom 0 List.drop_zero

/-- `setup` stands in the text as a word of its own: after a blank, and before a blank, `=` or the
end. At the front of the text it does so where `free` says so. -/
def HasSetup (free : Bool) (cs : List Char) : Prop :=
  ∃ before after, cs = before ++ "setup".toList ++ after ∧
    before.getLast?.elim free Text.Class.isBlank = true ∧
    after.head?.all (fun c => c = '=' || Text.Class.isBlank c) = true

theorem getLast?_cons_elim (c : Char) (before : List Char) (free : Bool) :
    (c :: before).getLast?.elim free Text.Class.isBlank =
      before.getLast?.elim (Text.Class.isBlank c) Text.Class.isBlank := by
  rw [List.getLast?_cons]
  cases before.getLast? <;> rfl

theorem marksSetup_iff {free : Bool} {cs : List Char} :
    marksSetup free cs = true ↔ HasSetup free cs := by
  induction cs generalizing free with
  | nil =>
    constructor
    · intro h
      simp [marksSetup] at h
    · rintro ⟨before, after, he, -⟩
      simp at he
  | cons c cs ih =>
    rw [marksSetup, Bool.or_eq_true, Bool.and_eq_true, ih]
    constructor
    · rintro (⟨hfree, hhere⟩ | ⟨before, after, rfl, hbefore, hafter⟩)
      · split at hhere
        · rename_i rest hp
          exact ⟨[], rest, (List.isPrefixOf?_eq_some_iff_append_eq.mp hp).symm, hfree, hhere⟩
        · cases hhere
      · exact ⟨c :: before, after, rfl, (getLast?_cons_elim ..).trans hbefore, hafter⟩
    · rintro ⟨before, after, he, hbefore, hafter⟩
      cases before with
      | nil =>
        left
        refine ⟨hbefore, ?_⟩
        rw [he, List.nil_append, List.isPrefixOf?_eq_some_iff_append_eq.mpr rfl]
        exact hafter
      | cons d before =>
        obtain ⟨rfl, rfl⟩ := List.cons.inj he
        right
        exact ⟨before, after, rfl, (getLast?_cons_elim ..).symm.trans hbefore, hafter⟩

end ScriptBlock

end Exports
