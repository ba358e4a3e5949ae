import Exports.Proofs.ScriptBlock
import Mathlib.Tactic.IntervalCases

namespace Exports

namespace Text

variable {needle text front rest : List Char}

theorem isInfix_iff_drop : needle <:+: text ↔ ∃ k, needle <+: text.drop k := by
  constructor
  · rintro ⟨before, after, rfl⟩
    refine ⟨before.length, after, ?_⟩
    rw [List.append_assoc, List.drop_left]
  · rintro ⟨k, hk⟩
    exact hk.isInfix.trans (List.drop_suffix k text).isInfix

theorem cutAt_first (h : cutAt needle text = some (front, rest)) :
    ∀ k < front.length, ¬ needle <+: text.drop k := by
  induction text generalizing front with
  | nil =>
    rw [cutAt] at h
    split at h
    · cases h
      simp
    · cases h
  | cons c cs ih =>
    rw [cutAt] at h
    split at h
    · cases h
      simp
    · rename_i hp
      obtain ⟨⟨a, b⟩, ha, he⟩ := Option.map_eq_some_iff.mp h
      cases he
      intro k hk
      cases k with
      | zero =>
        rintro ⟨more, hm⟩
        rw [List.drop_zero] at hm
        rw [List.isPrefixOf?_eq_some_iff_append_eq.mpr hm] at hp
        cases hp
      | succ k =>
        rw [List.drop_succ_cons]
        apply ih ha
        simpa using hk

end Text

namespace ScriptBlock

def OpenTag.start (tag : OpenTag) : Nat := tag.contentStart - (tagText tag.attributes).length

def CloseAt (text : List Char) (i : Nat) : Prop := "</script>".toList <+: text.drop i

/-- A block as it is read: its opening tag, and the offset of its closing tag. -/
structure RawBlock where
  tag : OpenTag
  stop : Nat

namespace RawBlock

def body (b : RawBlock) (text : List Char) : List Char :=
  (text.drop b.tag.contentStart).take (b.stop - b.tag.contentStart)

def next (b : RawBlock) : Nat := b.stop + "</script>".length

theorem stop_lt_next (b : RawBlock) : b.stop < b.next := by
  have hpositive : 0 < "</script>".length := by decide
  rw [next]
  omega

/-- The block ends at the first closing tag after its opening tag. -/
structure EndsFirst (text : List Char) (b : RawBlock) : Prop where
  inside : b.tag.contentStart ≤ b.stop
  stands : CloseAt text b.stop
  first : ∀ k, b.tag.contentStart ≤ k → k < b.stop → ¬ CloseAt text k

/-- A tag starts in the text of the block. -/
def Holds (b : RawBlock) (tag : OpenTag) : Prop :=
  b.tag.contentStart ≤ tag.start ∧ tag.start < b.stop

end RawBlock

/-- The first tag from an offset on. -/
structure FirstTag (text : List Char) (i : Nat) (tag : OpenTag) : Prop where
  le : i ≤ tag.start
  start_add : tag.start + (tagText tag.attributes).length = tag.contentStart
  stands : TagAt text tag.start tag.attributes
  leftmost : ∀ s a, i ≤ s → s < tag.start → ¬ TagAt text s a

/-- Blocks read from an offset on. Each is opened by the first tag and closed by the first closing
tag after it, and the next one is sought after that. A tag that is never closed ends the
reading. -/
inductive Reads (text : List Char) : Nat → List RawBlock → Prop where
  | done {i : Nat} (h : ∀ start attributes, i ≤ start → ¬ TagAt text start attributes) :
      Reads text i []
  | unclosed {i : Nat} {tag : OpenTag} (opens : FirstTag text i tag)
      (never : ∀ k, tag.contentStart ≤ k → ¬ CloseAt text k) : Reads text i []
  | next {i : Nat} {b : RawBlock} {blocks : List RawBlock} (opens : FirstTag text i b.tag)
      (ends : b.EndsFirst text) (rest : Reads text b.next blocks) : Reads text i (b :: blocks)

variable {text : List Char} {i j s : Nat} {a : List Char} {tags : List OpenTag} {tag : OpenTag}
  {blocks blocks' : List RawBlock} {b : RawBlock} {block : ScriptBlock}

theorem isClosed_iff : IsClosed text tag ↔ ∃ k, tag.contentStart ≤ k ∧ CloseAt text k := by
  rw [IsClosed, Text.isInfix_iff_drop]
  constructor
  · rintro ⟨k, hk⟩
    rw [List.drop_drop] at hk
    exact ⟨_, Nat.le_add_right .., hk⟩
  · rintro ⟨k, hle, hk⟩
    refine ⟨k - tag.contentStart, ?_⟩
    rw [List.drop_drop, Nat.add_sub_cancel' hle]
    exact hk

theorem not_tagAt_of_closeAt (h : CloseAt text j) (hj : j ≤ s) (hs : s < j + "</script>".length) :
    ¬ TagAt text s a := by
  rintro ⟨-, htag⟩
  obtain ⟨k, rfl⟩ := Nat.exists_eq_add_of_le hj
  have hk : k < 9 := Nat.lt_of_add_lt_add_left hs
  obtain ⟨post, hpost⟩ := h
  have hname : "<script".toList <+: text.drop (j + k) := by
    refine List.IsPrefix.trans ⟨a ++ ['>'], ?_⟩ htag
    delta tagText
    rw [List.append_assoc]
  rw [← List.drop_drop, ← hpost] at hname
  interval_cases k <;> simp at hname

/-- The only `>` of a tag is its last character. -/
theorem TagAt.end_le (h : TagAt text s a) (hc : CloseAt text j) (hs : s < j) :
    s + (tagText a).length ≤ j + "</script>".length := by
  obtain ⟨⟨-, hin⟩, more, hmore⟩ := h
  obtain ⟨post, hpost⟩ := hc
  by_contra hlt
  have hlen : (tagText a).length = 7 + a.length + 1 := length_tagText a
  have hclose : "</script>".length = 9 := rfl
  have hlast : text[j + 8]? = some '>' := by
    rw [← List.getElem?_drop, ← hpost]
    simp
  have hchar : ("<script".toList ++ a)[j + 8 - s]? = some '>' := by
    have hk : s + (j + 8 - s) = j + 8 := by omega
    rw [← hk, ← List.getElem?_drop, ← hmore, tagText_append, ← List.append_assoc,
      List.getElem?_append_left] at hlast
    · exact hlast
    · simp only [List.length_append, String.length_toList]
      change j + 8 - s < 7 + a.length
      omega
  rcases List.mem_append.mp (List.mem_of_getElem? hchar) with hm | hm
  · simp at hm
  · exact hin hm

theorem Successive.firstTag (h : Successive text i (tag :: tags)) :
    FirstTag text i tag ∧ Successive text tag.contentStart tags := by
  cases h with
  | @next _ start attributes _ hi hat leftmost rest =>
    have hstart : OpenTag.start ⟨start + (tagText attributes).length, attributes⟩ = start := by
      simp [OpenTag.start]
    constructor
    · constructor
      · rwa [hstart]
      · rw [hstart]
      · rwa [hstart]
      · rwa [hstart]
    · exact rest

theorem Successive.le_start (h : Successive text i tags) : ∀ t ∈ tags, i ≤ t.start := by
  induction h with
  | done => simp
  | @next i start attributes tags hi hat leftmost rest ih =>
    intro t ht
    rcases List.mem_cons.mp ht with rfl | ht
    · simpa [OpenTag.start] using hi
    · have := ih t ht
      omega

theorem Successive.sorted (h : Successive text i tags) :
    tags.Pairwise fun t u => t.contentStart ≤ u.start := by
  induction h with
  | done => exact .nil
  | next hi hat leftmost rest ih => exact .cons rest.le_start ih

/-- After a closing tag, the search for tags goes on with those that start after it. -/
theorem Successive.after_close (h : Successive text i tags) (hc : CloseAt text j)
    (hi : i ≤ j + "</script>".length) :
    ∃ inner outer, tags = inner ++ outer ∧ (∀ t ∈ inner, t.start < j) ∧
      Successive text (j + "</script>".length) outer := by
  induction h with
  | done hnone =>
    refine ⟨[], [], rfl, by simp, .done ?_⟩
    intro start attributes hs
    apply hnone
    omega
  | @next i start attributes tags hs hat leftmost rest ih =>
    by_cases hlt : start < j
    · obtain ⟨inner, outer, rfl, hinner, houter⟩ := ih (hat.end_le hc hlt)
      refine ⟨_ :: inner, outer, rfl, ?_, houter⟩
      intro t ht
      rcases List.mem_cons.mp ht with rfl | ht
      · simpa [OpenTag.start] using hlt
      · exact hinner t ht
    · have hstart : j + "</script>".length ≤ start := by
        by_contra hn
        exact not_tagAt_of_closeAt hc (by omega) (by omega) hat
      refine ⟨[], _, rfl, by simp, .next hstart hat ?_ rest⟩
      intro s a hle
      apply leftmost
      omega

theorem FirstTag.unique {tag' : OpenTag} (h : FirstTag text i tag) (h' : FirstTag text i tag') :
    tag = tag' := by
  have hstart : tag.start = tag'.start := by
    rcases Nat.lt_trichotomy tag.start tag'.start with hs | hs | hs
    · exact absurd h.stands (h'.leftmost _ _ h.le hs)
    · exact hs
    · exact absurd h'.stands (h.leftmost _ _ h'.le hs)
  have hattributes : tag.attributes = tag'.attributes := h.stands.unique (hstart ▸ h'.stands)
  have hcontent : tag.contentStart = tag'.contentStart := by
    rw [← h.start_add, ← h'.start_add, hstart, hattributes]
  cases tag
  cases tag'
  simp_all

theorem RawBlock.EndsFirst.unique {c : RawBlock} (h : b.EndsFirst text) (h' : c.EndsFirst text)
    (htag : b.tag = c.tag) : b = c := by
  have hstop : b.stop = c.stop := by
    rcases Nat.lt_trichotomy b.stop c.stop with hs | hs | hs
    · exact absurd h.stands (h'.first _ (htag ▸ h.inside) hs)
    · exact hs
    · exact absurd h'.stands (h.first _ (htag ▸ h'.inside) hs)
  cases b
  cases c
  simp_all

theorem RawBlock.EndsFirst.isClosed (h : b.EndsFirst text) : IsClosed text b.tag :=
  isClosed_iff.mpr ⟨_, h.inside, h.stands⟩

/-- A cut at the closing tag ends a block. -/
theorem RawBlock.EndsFirst.of_cutAt {content post : List Char}
    (h : Text.cutAt "</script>".toList (text.drop tag.contentStart) = some (content, post)) :
    EndsFirst text ⟨tag, tag.contentStart + content.length⟩ := by
  obtain ⟨hrest, -⟩ := Text.cutAt_eq_some (by simp) h
  refine ⟨Nat.le_add_right .., ⟨post, ?_⟩, ?_⟩
  · rw [← List.drop_drop, hrest, List.append_assoc, List.drop_left]
  · intro k hk hlt hat
    dsimp only at hk hlt
    apply Text.cutAt_first h (k - tag.contentStart) (by omega)
    rw [List.drop_drop, Nat.add_sub_cancel' hk]
    exact hat

theorem RawBlock.EndsFirst.body_eq (h : b.EndsFirst text) (ho : ofTag text b.tag = some block) :
    b.body text = block.content := by
  obtain ⟨⟨content, post⟩, hcut, rfl⟩ := Option.map_eq_some_iff.mp ho
  obtain ⟨hrest, -⟩ := Text.cutAt_eq_some (by simp) hcut
  have hstop : b.stop - b.tag.contentStart = content.length := by
    have hb := h.unique (.of_cutAt hcut) rfl
    rw [congrArg RawBlock.stop hb, Nat.add_sub_cancel_left]
  rw [RawBlock.body, hstop, hrest, List.append_assoc, List.take_left]

theorem Reads.unique (h : Reads text i blocks) (h' : Reads text i blocks') : blocks = blocks' := by
  induction h generalizing blocks' with
  | done hnone =>
    cases h' with
    | done => rfl
    | unclosed => rfl
    | next opens => exact absurd opens.stands (hnone _ _ opens.le)
  | unclosed opens never =>
    cases h' with
    | done => rfl
    | unclosed => rfl
    | next opens' ends =>
      have hinside := ends.inside
      rw [← opens.unique opens'] at hinside
      exact absurd ends.stands (never _ hinside)
  | @next i b blocks opens ends rest ih =>
    cases h' with
    | done hnone => exact absurd opens.stands (hnone _ _ opens.le)
    | unclosed opens' never =>
      have hinside := ends.inside
      rw [opens.unique opens'] at hinside
      exact absurd ends.stands (never _ hinside)
    | next opens' ends' rest' =>
      obtain rfl := ends.unique ends' (opens.unique opens')
      rw [ih rest']

theorem exists_reads (text : List Char) (i : Nat) : ∃ blocks, Reads text i blocks := by
  -- Each block is closed inside the text, so there are fewer characters left after it.
  induction hn : text.length - i using Nat.strong_induction_on generalizing i with
  | _ n ih =>
    obtain ⟨tags, htags⟩ : ∃ tags, Successive text i tags :=
      ⟨_, successive_openTagsFrom 0 rfl⟩
    cases tags with
    | nil =>
      cases htags with
      | done hnone => exact ⟨[], .done hnone⟩
    | cons tag tags =>
      obtain ⟨opens, -⟩ := htags.firstTag
      cases hcut : Text.cutAt "</script>".toList (text.drop tag.contentStart) with
      | none =>
        refine ⟨[], .unclosed opens ?_⟩
        intro k hk hat
        exact Text.cutAt_eq_none_iff.mp hcut (isClosed_iff.mpr ⟨k, hk, hat⟩)
      | some cut =>
        have hends := RawBlock.EndsFirst.of_cutAt hcut
        have hlen := hends.stands.length_le
        rw [List.length_drop, String.length_toList] at hlen
        have hstop := RawBlock.stop_lt_next ⟨tag, tag.contentStart + cut.1.length⟩
        have hle := opens.le
        have hadd := opens.start_add
        dsimp only [RawBlock.next] at hlen hstop
        obtain ⟨blocks, hblocks⟩ :=
          ih (text.length - (tag.contentStart + cut.1.length + "</script>".length)) (by omega) _ rfl
        exact ⟨_, .next opens hends hblocks⟩

theorem Reads.endsFirst (h : Reads text i blocks) : ∀ b ∈ blocks, b.EndsFirst text := by
  induction h with
  | done => simp
  | unclosed => simp
  | next opens ends rest ih =>
    intro c hc
    rcases List.mem_cons.mp hc with rfl | hc
    · exact ends
    · exact ih c hc

theorem Reads.le_start (h : Reads text i blocks) :
    ∀ b ∈ blocks, i ≤ b.tag.start ∧ b.tag.start < b.tag.contentStart := by
  induction h with
  | done => simp
  | unclosed => simp
  | @next i b blocks opens ends rest ih =>
    have hle := opens.le
    have hadd := opens.start_add
    have hlen := length_tagText b.tag.attributes
    intro c hc
    rcases List.mem_cons.mp hc with rfl | hc
    · exact ⟨hle, by omega⟩
    · obtain ⟨hnext, hstart⟩ := ih c hc
      have hinside := ends.inside
      have hstop := b.stop_lt_next
      exact ⟨by omega, hstart⟩

theorem Reads.stop_lt {c : RawBlock} (h : Reads text i blocks) (hb : b ∈ blocks)
    (hc : c ∈ blocks) (hlt : b.tag.start < c.tag.start) : b.stop < c.tag.start := by
  induction h with
  | done => cases hb
  | unclosed => cases hb
  | @next i head blocks opens ends rest ih =>
    have hnext := head.stop_lt_next
    rcases List.mem_cons.mp hb with rfl | hbm
    · rcases List.mem_cons.mp hc with rfl | hcm
      · exact absurd hlt (Nat.lt_irrefl _)
      · exact Nat.lt_of_lt_of_le hnext (rest.le_start c hcm).1
    · rcases List.mem_cons.mp hc with rfl | hcm
      · have hstart := (rest.le_start b hbm).1
        have hinside := ends.inside
        have hadd := opens.start_add
        omega
      · exact ih hbm hcm

/-- The tags of the blocks that are read are among those that are found. -/
theorem Reads.tag_mem (h : Reads text i blocks) (ht : Successive text i tags) :
    ∀ b ∈ blocks, b.tag ∈ tags := by
  induction h generalizing tags with
  | done => simp
  | unclosed => simp
  | @next i b blocks opens ends rest ih =>
    cases tags with
    | nil =>
      cases ht with
      | done hnone => exact absurd opens.stands (hnone _ _ opens.le)
    | cons head tags =>
      obtain ⟨hopens, hrest⟩ := ht.firstTag
      obtain rfl := opens.unique hopens
      obtain ⟨inner, outer, rfl, -, houter⟩ :=
        hrest.after_close ends.stands (Nat.le_trans ends.inside b.stop_lt_next.le)
      intro c hc
      rcases List.mem_cons.mp hc with rfl | hc
      · exact List.mem_cons_self
      · exact List.mem_cons_of_mem _ (List.mem_append_right _ (ih houter c hc))

/-- A closed tag that is found opens a block that is read, or starts in the text of one. -/
theorem Reads.covers (h : Reads text i blocks) (ht : Successive text i tags) (hm : tag ∈ tags)
    (hc : IsClosed text tag) : ∃ b ∈ blocks, b.tag = tag ∨ b.Holds tag := by
  induction h generalizing tags with
  | done hnone =>
    cases ht with
    | done => cases hm
    | next hi hat => exact absurd hat (hnone _ _ hi)
  | unclosed opens never =>
    cases tags with
    | nil => cases hm
    | cons head tags =>
      obtain ⟨hopens, hrest⟩ := ht.firstTag
      obtain rfl := opens.unique hopens
      obtain ⟨k, hk, hat⟩ := isClosed_iff.mp hc
      -- A closing tag after a later tag stands after the first one, too.
      refine absurd hat (never k ?_)
      rcases List.mem_cons.mp hm with rfl | hm
      · exact hk
      · have hle := hrest.le_start tag hm
        simp only [OpenTag.start] at hle
        omega
  | @next i b blocks opens ends rest ih =>
    cases tags with
    | nil => cases hm
    | cons head tags =>
      obtain ⟨hopens, hrest⟩ := ht.firstTag
      obtain rfl := opens.unique hopens
      obtain ⟨inner, outer, rfl, hinner, houter⟩ :=
        hrest.after_close ends.stands (Nat.le_trans ends.inside b.stop_lt_next.le)
      rcases List.mem_cons.mp hm with rfl | hm
      · exact ⟨b, List.mem_cons_self, .inl rfl⟩
      · rcases List.mem_append.mp hm with hm' | hm'
        · exact ⟨b, List.mem_cons_self, .inr ⟨hrest.le_start tag hm, hinner tag hm'⟩⟩
        · obtain ⟨c, hcm, hcase⟩ := ih houter hm'
          exact ⟨c, List.mem_cons_of_mem _ hcm, hcase⟩

/-- A closed setup tag starts in the text of a block, and no setup block is read up to there. -/
def Shadowed (text : List Char) (tags : List OpenTag) (blocks : List RawBlock) : Prop :=
  ∃ b ∈ blocks, ∃ t ∈ tags, b.Holds t ∧ IsClosed text t ∧ HasSetup true t.attributes ∧
    ∀ c ∈ blocks, HasSetup true c.tag.attributes → b.tag.start < c.tag.start

theorem Chosen.start_le {isSetup : Bool} {t : OpenTag} (h : Chosen text tags tag isSetup)
    (ht : Successive text i tags) (hm : t ∈ tags) (hc : IsClosed text t)
    (hs : isSetup = true → HasSetup true t.attributes) : tag.start ≤ t.start := by
  have hsplit : ∃ before after, tags = before ++ tag :: after ∧ t ∉ before := by
    cases h with
    | @setup before after stands _ _ first =>
      exact ⟨before, after, stands, fun hb => first t hb hc (hs rfl)⟩
    | @plain before after stands _ first _ =>
      exact ⟨before, after, stands, fun hb => first t hb hc⟩
  obtain ⟨before, after, rfl, hbefore⟩ := hsplit
  have hsorted := (List.pairwise_append.mp ht.sorted).2.1
  rcases List.mem_append.mp hm with hm | hm
  · exact absurd hm hbefore
  · rcases List.mem_cons.mp hm with rfl | hm
    · exact Nat.le_refl _
    · exact Nat.le_trans (Nat.sub_le ..) ((List.pairwise_cons.mp hsorted).1 t hm)

theorem Chosen.isClosed {isSetup : Bool} (h : Chosen text tags tag isSetup) :
    IsClosed text tag := by
  cases h with
  | setup _ closed => exact closed
  | plain _ closed => exact closed

/-- The chosen tag opens a block that is read, unless a setup tag in a text comes first. -/
theorem Chosen.read_iff {isSetup : Bool} (h : Chosen text tags tag isSetup)
    (ht : Successive text 0 tags) (hb : Reads text 0 blocks) :
    (∃ b ∈ blocks, b.tag = tag) ↔ ¬ Shadowed text tags blocks := by
  constructor
  · rintro ⟨c, hc, rfl⟩ ⟨b, hbm, t, htm, ⟨-, hlt⟩, hclosed, hsetup, hlater⟩
    cases h with
    | plain _ _ _ noSetup => exact noSetup t htm hclosed hsetup
    | setup stands closed setup first =>
      have hchosen : Chosen text tags c.tag true := .setup stands closed setup first
      have hfirst := hchosen.start_le ht htm hclosed fun _ => hsetup
      have hbc := hlater c hc setup
      -- The block of the chosen tag is opened after the text in which `t` starts.
      have hafter := hb.stop_lt hbm hc hbc
      omega
  · intro hn
    obtain ⟨b, hbm, htag | hholds⟩ := hb.covers ht h.mem h.isClosed
    · exact ⟨b, hbm, htag⟩
    · exfalso
      have hbefore : b.tag.start < tag.start :=
        Nat.lt_of_lt_of_le (hb.le_start b hbm).2 hholds.1
      cases h with
      | setup stands closed setup first =>
        have hchosen : Chosen text tags tag true := .setup stands closed setup first
        refine hn ⟨b, hbm, tag, hchosen.mem, hholds, closed, setup, fun c hc hcs => ?_⟩
        have hle := hchosen.start_le ht (hb.tag_mem ht c hc) (hb.endsFirst c hc).isClosed
          fun _ => hcs
        omega
      | plain stands closed first noSetup =>
        have hchosen : Chosen text tags tag false := .plain stands closed first noSetup
        have hle := hchosen.start_le ht (hb.tag_mem ht b hbm) (hb.endsFirst b hbm).isClosed
          fun hf => nomatch hf
        omega

/-- Read from left to right, a text has its blocks in one way, and none exactly if no block is
found. The tag whose block is found opens one of them, and what is found is the text of that block,
exactly if no setup tag that a text holds comes before the setup blocks. -/
theorem find?_reads_iff (ht : Successive text 0 tags) :
    ∃ blocks, Reads text 0 blocks ∧ (∀ other, Reads text 0 other → other = blocks) ∧
      (find? text = none ↔ blocks = []) ∧
      ∀ block, find? text = some block →
        ∃ tag, Chosen text tags tag block.isSetup ∧ Cuts text tag block ∧
          ((∃ b ∈ blocks, b.tag = tag ∧ b.body text = block.content) ↔
            ¬ Shadowed text tags blocks) := by
  obtain rfl := ht.unique (successive_openTags text)
  obtain ⟨blocks, hb⟩ := exists_reads text 0
  refine ⟨blocks, hb, fun other ho => ho.unique hb, ?_, ?_⟩
  · rw [find?_eq_none_iff, List.eq_nil_iff_forall_not_mem]
    constructor
    · intro hnone b hbm
      exact hnone _ (hb.tag_mem ht b hbm) (hb.endsFirst b hbm).isClosed
    · intro hnil tag hm hclosed
      obtain ⟨b, hbm, -⟩ := hb.covers ht hm hclosed
      exact hnil b hbm
  · intro block hblock
    obtain ⟨tag, hchosen, hofTag⟩ := exists_chosen hblock
    refine ⟨tag, hchosen, cuts_of_ofTag hchosen.mem hofTag, ?_⟩
    rw [← hchosen.read_iff ht hb]
    constructor
    · rintro ⟨b, hbm, htag, -⟩
      exact ⟨b, hbm, htag⟩
    · rintro ⟨b, hbm, rfl⟩
      exact ⟨b, hbm, rfl, (hb.endsFirst b hbm).body_eq hofTag⟩

/-- A text that is one block. -/
theorem Reads.whole {attributes content : List Char} (ha : attributesAt text = some attributes)
    (hcut : Text.cutAt "</script>".toList (text.drop (tagText attributes).length) =
      some (content, [])) :
    Reads text 0 [⟨⟨(tagText attributes).length, attributes⟩,
      (tagText attributes).length + content.length⟩] := by
  have htag : TagAt text 0 attributes := attributesAt_eq_some_iff.mp ha
  obtain ⟨hrest, -⟩ := Text.cutAt_eq_some (by simp) hcut
  have hstart : OpenTag.start ⟨(tagText attributes).length, attributes⟩ = 0 := by
    simp [OpenTag.start]
  refine .next ⟨Nat.zero_le _, ?_, ?_, ?_⟩ (.of_cutAt hcut) (.done ?_)
  · rw [hstart, Nat.zero_add]
  · rwa [hstart]
  · intro s a _ hs
    rw [hstart] at hs
    exact absurd hs (Nat.not_lt_zero s)
  · -- Nothing follows the closing tag.
    rintro s a hs ⟨-, hmore⟩
    have hlen := congrArg List.length hrest
    have hmorelen := hmore.length_le
    simp only [RawBlock.next] at hs
    rw [List.length_drop, length_tagText] at hmorelen
    simp only [List.length_drop, List.length_append, List.length_nil, String.length_toList] at hlen
    omega

/-- A setup block may mention setup tags. -/
theorem find?_reads_of_setup :
    let text := "<script setup>'<script setup>'</script>".toList
    ∃ tags blocks block, Successive text 0 tags ∧ tags.length = 2 ∧ Reads text 0 blocks ∧
      find? text = some block ∧ ∃ b ∈ blocks, b.body text = block.content := by
  intro text
  have htags := successive_openTags text
  have hreads : Reads text 0 _ :=
    .whole (by decide +kernel : attributesAt text = some " setup".toList)
      (by decide +kernel : _ = some ("'<script setup>'".toList, []))
  have hfind : find? text = some ⟨"'<script setup>'".toList, .javascript, 1, true⟩ := by
    decide +kernel
  obtain ⟨blocks, hblocks, hunique, -, hfound⟩ := find?_reads_iff htags
  obtain rfl := hunique _ hreads
  obtain ⟨tag, -, -, hiff⟩ := hfound _ hfind
  have hsetup : HasSetup true " setup".toList := marksSetup_iff.mp (by decide +kernel)
  obtain ⟨b, hb, -, hbody⟩ := hiff.mpr (by
    rintro ⟨b, hb, t, -, -, -, -, hlater⟩
    obtain rfl := List.mem_singleton.mp hb
    exact absurd (hlater _ hb hsetup) (Nat.lt_irrefl _))
  exact ⟨_, _, _, htags, by decide +kernel, hreads, hfind, b, hb, hbody⟩

/-- A plain block that mentions a setup tag: the block that is found is none that is read. -/
theorem find?_of_mentioned_tag :
    let text := "<script>'<script setup>'</script>".toList
    ∃ block, find? text = some block ∧ block.isSetup = true ∧
      ∀ blocks, Reads text 0 blocks → ∀ b ∈ blocks,
        b.body text ≠ block.content ∧ ¬ HasSetup true b.tag.attributes := by
  intro text
  have hreads : Reads text 0 _ :=
    .whole (by decide +kernel : attributesAt text = some [])
      (by decide +kernel : _ = some ("'<script setup>'".toList, []))
  have hfind : find? text = some ⟨"'".toList, .javascript, 1, true⟩ := by decide +kernel
  refine ⟨_, hfind, rfl, ?_⟩
  intro blocks hblocks b hb
  obtain rfl := hblocks.unique hreads
  obtain rfl := List.mem_singleton.mp hb
  constructor
  · decide +kernel
  · rw [← marksSetup_iff]
    decide

end ScriptBlock

end Exports
