import Exports.Proofs.ScriptTags

namespace Exports

namespace Text

def row (text : List Char) (i : Nat) : Nat := (text.take i).count '\n'

theorem row_append (front rest : List Char) (i : Nat) :
    row (front ++ rest) (front.length + i) = front.count '\n' + row rest i := by
  rw [row, List.take_length_add_append, List.count_append, row]

theorem row_append_left {front : List Char} {i : Nat} (hi : i ≤ front.length) (rest : List Char) :
    row (front ++ rest) i = row front i := by
  rw [row, List.take_append_of_le_length hi, row]

theorem lineCount_le (text : List Char) : lineCount text ≤ text.count '\n' + 1 := by
  rw [lineCount]
  split
  · exact Nat.le_succ _
  · split <;> omega

theorem lineCount_concat {c : Char} (hc : c ≠ '\n') (front : List Char) :
    lineCount (front ++ [c]) = (front ++ [c]).count '\n' + 1 := by
  rw [lineCount, List.getLast?_concat]
  exact congrArg _ (if_neg hc)

/-- The line of a character that ends none is counted, whatever follows it. -/
theorem count_lt_lineCount {c : Char} (hc : c ≠ '\n') (front rest : List Char) :
    front.count '\n' < lineCount (front ++ c :: rest) := by
  have hfront (more : List Char) : front.count '\n' ≤ (front ++ more).count '\n' :=
    (List.sublist_append_left front more).count_le _
  rcases List.eq_nil_or_concat rest with rfl | ⟨middle, last, rfl⟩
  · rw [lineCount_concat hc]
    exact Nat.lt_succ_of_le (hfront [c])
  · have hall : front ++ c :: middle.concat last = (front ++ c :: middle) ++ [last] := by simp
    have hmiddle := hfront (c :: middle)
    rw [hall]
    by_cases hl : last = '\n'
    · rw [hl, lineCount, List.count_append, List.count_singleton_self]
      omega
    · rw [lineCount_concat hl, List.count_append]
      omega

end Text

namespace ScriptBlock

variable {text : List Char} {tags : List OpenTag} {tag : OpenTag} {block : ScriptBlock}

/-- A closing tag follows. -/
def IsClosed (text : List Char) (tag : OpenTag) : Prop :=
  "</script>".toList <:+: text.drop tag.contentStart

/-- The tag whose block is taken: the first closed one with `setup`, or the first closed one when
none has it. -/
inductive Chosen (text : List Char) (tags : List OpenTag) (tag : OpenTag) : Bool → Prop where
  | setup {before after : List OpenTag} (stands : tags = before ++ tag :: after)
      (closed : IsClosed text tag) (setup : HasSetup true tag.attributes)
      (first : ∀ t ∈ before, IsClosed text t → ¬ HasSetup true t.attributes) :
      Chosen text tags tag true
  | plain {before after : List OpenTag} (stands : tags = before ++ tag :: after)
      (closed : IsClosed text tag) (first : ∀ t ∈ before, ¬ IsClosed text t)
      (noSetup : ∀ t ∈ tags, IsClosed text t → ¬ HasSetup true t.attributes) :
      Chosen text tags tag false

/-- A block is the text from a tag to the first closing tag, and knows its row. -/
structure Cuts (text : List Char) (tag : OpenTag) (block : ScriptBlock) : Prop where
  parts : ∃ pre post, text =
      pre ++ tagText tag.attributes ++ block.content ++ "</script>".toList ++ post ∧
    (pre ++ tagText tag.attributes).length = tag.contentStart
  inside : ¬ "</script>".toList <:+: block.content
  firstLine : 1 ≤ block.firstLine
  rows : ∀ i ≤ block.content.length,
    Text.row text (tag.contentStart + i) = block.firstLine - 1 + Text.row block.content i

theorem Chosen.mem {isSetup : Bool} (h : Chosen text tags tag isSetup) : tag ∈ tags := by
  cases h with
  | setup stands => exact stands ▸ List.mem_append_right _ List.mem_cons_self
  | plain stands => exact stands ▸ List.mem_append_right _ List.mem_cons_self

theorem ofTag_eq_none_iff : ofTag text tag = none ↔ ¬ IsClosed text tag := by
  rw [ofTag, Option.map_eq_none_iff, Text.cutAt_eq_none_iff, IsClosed]

theorem isClosed_of_ofTag (h : ofTag text tag = some block) : IsClosed text tag := by
  by_contra hn
  rw [ofTag_eq_none_iff.mpr hn] at h
  cases h

theorem isSetup_iff (h : ofTag text tag = some block) :
    block.isSetup = true ↔ HasSetup true tag.attributes := by
  obtain ⟨_, -, rfl⟩ := Option.map_eq_some_iff.mp h
  exact marksSetup_iff

theorem any_isSetup_iff :
    (ofTag text tag).any (·.isSetup) = true ↔ IsClosed text tag ∧ HasSetup true tag.attributes := by
  cases h : ofTag text tag with
  | none => simp [ofTag_eq_none_iff.mp h]
  | some block =>
    rw [Option.any_some, isSetup_iff h, and_iff_right (isClosed_of_ofTag h)]

theorem find?_eq_none_iff :
    find? text = none ↔ ∀ tag ∈ openTags text, ¬ IsClosed text tag := by
  have hblocks : find? text = none ↔ (openTags text).filterMap (ofTag text) = [] := by
    rw [find?, Option.or_eq_none_iff, List.head?_eq_none_iff]
    refine and_iff_right_of_imp fun h => ?_
    rw [h]
    rfl
  simp only [hblocks, List.filterMap_eq_nil_iff, ofTag_eq_none_iff]

theorem exists_chosen (h : find? text = some block) :
    ∃ tag, Chosen text (openTags text) tag block.isSetup ∧ ofTag text tag = some block := by
  rw [find?, Option.or_eq_some_iff] at h
  rcases h with h | ⟨hnone, h⟩
  · have hs : block.isSetup = true := List.find?_some h
    rw [List.find?_filterMap] at h
    obtain ⟨tag, ht, hb⟩ := Option.bind_eq_some_iff.mp h
    obtain ⟨-, before, after, htags, hbefore⟩ := List.find?_eq_some_iff_append.mp ht
    refine ⟨tag, ?_, hb⟩
    rw [hs]
    refine .setup htags (isClosed_of_ofTag hb) ((isSetup_iff hb).mp hs) fun t hm hc hset => ?_
    have hno := hbefore t hm
    rw [any_isSetup_iff.mpr ⟨hc, hset⟩] at hno
    cases hno
  · rw [List.head?_filterMap] at h
    obtain ⟨before, tag, after, htags, hb, hbefore⟩ := List.findSome?_eq_some_iff.mp h
    have hplain : ∀ t ∈ openTags text, IsClosed text t → ¬ HasSetup true t.attributes := by
      intro t hm hc hset
      obtain ⟨other, ho, hs⟩ := (Option.any_eq_true ..).mp (any_isSetup_iff.mpr ⟨hc, hset⟩)
      exact List.find?_eq_none.mp hnone other (List.mem_filterMap.mpr ⟨t, hm, ho⟩) hs
    have hs : block.isSetup = false := by
      rw [← Bool.not_eq_true, isSetup_iff hb]
      exact hplain tag (htags ▸ List.mem_append_right _ List.mem_cons_self) (isClosed_of_ofTag hb)
    refine ⟨tag, ?_, hb⟩
    rw [hs]
    exact .plain htags (isClosed_of_ofTag hb)
      (fun t hm => ofTag_eq_none_iff.mp (hbefore t hm)) hplain

theorem lineCount_tagText (pre attributes : List Char) :
    Text.lineCount (pre ++ tagText attributes) =
      (pre ++ tagText attributes).count '\n' + 1 := by
  delta tagText
  rw [← List.append_assoc, Text.lineCount_concat (by decide)]

theorem cuts_of_ofTag (hm : tag ∈ openTags text) (h : ofTag text tag = some block) :
    Cuts text tag block := by
  obtain ⟨pre, rest, htext, hstart⟩ := (successive_openTags text).exists_eq hm
  obtain ⟨⟨content, post⟩, hcut, rfl⟩ := Option.map_eq_some_iff.mp h
  have hdrop : text.drop tag.contentStart = rest := by rw [htext, ← hstart, List.drop_left]
  have htake : text.take tag.contentStart = pre ++ tagText tag.attributes := by
    rw [htext, ← hstart, List.take_left]
  obtain ⟨hrest, hinside⟩ := Text.cutAt_eq_some (by simp) hcut
  rw [hdrop] at hrest
  have hline : max 1 (Text.lineCount (text.take tag.contentStart)) =
      (pre ++ tagText tag.attributes).count '\n' + 1 := by
    rw [htake, lineCount_tagText]
    omega
  refine ⟨⟨pre, post, ?_, hstart⟩, hinside, Nat.le_max_left .., fun i hi => ?_⟩
  · rw [htext, hrest]
    simp only [List.append_assoc]
  · simp only [hline, Nat.add_sub_cancel]
    rw [htext, ← hstart, Text.row_append, hrest, List.append_assoc, Text.row_append_left hi]

/-- The content of a block ends before the last line does. -/
theorem Cuts.lines_le (h : Cuts text tag block) :
    block.firstLine - 1 + max 1 (Text.lineCount block.content) ≤ Text.lineCount text := by
  obtain ⟨pre, post, htext, hstart⟩ := h.parts
  have hclose : "</script>".toList ++ post = '<' :: ("/script>".toList ++ post) := by simp
  have hfront : text.take (tag.contentStart + block.content.length) =
      pre ++ tagText tag.attributes ++ block.content := by
    rw [htext, List.append_assoc, ← hstart, ← List.length_append, List.take_left]
  have hrows := h.rows _ (Nat.le_refl _)
  rw [Text.row, hfront, Text.row, List.take_length] at hrows
  have hlast : (pre ++ tagText tag.attributes ++ block.content).count '\n' <
      Text.lineCount text := by
    rw [htext, List.append_assoc (_ ++ block.content), hclose]
    exact Text.count_lt_lineCount (by decide) ..
  have hcontent := Text.lineCount_le block.content
  omega

/-- A file with a setup block is one component, on the lines of the block. -/
theorem componentEntities_of_isSetup {file : String} (h : find? file.toList = some block)
    (hs : block.isSetup = true) (m : Module) :
    m.componentEntities (.ofContent .vue file) =
      [m.componentEntity file (Module.setupSpan (.ofBlock block)) "setup"] := by
  have hparsed : ParsedSource.ofContent .vue file =
      .ofScript .vue block.language file block.content (some (.ofBlock block)) := by
    rw [ParsedSource.ofContent, h]
    rfl
  simp [Module.componentEntities, hparsed, ParsedSource.ofScript, BlockFacts.ofBlock, hs]

/-- A file has no block when none of its tags is closed. Otherwise the block is cut out at the
chosen tag, and the entity that a setup block makes stands on lines of the file. -/
theorem find?_cuts {file : String} (h : Successive file.toList 0 tags) :
    (find? file.toList = none ↔ ∀ tag ∈ tags, ¬ IsClosed file.toList tag) ∧
    ∀ block, find? file.toList = some block →
      (∃ tag, Chosen file.toList tags tag block.isSetup ∧ Cuts file.toList tag block) ∧
      (block.isSetup = true → ∀ m : Module, ∃ x,
        m.componentEntities (.ofContent .vue file) = [x] ∧ x.span.first = block.firstLine ∧
          x.span.first ≤ x.span.last ∧ x.span.last ≤ Text.lineCount file.toList) := by
  obtain rfl := h.unique (successive_openTags file.toList)
  refine ⟨find?_eq_none_iff, fun block hb => ?_⟩
  obtain ⟨tag, hchosen, ht⟩ := exists_chosen hb
  have hcuts := cuts_of_ofTag hchosen.mem ht
  refine ⟨⟨tag, hchosen, hcuts⟩, fun hs m => ⟨_, componentEntities_of_isSetup hb hs m, ?_⟩⟩
  have hlines := hcuts.lines_le
  have hfirst := hcuts.firstLine
  simp only [Module.componentEntity, Module.setupSpan, BlockFacts.ofBlock]
  omega

/-- The setup block comes second, its tag runs over two lines, and a third tag is never closed. -/
theorem find?_cuts_of_threeTags :
    let file := "<script>\na\n</script>\n<script\n setup>b\n</script>\n<script setup>"
    let block : ScriptBlock := ⟨"b\n".toList, .javascript, 5, true⟩
    find? file.toList = some block ∧
      (∃ tag, Chosen file.toList (openTags file.toList) tag true ∧ Cuts file.toList tag block) ∧
      ∀ m : Module, ∃ x, m.componentEntities (.ofContent .vue file) = [x] ∧ x.span.first = 5 ∧
        x.span.first ≤ x.span.last ∧ x.span.last ≤ Text.lineCount file.toList := by
  intro file block
  have hfind : find? file.toList = some block := by decide +kernel
  obtain ⟨htag, hspan⟩ := (find?_cuts (successive_openTags file.toList)).2 block hfind
  exact ⟨hfind, htag, hspan rfl⟩

end ScriptBlock

end Exports
