import Exports.Edit
import Mathlib.Data.List.Infix
import Mathlib.Data.Nat.SuccPred
import Mathlib.Data.Prod.Lex

namespace Exports

theorem toList_loop_eq (bytes : ByteArray) (i : Nat) (front : List UInt8) :
    ByteArray.toList.loop bytes i front = front.reverse ++ bytes.data.toList.drop i := by
  fun_induction ByteArray.toList.loop bytes i front with
  | case1 i front h ih =>
    have hi : i < bytes.data.toList.length := by simpa using h
    rw [ih, List.drop_eq_getElem_cons hi]
    simp [ByteArray.get!, h]
  | case2 i front h =>
    have hend : bytes.data.toList.drop i = [] := by
      apply List.drop_of_length_le
      simpa using Nat.le_of_not_lt h
    rw [hend, List.append_nil]

/-- Texts with the same bytes are one. -/
theorem utf8_toList_inj {s t : String} : s.toUTF8.toList = t.toUTF8.toList ↔ s = t := by
  rw [ByteArray.toList, ByteArray.toList, toList_loop_eq, toList_loop_eq, List.drop_zero,
    List.drop_zero, List.append_cancel_left_eq, Array.toList_inj, ← ByteArray.ext_iff]
  exact String.toByteArray_inj

namespace Edit

section CommonLength

variable {α : Type} [DecidableEq α]

theorem commonLength_le_left (as bs : List α) : commonLength as bs ≤ as.length := by
  fun_induction commonLength as bs with
  | case1 as b bs ih => simpa using ih
  | case2 | case3 => exact Nat.zero_le _

theorem commonLength_comm (as bs : List α) : commonLength as bs = commonLength bs as := by
  fun_induction commonLength as bs with
  | case1 as b bs ih => rw [commonLength, if_pos rfl, ih]
  | case2 a as b bs hne => rw [commonLength, if_neg (Ne.symm hne)]
  | case3 as bs hcons =>
    cases bs with
    | nil => rfl
    | cons b bs =>
      cases as with
      | nil => rfl
      | cons a as => exact absurd rfl (hcons a as b bs rfl)

theorem take_commonLength (as bs : List α) :
    as.take (commonLength as bs) = bs.take (commonLength as bs) := by
  fun_induction commonLength as bs with
  | case1 as b bs ih => rw [List.take_succ_cons, List.take_succ_cons, ih]
  | case2 | case3 => rfl

/-- No common front is longer. -/
theorem length_le_commonLength {front as bs : List α} (ha : front <+: as) (hb : front <+: bs) :
    front.length ≤ commonLength as bs := by
  fun_induction commonLength as bs generalizing front with
  | case1 as b bs ih =>
    cases front with
    | nil => exact Nat.zero_le _
    | cons c front =>
      rw [List.cons_prefix_cons] at ha hb
      exact Nat.succ_le_succ (ih ha.2 hb.2)
  | case2 a as b bs hne =>
    cases front with
    | nil => exact Nat.le_refl 0
    | cons c front =>
      rw [List.cons_prefix_cons] at ha hb
      exact absurd (ha.1.symm.trans hb.1) hne
  | case3 as bs hcons =>
    cases front with
    | nil => exact Nat.le_refl 0
    | cons c front =>
      obtain ⟨as', rfl⟩ := ha
      obtain ⟨bs', rfl⟩ := hb
      exact absurd rfl (hcons c _ c _ rfl)

/-- The longest common tail, as the front of what is reversed. -/
theorem drop_commonLength_reverse (as bs : List α) :
    as.drop (as.length - commonLength as.reverse bs.reverse) =
      bs.drop (bs.length - commonLength as.reverse bs.reverse) := by
  have h := take_commonLength as.reverse bs.reverse
  rwa [List.take_reverse, List.take_reverse, List.reverse_inj] at h

theorem length_le_commonLength_reverse {tail as bs : List α} (ha : tail <:+ as)
    (hb : tail <:+ bs) : tail.length ≤ commonLength as.reverse bs.reverse := by
  have hlength : tail.reverse.length = tail.length := List.length_reverse
  rw [← hlength]
  exact length_le_commonLength ( List.reverse_prefix.mpr ha) ( List.reverse_prefix.mpr hb)

theorem commonLength_self (as : List α) : commonLength as as = as.length :=
  Nat.le_antisymm (commonLength_le_left as as)
    (length_le_commonLength (List.prefix_refl as) (List.prefix_refl as))

end CommonLength

/-- An edit makes the new text of the old one, and keeps as much of it as it can. -/
structure Patches (e : Edit) (old new : List UInt8) : Prop where
  start_le_oldEnd : e.start ≤ e.oldEnd
  oldEnd_le : e.oldEnd ≤ old.length
  start_le_newEnd : e.start ≤ e.newEnd
  newEnd_le : e.newEnd ≤ new.length
  front : old.take e.start = new.take e.start
  tail : old.drop e.oldEnd = new.drop e.newEnd
  replaced : old.take e.start ++ (new.take e.newEnd).drop e.start ++ old.drop e.oldEnd = new
  longestFront : ∀ front, front <+: old → front <+: new → front.length ≤ e.start
  longestTail : ∀ tail, tail <:+ old.drop e.start → tail <:+ new.drop e.start →
    tail.length ≤ (old.drop e.oldEnd).length

/-- Length of what two texts share after their common front. -/
def tailLength (old new : List UInt8) : Nat :=
  commonLength (old.drop (commonLength old new)).reverse (new.drop (commonLength old new)).reverse

theorem tailLength_le_left (old new : List UInt8) :
    commonLength old new + tailLength old new ≤ old.length := by
  have hfront := commonLength_le_left old new
  have htail := commonLength_le_left (old.drop (commonLength old new)).reverse
    (new.drop (commonLength old new)).reverse
  rw [List.length_reverse, List.length_drop] at htail
  rw [tailLength]
  omega

theorem tailLength_comm (old new : List UInt8) : tailLength old new = tailLength new old := by
  rw [tailLength, commonLength_comm old new, commonLength_comm, tailLength]

theorem tailLength_le_right (old new : List UInt8) :
    commonLength old new + tailLength old new ≤ new.length := by
  rw [commonLength_comm, tailLength_comm]
  exact tailLength_le_left new old

theorem drop_tailLength (old new : List UInt8) :
    old.drop (old.length - tailLength old new) = new.drop (new.length - tailLength old new) := by
  have hold := tailLength_le_left old new
  have hnew := tailLength_le_right old new
  have h := drop_commonLength_reverse (old.drop (commonLength old new))
    (new.drop (commonLength old new))
  rw [List.drop_drop, List.drop_drop, List.length_drop, List.length_drop] at h
  rw [tailLength] at hold hnew ⊢
  convert h using 2 <;> omega

theorem between_patches (old new : List UInt8) : (between old new).Patches old new := by
  have hold := tailLength_le_left old new
  have hnew := tailLength_le_right old new
  have hfront := take_commonLength old new
  have htail := drop_tailLength old new
  refine ⟨?_, Nat.sub_le .., ?_, Nat.sub_le .., hfront, htail, ?_, ?_, ?_⟩
  · change commonLength old new ≤ old.length - tailLength old new
    omega
  · change commonLength old new ≤ new.length - tailLength old new
    omega
  · change old.take (commonLength old new) ++
        (new.take (new.length - tailLength old new)).drop (commonLength old new) ++
      old.drop (old.length - tailLength old new) = new
    have hkept : new.take (commonLength old new) =
        (new.take (new.length - tailLength old new)).take (commonLength old new) := by
      rw [List.take_take, Nat.min_eq_left (by omega)]
    rw [hfront, htail, hkept, List.take_append_drop, List.take_append_drop]
  · intro front ha hb
    exact length_le_commonLength ha hb
  · intro tail ha hb
    have hlength : (old.drop (old.length - tailLength old new)).length = tailLength old new := by
      rw [List.length_drop]
      omega
    exact (length_le_commonLength_reverse ha hb).trans_eq hlength.symm

theorem between_self (bytes : List UInt8) :
    (between bytes bytes).start = bytes.length ∧ (between bytes bytes).oldEnd = bytes.length ∧
      (between bytes bytes).newEnd = bytes.length := by
  have h := tailLength_le_left bytes bytes
  rw [commonLength_self] at h
  have hend : bytes.length - tailLength bytes bytes = bytes.length := by omega
  exact ⟨commonLength_self bytes, hend, hend⟩

/-- An edit that replaces nothing by nothing leaves the text as it is. -/
theorem Patches.eq_of_empty {e : Edit} {old new : List UInt8} (h : e.Patches old new)
    (ho : e.start = e.oldEnd) (hn : e.start = e.newEnd) : old = new := by
  have hr := h.replaced
  rw [← ho, ← hn, List.drop_take_self, List.append_nil, List.take_append_drop] at hr
  exact hr

end Edit

/-- A point is the place of an offset: it counts the line breaks before, and the bytes since the
last of them. -/
structure Point.Locates (p : Point) (bytes : List UInt8) (offset : Nat) : Prop where
  row : p.row = (bytes.take offset).count Edit.newline
  column_le : p.column ≤ offset
  line : Edit.newline ∉ (bytes.take offset).drop (offset - p.column)
  lineStart : p.column = offset ∨ bytes[offset - p.column - 1]? = some Edit.newline

namespace Point

/-- Rows come first, then columns. -/
def rank (p : Point) : ℕ ×ₗ ℕ := toLex (p.row, p.column)

/-- The point behind one more byte. -/
def after (p : Point) (byte : UInt8) : Point :=
  if byte = Edit.newline then ⟨p.row + 1, 0⟩ else ⟨p.row, p.column + 1⟩

theorem rank_lt_after (p : Point) (byte : UInt8) : p.rank < (p.after byte).rank := by
  unfold after rank
  rw [Prod.Lex.toLex_lt_toLex]
  split
  · exact .inl (Nat.lt_succ_self p.row)
  · exact .inr ⟨rfl, Nat.lt_succ_self p.column⟩

variable {p : Point} {bytes : List UInt8} {i : Nat}

theorem Locates.after (hp : p.Locates bytes i) (h : i < bytes.length) :
    (p.after bytes[i]).Locates bytes (i + 1) := by
  have htake := List.take_succ_eq_append_getElem h
  have hlength : (bytes.take i).length = i := by simpa using Nat.le_of_lt h
  unfold Point.after
  split
  · rename_i hb
    constructor
    · rw [htake, List.count_append, ← hp.row]
      simp [hb]
    · exact Nat.zero_le _
    · rw [Nat.sub_zero, List.drop_take_self]
      exact List.not_mem_nil
    · exact .inr (List.getElem?_eq_some_iff.mpr ⟨h, hb⟩)
  · rename_i hb
    have hle := hp.column_le
    constructor
    · rw [htake, List.count_append, ← hp.row]
      simp [hb]
    · exact Nat.succ_le_succ hp.column_le
    · have hdrop : (bytes.take i ++ [bytes[i]]).drop (i - p.column) =
          (bytes.take i).drop (i - p.column) ++ [bytes[i]] := by
        rw [List.drop_append_of_le_length (by omega)]
      rw [htake, Nat.add_sub_add_right, hdrop]
      simp only [List.mem_append, List.mem_singleton, not_or]
      exact ⟨hp.line, fun he => hb he.symm⟩
    · rcases hp.lineStart with hs | hs
      · exact .inl (congrArg (· + 1) hs)
      · exact .inr (by simpa using hs)

end Point

namespace Edit

theorem pointAt_zero (bytes : List UInt8) : pointAt bytes 0 = ⟨0, 0⟩ := rfl

/-- Byte by byte, the points of a text come one behind the other. -/
theorem pointAt_succ {bytes : List UInt8} {i : Nat} (h : i < bytes.length) :
    pointAt bytes (i + 1) = (pointAt bytes i).after bytes[i] := by
  have htake := List.take_succ_eq_append_getElem h
  simp only [pointAt, htake, List.count_append, List.reverse_append, List.reverse_singleton,
    List.singleton_append, Point.after]
  by_cases hb : bytes[i] = newline
  · simp [hb]
  · simp [hb]

theorem locates_pointAt {bytes : List UInt8} {i : Nat} (h : i ≤ bytes.length) :
    (pointAt bytes i).Locates bytes i := by
  induction i with
  | zero => exact ⟨by simp [pointAt_zero], Nat.zero_le _, by simp, .inl rfl⟩
  | succ i ih =>
    rw [pointAt_succ h]
    exact (ih (Nat.le_of_lt h)).after h

/-- In one text, points come in the order of their offsets. -/
theorem strictMonoOn_pointAt (bytes : List UInt8) :
    StrictMonoOn (fun i => (pointAt bytes i).rank) (Set.Iic bytes.length) := by
  apply strictMonoOn_of_lt_add_one Set.ordConnected_Iic
  intro i _ _ hi
  simp only [pointAt_succ hi]
  exact Point.rank_lt_after ..

theorem pointAt_congr {old new : List UInt8} {i : Nat} (h : old.take i = new.take i) :
    pointAt old i = pointAt new i := by
  simp only [pointAt, h]

/-- The points of an edit are the places of its offsets, each in its text, and they come in the
order of the offsets. The start is the same place in both texts. -/
structure Placed (e : Edit) (old new : List UInt8) : Prop where
  start : e.startPoint.Locates old e.start
  startNew : e.startPoint.Locates new e.start
  oldEnd : e.oldEndPoint.Locates old e.oldEnd
  newEnd : e.newEndPoint.Locates new e.newEnd
  order : cmp e.startPoint.rank e.oldEndPoint.rank = cmp e.start e.oldEnd
  orderNew : cmp e.startPoint.rank e.newEndPoint.rank = cmp e.start e.newEnd

theorem between_placed (old new : List UInt8) : (between old new).Placed old new := by
  have h := between_patches old new
  have hstart : (between old new).startPoint = pointAt new (between old new).start :=
    pointAt_congr h.front
  have hold : (between old new).start ≤ old.length := h.start_le_oldEnd.trans h.oldEnd_le
  have hnew : (between old new).start ≤ new.length := h.start_le_newEnd.trans h.newEnd_le
  refine ⟨locates_pointAt hold, hstart ▸ locates_pointAt hnew, locates_pointAt h.oldEnd_le,
    locates_pointAt h.newEnd_le, ?_, ?_⟩
  · exact (strictMonoOn_pointAt old).cmp_map_eq hold h.oldEnd_le
  · rw [hstart]
    exact (strictMonoOn_pointAt new).cmp_map_eq hnew h.newEnd_le

/-- The edit between two texts makes the one of the other, with the least stretch between what they
share before and after, and its points are the places of its offsets. It is empty for one text
only. -/
theorem ofTexts_patches (old new : String) :
    (ofTexts old new).Patches old.toUTF8.toList new.toUTF8.toList ∧
      (ofTexts old new).Placed old.toUTF8.toList new.toUTF8.toList ∧
      ((ofTexts old new).start = (ofTexts old new).oldEnd ∧
          (ofTexts old new).start = (ofTexts old new).newEnd ↔ old = new) := by
  refine ⟨between_patches _ _, between_placed _ _, ?_, ?_⟩
  · rintro ⟨ho, hn⟩
    exact utf8_toList_inj.mp ((between_patches _ _).eq_of_empty ho hn)
  · rintro rfl
    obtain ⟨hs, ho, hn⟩ := between_self old.toUTF8.toList
    exact ⟨hs.trans ho.symm, hs.trans hn.symm⟩

end Edit

end Exports
