import Exports.Table
import Mathlib.Data.List.Nodup

namespace Exports.Table

variable {α β : Type}

/-- No key has two values. -/
def Distinct (t : Table α β) : Prop := (t.entries.map Prod.fst).Nodup

namespace Distinct

variable {t : Table α β}

theorem eq_of_mem (h : t.Distinct) {d e : α × β} (hd : d ∈ t.entries) (he : e ∈ t.entries)
    (hkey : d.1 = e.1) : d = e :=
  List.inj_on_of_nodup_map h hd he hkey

theorem nodup (h : t.Distinct) : t.entries.Nodup := List.Nodup.of_map Prod.fst h

theorem keep (h : t.Distinct) (may : α → Bool) : (t.keep may).Distinct :=
  List.Nodup.sublist (List.filter_sublist.map Prod.fst) h

end Distinct

variable [DecidableEq α]

@[simp]
theorem get?_empty (key : α) : ({} : Table α β).get? key = none := rfl

/-- An element that replaces those of its key is found under it. -/
theorem find?_replace_self {γ : Type} (keyOf : γ → α) (new : γ) (es : List γ)
    (hm : (es.find? (keyOf · = keyOf new)).isSome) :
    (es.map fun e => if keyOf e = keyOf new then new else e).find? (keyOf · = keyOf new) =
      some new := by
  induction es with
  | nil => simp at hm
  | cons e rest ih =>
    by_cases he : keyOf e = keyOf new
    · simp [he]
    · have hm : (rest.find? (keyOf · = keyOf new)).isSome := by simpa [he] using hm
      simpa [he] using ih hm

/-- Replacing the elements of one key leaves the others alone. -/
theorem find?_replace_ne {γ : Type} (keyOf : γ → α) (new : γ) (es : List γ) {j : α}
    (hj : j ≠ keyOf new) :
    (es.map fun e => if keyOf e = keyOf new then new else e).find? (keyOf · = j) =
      es.find? (keyOf · = j) := by
  induction es with
  | nil => rfl
  | cons e rest ih =>
    by_cases he : keyOf e = keyOf new
    · simpa [he, Ne.symm hj] using ih
    · by_cases hf : keyOf e = j
      · simp [hf, hj]
      · simpa [he, hf] using ih

theorem get?_insert (t : Table α β) (key j : α) (value : β) :
    (t.insert key value).get? j = if j = key then some value else t.get? j := by
  unfold insert
  split
  · rename_i hc
    have hm : (t.entries.find? (·.1 = key)).isSome := by simpa [contains, get?] using hc
    by_cases hj : j = key
    · simp [get?, hj, find?_replace_self Prod.fst (key, value) t.entries hm]
    · simp [get?, hj, find?_replace_ne Prod.fst (key, value) t.entries hj]
  · rename_i hc
    have hn : t.get? key = none := by simpa [contains] using hc
    by_cases hj : j = key
    · subst hj
      have hf : t.entries.find? (·.1 = j) = none := by simpa [get?] using hn
      simp [get?, List.find?_append, hf]
    · simp [get?, List.find?_append, Ne.symm hj, hj]

theorem get?_keep (t : Table α β) (may : α → Bool) (j : α) :
    (t.keep may).get? j = if may j then t.get? j else none := by
  unfold get? keep
  rw [List.find?_filter]
  by_cases hj : may j
  · have hp : (fun e : α × β => may e.1 && decide (e.1 = j)) = fun e => decide (e.1 = j) := by
      funext e
      by_cases he : e.1 = j <;> simp [he, hj]
    simp [hj, hp]
  · have hp : (fun e : α × β => may e.1 && decide (e.1 = j)) = fun _ => false := by
      funext e
      by_cases he : e.1 = j <;> simp [he, hj]
    simp [hj, hp]

theorem get?_erase (t : Table α β) (key j : α) :
    (t.erase key).get? j = if j = key then none else t.get? j := by
  unfold erase
  rw [get?_keep]
  by_cases hj : j = key <;> simp [hj]

/-- What is left after a cut was there before. -/
theorem get?_of_keep {t : Table α β} {may : α → Bool} {j : α} {value : β}
    (h : (t.keep may).get? j = some value) : t.get? j = some value := by
  rw [get?_keep] at h
  split at h
  · exact h
  · cases h

theorem get?_of_erase {t : Table α β} {key j : α} {value : β}
    (h : (t.erase key).get? j = some value) : t.get? j = some value :=
  get?_of_keep h

variable {t : Table α β} {key : α} {value : β} {e : α × β}

theorem contains_iff : t.contains key = true ↔ key ∈ t.entries.map Prod.fst := by
  simp [contains, get?]

theorem get?_of_not_mem (h : key ∉ t.entries.map Prod.fst) : t.get? key = none := by
  have hc : ¬ t.contains key = true := by rwa [contains_iff]
  simpa [contains] using hc

theorem entries_insert_of_not_mem (h : key ∉ t.entries.map Prod.fst) :
    (t.insert key value).entries = t.entries ++ [(key, value)] := by
  rw [insert, if_neg (by rwa [contains_iff])]

theorem mem_insert :
    e ∈ (t.insert key value).entries ↔ e = (key, value) ∨ e ∈ t.entries ∧ e.1 ≠ key := by
  unfold insert
  split
  · rename_i hc
    obtain ⟨old, hold, hkey⟩ := List.mem_map.mp (contains_iff.mp hc)
    rw [List.mem_map]
    constructor
    · rintro ⟨a, ha, rfl⟩
      by_cases hk : a.1 = key
      · simp [hk]
      · simp [hk, ha]
    · rintro (rfl | ⟨he, hk⟩)
      · exact ⟨old, hold, by simp [hkey]⟩
      · exact ⟨e, he, by simp [hk]⟩
  · rename_i hc
    rw [contains_iff] at hc
    rw [List.mem_append, List.mem_singleton]
    constructor
    · rintro (he | rfl)
      · refine .inr ⟨he, ?_⟩
        rintro rfl
        exact hc (List.mem_map_of_mem he)
      · exact .inl rfl
    · rintro (rfl | ⟨he, -⟩)
      · exact .inr rfl
      · exact .inl he

theorem mem_erase : e ∈ (t.erase key).entries ↔ e ∈ t.entries ∧ e.1 ≠ key := by
  simp [erase, keep]

namespace Distinct

theorem erase (h : t.Distinct) (key : α) : (t.erase key).Distinct := h.keep _

theorem insert (h : t.Distinct) (key : α) (value : β) : (t.insert key value).Distinct := by
  unfold Table.insert
  split
  · have hkeys : (t.entries.map fun e => if e.1 = key then (key, value) else e).map Prod.fst =
        t.entries.map Prod.fst := by
      rw [List.map_map]
      apply List.map_congr_left
      intro e _
      by_cases hk : e.1 = key <;> simp [hk]
    rw [Distinct, hkeys]
    exact h
  · rename_i hc
    rw [contains_iff] at hc
    rw [Distinct, List.map_append, List.map_singleton]
    apply List.Nodup.append h (List.nodup_singleton key)
    simpa using hc

/-- An insertion replaces what the key had, if anything. -/
theorem insert_perm (h : t.Distinct) (key : α) (value : β) :
    (t.insert key value).entries.Perm ((key, value) :: (t.erase key).entries) := by
  have hnew : (key, value) ∉ (t.erase key).entries := by simp [mem_erase]
  rw [List.perm_ext_iff_of_nodup (h.insert key value).nodup
    (List.nodup_cons.mpr ⟨hnew, (h.erase key).nodup⟩)]
  intro e
  rw [mem_insert, List.mem_cons, mem_erase]

/-- The order of the entries does not matter to an insertion. -/
theorem insert_congr {t' : Table α β} (h : t.Distinct) (hp : t'.entries.Perm t.entries) (key : α)
    (value : β) : (t'.insert key value).entries.Perm (t.insert key value).entries := by
  have h' : t'.Distinct := (hp.map Prod.fst).nodup_iff.mpr h
  have herase : (t'.erase key).entries.Perm (t.erase key).entries := hp.filter _
  exact ((h'.insert_perm key value).trans (herase.cons _)).trans (h.insert_perm key value).symm

end Distinct

end Exports.Table
