import Exports.Text.Bytes

namespace Exports.Text

variable {bytes front rest : Bytes} {b : UInt8} {c : Char} {s t : String}

theorem encode_append (s t : String) : encode (s ++ t) = encode s ++ encode t := by
  simp [encode]

theorem encode_intercalate (parts : List String) :
    encode ("/".intercalate parts) = [slash].intercalate (parts.map encode) := by
  induction parts with
  | nil => rfl
  | cons part rest ih =>
    cases rest with
    | nil => simp
    | cons next rest =>
      have hslash : encode "/" = [slash] := by decide
      rw [String.intercalate_cons_cons, encode_append, encode_append, ih, hslash]
      simp [List.intercalate]

theorem encode_ofList (cs : List Char) :
    encode (String.ofList cs) = cs.flatMap String.utf8EncodeChar := by
  simp [encode]

theorem exists_utf8EncodeChar_cons (c : Char) :
    ∃ first more, String.utf8EncodeChar c = first :: more ∧ more.length = c.utf8Size - 1 := by
  have hlength := String.length_utf8EncodeChar c
  have hpos := c.utf8Size_pos
  cases he : String.utf8EncodeChar c with
  | nil =>
    rw [he, List.length_nil] at hlength
    omega
  | cons first more =>
    rw [he, List.length_cons] at hlength
    exact ⟨first, more, rfl, by omega⟩

/-- The bytes of a character are read as this character, whatever follows. -/
theorem front?_append (c : Char) (rest : Bytes) :
    front? (String.utf8EncodeChar c ++ rest) = some c := by
  have hlength := String.length_utf8EncodeChar c
  have hsize := c.utf8Size_le_four
  have happend : ∀ a b : Bytes, (a ++ b).toByteArray = a.toByteArray ++ b.toByteArray := by simp
  rw [front?, List.take_append, List.take_of_length_le (by omega), happend]
  exact ByteArray.utf8DecodeChar?_utf8EncodeChar_append

theorem exists_of_front? (h : front? bytes = some c) :
    ∃ rest, bytes = String.utf8EncodeChar c ++ rest := by
  obtain ⟨more, hmore⟩ := ByteArray.exists_of_utf8DecodeChar?_eq_some h
  have hdata : bytes.take 4 = String.utf8EncodeChar c ++ more.data.toList := by
    simpa using congrArg (·.data.toList) hmore
  exact ⟨more.data.toList ++ bytes.drop 4,
    by rw [← List.append_assoc, ← hdata, List.take_append_drop]⟩

theorem shownChars_append_char (c : Char) (rest : Bytes) :
    shownChars (String.utf8EncodeChar c ++ rest) = c :: shownChars rest := by
  obtain ⟨first, more, he, hlength⟩ := exists_utf8EncodeChar_cons c
  have hfront := front?_append c rest
  rw [he, List.cons_append] at hfront ⊢
  rw [shownChars, hfront]
  simp only [← hlength, List.drop_left]

theorem shownChars_of_none (h : front? (b :: rest) = none) :
    shownChars (b :: rest) =
      replacement :: shownChars (rest.drop (strayLength (b :: rest) - 1)) := by
  rw [shownChars, h]

/-- What is shown of the bytes of a text is the text. -/
theorem shown_encode (s : String) : shown (encode s) = s := by
  have hchars : ∀ cs : List Char, shownChars (cs.flatMap String.utf8EncodeChar) = cs := by
    intro cs
    induction cs with
    | nil => simp [shownChars]
    | cons c cs ih => rw [List.flatMap_cons, shownChars_append_char, ih]
  rw [shown, encode, hchars, String.ofList_toList]

theorem isText_encode (s : String) : IsText (encode s) := by
  rw [IsText, shown_encode]

theorem encode_inj : encode s = encode t ↔ s = t := by
  constructor
  · intro h
    rw [← shown_encode s, h, shown_encode]
  · exact congrArg encode

theorem decode?_encode (s : String) : decode? (encode s) = some s := by
  rw [decode?, if_pos (isText_encode s), shown_encode]

theorem decode?_eq_some (h : decode? bytes = some s) : bytes = encode s := by
  unfold decode? at h
  split at h
  · rename_i ht
    cases h
    exact ht.symm
  · cases h

theorem drop_of_cons_eq {more : Bytes} (h : b :: rest = String.utf8EncodeChar c ++ more) :
    rest.drop (c.utf8Size - 1) = more := by
  obtain ⟨first, others, he, hlength⟩ := exists_utf8EncodeChar_cons c
  rw [he, List.cons_append] at h
  rw [(List.cons.inj h).2, ← hlength, List.drop_left]

/-- Where nothing is replaced, the bytes are those of a text. -/
theorem isText_of_not_mem (h : replacement ∉ shownChars bytes) : IsText bytes := by
  rw [IsText, shown, encode_ofList]
  induction bytes using shownChars.induct with
  | case1 => simp [shownChars]
  | case2 b rest c hfront ih =>
    obtain ⟨more, hmore⟩ := exists_of_front? hfront
    rw [hmore, shownChars_append_char] at h ⊢
    rw [drop_of_cons_eq hmore] at ih
    rw [List.flatMap_cons, ih fun hm => h (List.mem_cons_of_mem c hm)]
  | case3 b rest hfront ih =>
    rw [shownChars_of_none hfront] at h
    exact absurd List.mem_cons_self h

theorem isText_of_shown_eq (h : shown bytes = s) (hs : replacement ∉ s.toList) :
    bytes = encode s := by
  have hchars : shownChars bytes = s.toList := by
    rw [← h, shown, String.toList_ofList]
  have htext : IsText bytes := isText_of_not_mem (by rwa [hchars])
  rw [← h, htext]

theorem shown_eq_empty_iff : shown bytes = "" ↔ bytes = [] := by
  constructor
  · intro h
    exact isText_of_shown_eq h (by decide)
  · rintro rfl
    simp [shown, shownChars]

theorem utf8EncodeChar_ofNat (hb : b < 0x80) :
    String.utf8EncodeChar (Char.ofNat b.toNat) = [b] := by
  have hall : ∀ n < 0x80, String.utf8EncodeChar (Char.ofNat n) = [UInt8.ofNat n] := by
    decide +kernel
  rw [hall b.toNat (UInt8.lt_iff_toNat_lt.mp hb), UInt8.ofNat_toNat]

/-- A byte below 0x80 is a character of its own, and part of no other. -/
theorem eq_of_mem_utf8EncodeChar (hb : b < 0x80) (h : b ∈ String.utf8EncodeChar c) :
    c = Char.ofNat b.toNat := by
  obtain ⟨i, hi, hget⟩ := List.getElem_of_mem h
  have hfirst : ((String.utf8EncodeChar c)[i]).IsUTF8FirstByte := by
    have hall : ∀ n < 0x80, (UInt8.ofNat n) &&& 0x80 = 0 := by decide
    rw [hget]
    left
    rw [← UInt8.ofNat_toNat (x := b)]
    exact hall b.toNat (UInt8.lt_iff_toNat_lt.mp hb)
  obtain rfl := UInt8.isUTF8FirstByte_getElem_utf8EncodeChar.mp hfirst
  obtain ⟨first, more, he, -⟩ := exists_utf8EncodeChar_cons c
  have hc := front?_append c []
  have hown := front?_append (Char.ofNat b.toNat) more
  simp only [he, List.getElem_cons_zero] at hget
  rw [he, hget, List.append_nil] at hc
  rw [utf8EncodeChar_ofNat hb, List.singleton_append, hc] at hown
  exact Option.some.inj hown

theorem mem_of_mem_encode (hb : b < 0x80) (h : b ∈ encode s) :
    Char.ofNat b.toNat ∈ s.toList := by
  obtain ⟨c, hc, hmem⟩ := List.mem_flatMap.mp h
  rwa [← eq_of_mem_utf8EncodeChar hb hmem]

/-- No character begins before such a byte and goes on behind it. -/
theorem front?_append_ascii (hb : b < 0x80) (hn : front ≠ []) (rest : Bytes) :
    front? (front ++ b :: rest) = front? front := by
  cases hc : front? (front ++ b :: rest) with
  | none =>
    cases hd : front? front with
    | none => rfl
    | some d =>
      obtain ⟨more, rfl⟩ := exists_of_front? hd
      rw [List.append_assoc, front?_append] at hc
      cases hc
  | some c =>
    obtain ⟨more, hmore⟩ := exists_of_front? hc
    rcases List.append_eq_append_iff.mp hmore with ⟨mid, henc, hrest⟩ | ⟨mid, rfl, -⟩
    · cases mid with
      | nil =>
        rw [List.append_nil] at henc
        rw [← henc, ← List.append_nil (String.utf8EncodeChar c), front?_append]
      | cons d mid =>
        -- The byte would be part of the character, but not its first one.
        obtain rfl := (List.cons.inj hrest).1
        have hmem : b ∈ String.utf8EncodeChar c := by simp [henc]
        rw [eq_of_mem_utf8EncodeChar hb hmem, utf8EncodeChar_ofNat hb] at henc
        have hlength := congrArg List.length henc
        have hpos := List.length_pos_iff.mpr hn
        simp only [List.length_append, List.length_cons, List.length_nil] at hlength
        omega
    · rw [front?_append]

theorem not_le_ascii (hb : b < 0x80) {low : UInt8} (hlow : 0x80 ≤ low) : ¬ low ≤ b := by
  rw [UInt8.lt_iff_toNat_lt] at hb
  rw [UInt8.le_iff_toNat_le] at hlow ⊢
  omega

theorem mayFollow_ascii (hb : b < 0x80) (first : UInt8) : mayFollow first b = false := by
  simp [mayFollow, not_le_ascii hb]

theorem strayLength_append_ascii (hb : b < 0x80) (hn : front ≠ []) (rest : Bytes) :
    strayLength (front ++ b :: rest) = strayLength front := by
  match front with
  | [first] => cases rest <;> simp [strayLength, mayFollow_ascii hb]
  | [first, second] => cases h : mayFollow first second <;> simp [strayLength, h, not_le_ascii hb]
  | first :: second :: third :: more => rfl

theorem strayLength_le (hn : bytes ≠ []) : strayLength bytes ≤ bytes.length := by
  match bytes with
  | [first] => simp [strayLength]
  | [first, second] => grind [strayLength]
  | first :: second :: third :: more => grind [strayLength]

/-- What is shown of bytes around one below 0x80 is shown around its character. -/
theorem shownChars_append_ascii (hb : b < 0x80) (front rest : Bytes) :
    shownChars (front ++ b :: rest) =
      shownChars front ++ Char.ofNat b.toNat :: shownChars rest := by
  induction front using shownChars.induct with
  | case1 =>
    have hown := shownChars_append_char (Char.ofNat b.toNat) rest
    rw [utf8EncodeChar_ofNat hb, List.singleton_append] at hown
    simpa [shownChars] using hown
  | case2 first front c hfront ih =>
    obtain ⟨more, hmore⟩ := exists_of_front? hfront
    rw [drop_of_cons_eq hmore] at ih
    rw [hmore, List.append_assoc, shownChars_append_char, shownChars_append_char, ih,
      List.cons_append]
  | case3 first front hfront ih =>
    have hn : first :: front ≠ [] := List.cons_ne_nil _ _
    have hnone : front? (first :: (front ++ b :: rest)) = none := by
      rw [← List.cons_append, front?_append_ascii hb hn, hfront]
    have hstray := strayLength_append_ascii hb hn rest
    have hle := strayLength_le hn
    rw [List.cons_append] at hstray
    rw [List.cons_append, shownChars_of_none hnone, shownChars_of_none hfront, hstray,
      List.drop_append_of_le_length (by rw [List.length_cons] at hle; omega), ih,
      List.cons_append]

theorem mem_of_mem_shown (hb : b < 0x80) (h : Char.ofNat b.toNat ∈ (shown bytes).toList) :
    b ∈ bytes := by
  rw [shown, String.toList_ofList] at h
  induction bytes using shownChars.induct with
  | case1 => simp [shownChars] at h
  | case2 first rest c hfront ih =>
    obtain ⟨more, hmore⟩ := exists_of_front? hfront
    rw [drop_of_cons_eq hmore] at ih
    rw [hmore, shownChars_append_char] at h
    rw [hmore]
    rcases List.mem_cons.mp h with rfl | h
    · simp [utf8EncodeChar_ofNat hb]
    · exact List.mem_append_right _ (ih h)
  | case3 first rest hfront ih =>
    rw [shownChars_of_none hfront] at h
    rcases List.mem_cons.mp h with h | h
    · have hall : ∀ n < 0x80, Char.ofNat n ≠ replacement := by decide
      exact absurd h (hall b.toNat (UInt8.lt_iff_toNat_lt.mp hb))
    · exact List.mem_cons_of_mem _ (List.mem_of_mem_drop (ih h))

theorem slash_not_mem_shown (h : slash ∉ bytes) : '/' ∉ (shown bytes).toList :=
  fun hm => h (mem_of_mem_shown (by decide) hm)

end Exports.Text
