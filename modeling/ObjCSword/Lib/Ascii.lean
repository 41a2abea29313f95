import ObjCSword.Lib.Percent

/-!
# ASCII text in UTF-8

A text of ASCII characters is its own UTF-8, one byte a character. Any other character costs at
least two bytes, none of them ASCII. So both the length and the bytes of an encoding tell whether a
text is ASCII.
-/

namespace Lib.Ascii

open Lib.Percent

/-- The text has no character beyond ASCII. -/
def IsAscii (text : List Char) : Prop := ∀ c ∈ text, c.toNat < 128

theorem utf8Size_eq_one_iff (c : Char) : c.utf8Size = 1 ↔ c.toNat < 128 := by
  rw [Char.utf8Size_eq_one_iff, UInt32.le_iff_toNat_le]
  exact Nat.lt_succ_iff.symm

/-- An ASCII character is one byte. -/
theorem utf8EncodeChar_of_lt {c : Char} (h : c.toNat < 128) :
    String.utf8EncodeChar c = [UInt8.ofNat c.toNat] :=
  String.utf8EncodeChar_eq_singleton ((utf8Size_eq_one_iff c).mpr h)

/-- The bytes of any other character are not ASCII. -/
theorem le_of_mem_utf8EncodeChar {c : Char} (h : ¬ c.toNat < 128) {b : UInt8}
    (hb : b ∈ String.utf8EncodeChar c) : 128 ≤ b.toNat := by
  -- each byte is made by setting the high bit, and perhaps more
  have hor : ∀ x y : UInt8, 128 ≤ y.toNat → 128 ≤ (x ||| y).toNat := by
    intro x y hy
    rw [UInt8.toNat_or]
    exact Nat.le_trans hy Nat.right_le_or
  rcases Char.utf8Size_eq c with hc | hc | hc | hc
  · exact absurd ((utf8Size_eq_one_iff c).mp hc) h
  · rw [String.utf8EncodeChar_eq_cons_cons hc] at hb
    simp only [List.mem_cons, List.not_mem_nil, or_false] at hb
    rcases hb with rfl | rfl
    · exact hor _ _ (by decide)
    · exact hor _ _ (by decide)
  · rw [String.utf8EncodeChar_eq_cons_cons_cons hc] at hb
    simp only [List.mem_cons, List.not_mem_nil, or_false] at hb
    rcases hb with rfl | rfl | rfl
    · exact hor _ _ (by decide)
    · exact hor _ _ (by decide)
    · exact hor _ _ (by decide)
  · rw [String.utf8EncodeChar_eq_cons_cons_cons_cons hc] at hb
    simp only [List.mem_cons, List.not_mem_nil, or_false] at hb
    rcases hb with rfl | rfl | rfl | rfl
    · exact hor _ _ (by decide)
    · exact hor _ _ (by decide)
    · exact hor _ _ (by decide)
    · exact hor _ _ (by decide)

theorem exists_byte_of_not_lt {c : Char} (h : ¬ c.toNat < 128) :
    ∃ b ∈ String.utf8EncodeChar c, 128 ≤ b.toNat := by
  obtain ⟨b, hb⟩ := List.exists_mem_of_ne_nil _ (String.utf8EncodeChar_ne_nil (c := c))
  exact ⟨b, hb, le_of_mem_utf8EncodeChar h hb⟩

/-- An ASCII byte is only in the encoding of its own character. -/
theorem mem_utf8EncodeChar_iff {b : UInt8} (hb : b.toNat < 128) (c : Char) :
    b ∈ String.utf8EncodeChar c ↔ c.toNat = b.toNat := by
  by_cases h : c.toNat < 128
  · rw [utf8EncodeChar_of_lt h, List.mem_singleton, ← UInt8.toNat_inj, UInt8.toNat_ofNat',
      Nat.mod_eq_of_lt (by omega)]
    exact eq_comm
  · refine iff_of_false (fun hmem => ?_) (by omega)
    have := le_of_mem_utf8EncodeChar h hmem
    omega

/-- Only the character zero has a byte that is zero, and it is that byte. -/
theorem zero_mem_utf8EncodeChar_iff (c : Char) : 0 ∈ String.utf8EncodeChar c ↔ c.toNat = 0 :=
  mem_utf8EncodeChar_iff (by decide) c

/-- An ASCII character is as often in a text as its byte is in the encoding. -/
theorem count_utf8 (text : List Char) {ascii : Char} (h : ascii.toNat < 128) :
    (utf8 text).count (UInt8.ofNat ascii.toNat) = text.count ascii := by
  have hbyte : (UInt8.ofNat ascii.toNat).toNat = ascii.toNat := by
    rw [UInt8.toNat_ofNat']
    omega
  induction text with
  | nil => rfl
  | cons c text ih =>
    have hbytes : utf8 (c :: text) = String.utf8EncodeChar c ++ utf8 text := List.flatMap_cons
    rw [hbytes, List.count_append, ih, List.count_cons, Nat.add_comm]
    congr 1
    by_cases hc : c = ascii
    · rw [hc, utf8EncodeChar_of_lt h, List.count_singleton_self, if_pos (beq_self_eq_true ascii)]
    · rw [if_neg (by simpa using hc), List.count_eq_zero, mem_utf8EncodeChar_iff (by omega), hbyte]
      exact fun heq => hc (Char.toNat_inj.mp heq)

/-- The bytes of a text before the first zero are those of its characters before the first zero. -/
theorem takeWhile_utf8 (text : List Char) :
    (utf8 text).takeWhile (· ≠ 0) = utf8 (text.takeWhile (·.toNat ≠ 0)) := by
  induction text with
  | nil => rfl
  | cons c text ih =>
    have hbytes : utf8 (c :: text) = String.utf8EncodeChar c ++ utf8 text := List.flatMap_cons
    rw [hbytes]
    by_cases hzero : c.toNat = 0
    · rw [utf8EncodeChar_of_lt (by omega), hzero, List.takeWhile_cons_of_neg (by simpa using hzero)]
      rfl
    · have hall : ∀ b ∈ String.utf8EncodeChar c, decide (b ≠ 0) = true := fun b hb =>
        decide_eq_true fun heq => hzero ((zero_mem_utf8EncodeChar_iff c).mp (heq ▸ hb))
      rw [List.takeWhile_append_of_pos hall, ih,
        List.takeWhile_cons_of_pos (by simpa using hzero)]
      exact List.flatMap_cons.symm

/-- The bytes of a text are ASCII exactly when the text is. -/
theorem ascii_bytes_iff (text : List Char) :
    (∀ b ∈ utf8 text, b.toNat < 128) ↔ IsAscii text := by
  constructor
  · intro h c hc
    by_contra hlt
    obtain ⟨b, hb, hlarge⟩ := exists_byte_of_not_lt hlt
    have := h b (List.mem_flatMap.mpr ⟨c, hc, hb⟩)
    omega
  · intro h b hb
    obtain ⟨c, hc, hb⟩ := List.mem_flatMap.mp hb
    have hlt := h c hc
    rw [utf8EncodeChar_of_lt hlt, List.mem_singleton] at hb
    rw [hb, UInt8.toNat_ofNat']
    omega

/-- The UTF-8 of an ASCII text. -/
theorem utf8_of_isAscii {text : List Char} (h : IsAscii text) :
    utf8 text = text.map fun c => UInt8.ofNat c.toNat := by
  induction text with
  | nil => rfl
  | cons c text ih =>
    rw [IsAscii, List.forall_mem_cons] at h
    have hrest := ih h.2
    rw [utf8] at hrest ⊢
    rw [List.flatMap_cons, utf8EncodeChar_of_lt h.1, hrest]
    rfl

theorem length_le_byteLength (text : List Char) : text.length ≤ byteLength text := by
  induction text with
  | nil => exact Nat.zero_le _
  | cons c text ih =>
    have hpos := c.utf8Size_pos
    rw [byteLength_cons, String.length_utf8EncodeChar, List.length_cons]
    omega

/-- A text has one byte a character exactly when it is ASCII. -/
theorem byteLength_eq_length_iff (text : List Char) :
    byteLength text = text.length ↔ IsAscii text := by
  induction text with
  | nil => exact iff_of_true rfl fun c hc => absurd hc List.not_mem_nil
  | cons c text ih =>
    have hpos := c.utf8Size_pos
    have hle := length_le_byteLength text
    rw [byteLength_cons, String.length_utf8EncodeChar, List.length_cons, IsAscii,
      List.forall_mem_cons, ← utf8Size_eq_one_iff, ← IsAscii, ← ih]
    omega

end Lib.Ascii
