import Mathlib.Data.List.Basic

/-!
# Percent-encoded text

Text is a list of characters, and a percent-encoded spelling of it is again a list of characters:
some characters stand for themselves, the others are written out as `%XX`, one escape for each byte
of their UTF-8 encoding. `decode` reads a spelling back, and has no answer where an escape is cut
short, is no hexadecimal number, or the bytes are no UTF-8.

What decodes to a text is what stands for its bytes (`decode_eq_some_iff`), and two facts follow:

- `decode_of_encoded`: decoding an encoding gives the text it was made from;
- `byteLength_decode`: each `%` that is read costs two bytes, so a text that was decoded already does
  not survive being decoded again unless it is free of them.
-/

namespace Lib.Percent

/-! ## UTF-8 -/

/-- The UTF-8 bytes of a text. -/
def utf8 (text : List Char) : List UInt8 := text.flatMap String.utf8EncodeChar

/-- The text of UTF-8 bytes, if they are UTF-8. -/
def readUtf8 (bytes : List UInt8) : Option (List Char) :=
  bytes.toByteArray.utf8Decode?.map Array.toList

theorem readUtf8_utf8 (text : List Char) : readUtf8 (utf8 text) = some text := by
  show (text.utf8Encode.utf8Decode?).map Array.toList = some text
  rw [List.utf8Decode?_utf8Encode, Option.map_some]

/-- Bytes that read as a text are its bytes. -/
theorem utf8_of_readUtf8 {bytes : List UInt8} {text : List Char}
    (h : readUtf8 bytes = some text) : utf8 text = bytes := by
  obtain ⟨chars, hdec, rfl⟩ := Option.map_eq_some_iff.mp h
  have hsome : bytes.toByteArray.utf8Decode?.isSome := by rw [hdec, Option.isSome_some]
  have henc := ByteArray.utf8Encode_get_utf8Decode? (h := hsome)
  rw [Option.get_of_eq_some _ hdec] at henc
  exact List.toByteArray_inj.mp henc

/-! ## Escapes -/

/-- The digits of an escape, upper case as the encoders write them. -/
def hexDigit (n : Nat) : Char := "0123456789ABCDEF".toList.getD n '0'

/-- The value of a hexadecimal digit of either case. -/
def hexValue (c : Char) : Option Nat :=
  if '0' ≤ c ∧ c ≤ '9' then some (c.toNat - '0'.toNat)
  else if 'A' ≤ c ∧ c ≤ 'F' then some (c.toNat - 'A'.toNat + 10)
  else if 'a' ≤ c ∧ c ≤ 'f' then some (c.toNat - 'a'.toNat + 10)
  else none

/-- `%XX`. -/
def escapeByte (b : UInt8) : List Char :=
  ['%', hexDigit (b.toNat / 16), hexDigit (b.toNat % 16)]

/-- A character written as the escapes of its UTF-8 bytes. -/
def escapeChar (c : Char) : List Char := (String.utf8EncodeChar c).flatMap escapeByte

theorem hexValue_hexDigit : ∀ n < 16, hexValue (hexDigit n) = some n := by decide

/-- The byte of two hexadecimal digits. -/
def hexByte (hi lo : Char) : Option UInt8 :=
  (hexValue hi).bind fun h => (hexValue lo).map fun l => UInt8.ofNat (h * 16 + l)

theorem hexByte_hexDigit (b : UInt8) :
    hexByte (hexDigit (b.toNat / 16)) (hexDigit (b.toNat % 16)) = some b := by
  have hb : b.toNat < 256 := b.toNat_lt
  rw [hexByte, hexValue_hexDigit _ (by omega), hexValue_hexDigit _ (by omega), Option.bind_some,
    Option.map_some, Nat.div_add_mod', UInt8.ofNat_toNat]

/-! ## Decoding -/

/-- The bytes a spelling stands for: an escape is its byte, any other character its UTF-8. -/
def unescape : List Char → Option (List UInt8)
  | [] => some []
  | c :: rest =>
    if c = '%' then
      match rest with
      | hi :: lo :: rest' => (hexByte hi lo).bind fun b => (unescape rest').map (b :: ·)
      | _ => none
    else (unescape rest).map (String.utf8EncodeChar c ++ ·)

/-- The text a spelling stands for. -/
def decode (s : List Char) : Option (List Char) := (unescape s).bind readUtf8

theorem unescape_literal {c : Char} (h : c ≠ '%') :
    ∀ rest : List Char, unescape (c :: rest) = (unescape rest).map (String.utf8EncodeChar c ++ ·)
  | [] => by simp only [unescape, if_neg h]
  | [_] => by simp only [unescape, if_neg h]
  | _ :: _ :: _ => by rw [unescape, if_neg h]

theorem unescape_escape (hi lo : Char) (rest : List Char) :
    unescape ('%' :: hi :: lo :: rest) =
      (hexByte hi lo).bind fun b => (unescape rest).map (b :: ·) := by
  rw [unescape, if_pos rfl]

/-- Text in which every `%` begins an escape, and the bytes that it stands for. -/
inductive StandsFor : List Char → List UInt8 → Prop
  | nil : StandsFor [] []
  | literal {c : Char} {e : List Char} {bytes : List UInt8} (h : c ≠ '%')
      (rest : StandsFor e bytes) : StandsFor (c :: e) (String.utf8EncodeChar c ++ bytes)
  | escape {hi lo : Char} {b : UInt8} {e : List Char} {bytes : List UInt8}
      (h : hexByte hi lo = some b) (rest : StandsFor e bytes) :
      StandsFor ('%' :: hi :: lo :: e) (b :: bytes)

theorem standsFor_of_unescape {e : List Char} {bytes : List UInt8} (h : unescape e = some bytes) :
    StandsFor e bytes := by
  induction e using unescape.induct generalizing bytes with
  | case1 =>
    cases h
    exact .nil
  | case2 hi lo rest ih =>
    rw [unescape_escape] at h
    obtain ⟨b, hbyte, h⟩ := Option.bind_eq_some_iff.mp h
    obtain ⟨tail, htail, rfl⟩ := Option.map_eq_some_iff.mp h
    exact .escape hbyte (ih htail)
  | case3 rest hshort =>
    rw [unescape, if_pos rfl] at h
    · cases h
    · exact hshort
  | case4 c rest hne ih =>
    rw [unescape_literal hne] at h
    obtain ⟨tail, htail, rfl⟩ := Option.map_eq_some_iff.mp h
    exact .literal hne (ih htail)

theorem unescape_of_standsFor {e : List Char} {bytes : List UInt8} (h : StandsFor e bytes) :
    unescape e = some bytes := by
  induction h with
  | nil => rfl
  | literal hne _ ih => rw [unescape_literal hne, ih, Option.map_some]
  | escape hbyte _ ih => rw [unescape_escape, hbyte, Option.bind_some, ih, Option.map_some]

/-- **Decoding**: the text whose bytes the spelling stands for. -/
theorem decode_eq_some_iff {e text : List Char} :
    decode e = some text ↔ StandsFor e (utf8 text) := by
  rw [decode, Option.bind_eq_some_iff]
  constructor
  · rintro ⟨bytes, hbytes, htext⟩
    rw [utf8_of_readUtf8 htext]
    exact standsFor_of_unescape hbytes
  · intro h
    exact ⟨utf8 text, unescape_of_standsFor h, readUtf8_utf8 text⟩

/-- What decodes: text in which every `%` begins an escape, and whose bytes are UTF-8. -/
theorem decode_isSome_iff (e : List Char) :
    (decode e).isSome ↔ ∃ text, StandsFor e (utf8 text) := by
  rw [Option.isSome_iff_exists]
  exact exists_congr fun _ => decode_eq_some_iff

/-! ## Encodings -/

/-- `e` is one escape for each byte, its digits of either case. -/
inductive Escapes : List UInt8 → List Char → Prop
  | nil : Escapes [] []
  | cons {b : UInt8} {hi lo : Char} {bytes : List UInt8} {e : List Char}
      (h : hexByte hi lo = some b) (rest : Escapes bytes e) :
      Escapes (b :: bytes) ('%' :: hi :: lo :: e)

/-- `Encoded keep s e`: `e` is the text `s` with each character that is not in `keep` escaped. What
is in `keep` may be escaped as well, and the digits are of either case: this is what a decoder is
given, where `Spelling` is what an encoder of this library writes. -/
inductive Encoded (keep : Char → Prop) : List Char → List Char → Prop
  | nil : Encoded keep [] []
  | literal {c : Char} {s e : List Char} (h : keep c) (rest : Encoded keep s e) :
      Encoded keep (c :: s) (c :: e)
  | escaped {c : Char} {s bytes e : List Char} (h : Escapes (String.utf8EncodeChar c) bytes)
      (rest : Encoded keep s e) : Encoded keep (c :: s) (bytes ++ e)

theorem StandsFor.escapes {bytes more : List UInt8} {e rest : List Char} (h : Escapes bytes e)
    (hrest : StandsFor rest more) : StandsFor (e ++ rest) (bytes ++ more) := by
  induction h with
  | nil => exact hrest
  | cons hbyte _ ih => exact .escape hbyte ih

/-- Decoding reads an encoding back, as long as no `%` is kept. -/
theorem decode_of_encoded {keep : Char → Prop} (hkeep : ¬ keep '%') {s e : List Char}
    (h : Encoded keep s e) : decode e = some s := by
  rw [decode_eq_some_iff]
  induction h with
  | nil => exact .nil
  | @literal c s e hc rest ih =>
    have hne : c ≠ '%' := fun heq => hkeep (heq ▸ hc)
    exact .literal hne ih
  | escaped hc rest ih => exact .escapes hc ih

theorem not_mem_of_escapes {d : Char} (hpercent : d ≠ '%') (hdigit : hexValue d = none)
    {bytes : List UInt8} {e : List Char} (h : Escapes bytes e) : d ∉ e := by
  induction h with
  | nil => exact List.not_mem_nil
  | @cons b hi lo bytes e hbyte _ ih =>
    obtain ⟨x, hhi, hlo⟩ := Option.bind_eq_some_iff.mp hbyte
    obtain ⟨y, hlo, -⟩ := Option.map_eq_some_iff.mp hlo
    have hneHi : d ≠ hi := by
      rintro rfl
      rw [hdigit] at hhi
      cases hhi
    have hneLo : d ≠ lo := by
      rintro rfl
      rw [hdigit] at hlo
      cases hlo
    simp only [List.mem_cons, not_or]
    exact ⟨hpercent, hneHi, hneLo, ih⟩

/-- The characters of an escape are `%` and digits, so what is no kept character, no `%` and no
digit occurs in no encoding. -/
theorem not_mem_of_encoded {keep : Char → Prop} {d : Char} (hkeep : ¬ keep d) (hpercent : d ≠ '%')
    (hdigit : hexValue d = none) {s e : List Char} (h : Encoded keep s e) : d ∉ e := by
  induction h with
  | nil => exact List.not_mem_nil
  | @literal c s e hc _ ih =>
    have hne : d ≠ c := fun heq => hkeep (heq ▸ hc)
    rw [List.mem_cons, not_or]
    exact ⟨hne, ih⟩
  | escaped hc _ ih =>
    rw [List.mem_append, not_or]
    exact ⟨not_mem_of_escapes hpercent hdigit hc, ih⟩

/-! ## Spellings -/

/-- `Spelling keep escape s e`: `e` spells the text `s`, each character either kept, which `keep`
must allow, or escaped, which `escape` must allow. An encoder that leaves no choice allows each
character one of the two. -/
inductive Spelling (keep escape : Char → Prop) : List Char → List Char → Prop
  | nil : Spelling keep escape [] []
  | literal {c : Char} {s e : List Char} (h : keep c) (rest : Spelling keep escape s e) :
      Spelling keep escape (c :: s) (c :: e)
  | escaped {c : Char} {s e : List Char} (h : escape c) (rest : Spelling keep escape s e) :
      Spelling keep escape (c :: s) (escapeChar c ++ e)

theorem escapes_escapeBytes (bytes : List UInt8) : Escapes bytes (bytes.flatMap escapeByte) := by
  induction bytes with
  | nil => exact .nil
  | cons b bytes ih => exact .cons (hexByte_hexDigit b) ih

/-- A spelling is an encoding, whatever it may escape. -/
theorem Spelling.encoded {keep escape : Char → Prop} {s e : List Char}
    (h : Spelling keep escape s e) : Encoded keep s e := by
  induction h with
  | nil => exact .nil
  | literal hc _ ih => exact .literal hc ih
  | escaped _ _ ih => exact .escaped (escapes_escapeBytes _) ih

/-- **Decoding reads a spelling back**, as long as no `%` is kept. -/
theorem decode_of_spelling {keep escape : Char → Prop} (hkeep : ¬ keep '%') {s e : List Char}
    (h : Spelling keep escape s e) : decode e = some s := decode_of_encoded hkeep h.encoded

/-! ## What decoding costs -/

/-- The length of a text in UTF-8 bytes. -/
def byteLength (s : List Char) : Nat := (utf8 s).length

theorem byteLength_cons (c : Char) (s : List Char) :
    byteLength (c :: s) = (String.utf8EncodeChar c).length + byteLength s :=
  List.length_append

/-- A hexadecimal digit is one byte. -/
theorem length_of_hexValue {c : Char} {n : Nat} (h : hexValue c = some n) :
    (String.utf8EncodeChar c).length = 1 := by
  have hascii : c.val ≤ 0x7f := by
    unfold hexValue at h
    split at h
    · next hc => exact UInt32.le_trans hc.2 (by decide)
    · split at h
      · next hc => exact UInt32.le_trans hc.2 (by decide)
      · split at h
        · next hc => exact UInt32.le_trans hc.2 (by decide)
        · cases h
  rw [String.length_utf8EncodeChar]
  exact if_pos hascii

theorem ne_percent_of_hexValue {c : Char} {n : Nat} (h : hexValue c = some n) : c ≠ '%' := by
  rintro rfl
  cases h

theorem length_of_standsFor {s : List Char} {bytes : List UInt8} (h : StandsFor s bytes) :
    bytes.length + 2 * s.count '%' = byteLength s := by
  induction h with
  | nil => rfl
  | literal hne _ ih =>
    rw [List.count_cons_of_ne hne, byteLength_cons, List.length_append]
    omega
  | escape hbyte _ ih =>
    obtain ⟨x, hhi, hlo⟩ := Option.bind_eq_some_iff.mp hbyte
    obtain ⟨y, hlo, -⟩ := Option.map_eq_some_iff.mp hlo
    have hpercent : (String.utf8EncodeChar '%').length = 1 := by decide
    rw [List.count_cons_self, List.count_cons_of_ne (ne_percent_of_hexValue hhi),
      List.count_cons_of_ne (ne_percent_of_hexValue hlo), byteLength_cons, byteLength_cons,
      byteLength_cons, length_of_hexValue hhi, length_of_hexValue hlo, hpercent, List.length_cons]
    omega

/-- **Each `%` that is read costs two bytes.** -/
theorem byteLength_decode {s t : List Char} (h : decode s = some t) :
    byteLength t + 2 * s.count '%' = byteLength s :=
  length_of_standsFor (decode_eq_some_iff.mp h)

/-- A text without `%` spells itself. -/
theorem decode_of_not_mem {s : List Char} (h : '%' ∉ s) : decode s = some s := by
  have hself : Spelling (· ≠ '%') (fun _ => False) s s := by
    induction s with
    | nil => exact .nil
    | cons c s ih =>
      rw [List.mem_cons, not_or] at h
      exact .literal (Ne.symm h.1) (ih h.2)
  exact decode_of_spelling (fun h => h rfl) hself

end Lib.Percent
