import Mathlib.Data.List.TakeWhile
import ObjCSword.Lib.Ascii
import ObjCSword.Lib.Lists
import ObjCSword.Lib.Replace

/-!
# The string operations of Foundation

An `NSString` is a Lean `String`; the methods the sources send to strings stand here under their own
names, on characters. A C string is a list of bytes, and the two encodings the sources read and
write, UTF-8 and ISO Latin 1, are the four conversions at the end: each is partial exactly where
Foundation answers `nil`. A loop over `characterAtIndex:` sees a string as a list of `unichar`, its
UTF-16 units.
-/

namespace ObjCSword

/-- A `char *`: the bytes before the terminating zero. -/
abbrev CString := List UInt8

namespace NSString

open Lib.Percent

/-! ## Searching and replacing -/

def hasPrefix (s lead : String) : Bool := lead.toList.isPrefixOf s.toList

/-- `hasPrefix:` for a text that may be empty: whether every string begins with the empty one is up
to the Foundation in use. -/
def hasAnyPrefix (emptyIsPrefix : Bool) (s lead : String) : Bool :=
  if lead = "" then emptyIsPrefix else hasPrefix s lead

/-- `componentsSeparatedByString:` for a separator of one character. -/
def componentsSeparatedByString (s : String) (separator : Char) : List String :=
  (s.toList.splitOn separator).map String.ofList

/-- The components of joined items are their texts, as long as none holds the separator. -/
theorem components_intercalate {ι : Type} {separator : Char} {text : ι → List Char}
    {items : List ι} (hne : items ≠ []) (h : ∀ item ∈ items, separator ∉ text item) :
    componentsSeparatedByString (.ofList (List.intercalate [separator] (items.map text)))
        separator = items.map fun item => String.ofList (text item) := by
  have hparts : ∀ part ∈ items.map text, separator ∉ part := by
    intro part hpart
    obtain ⟨item, hitem, rfl⟩ := List.mem_map.mp hpart
    exact h item hitem
  have hsome : items.map text ≠ [] := fun hnil => hne (List.map_eq_nil_iff.mp hnil)
  rw [componentsSeparatedByString, String.toList_ofList,
    List.splitOn_intercalate separator hparts hsome, List.map_map]
  rfl

/-- The first component is what stands before the first separator. -/
theorem components_head (s : String) (separator : Char) :
    (componentsSeparatedByString s separator)[0]? =
      some (.ofList (s.toList.takeWhile (· ≠ separator))) := by
  rw [componentsSeparatedByString]
  by_cases h : separator ∈ s.toList
  · obtain ⟨lead, rest, hs, hlead⟩ := List.eq_append_cons_of_mem h
    have hall : ∀ c ∈ lead, decide (c ≠ separator) = true :=
      fun c hc => decide_eq_true fun heq => hlead (heq ▸ hc)
    rw [hs, List.splitOn_append_cons_self_of_not_mem hlead, Lib.Lists.takeWhile_append_separator,
      List.takeWhile_eq_self_iff.mpr hall]
    rfl
  · have hall : ∀ c ∈ s.toList, decide (c ≠ separator) = true :=
      fun c hc => decide_eq_true fun heq => h (heq ▸ hc)
    rw [List.splitOn_eq_singleton h, List.takeWhile_eq_self_iff.mpr hall]
    rfl

/-- The scan of `stringByReplacingOccurrencesOfString:withString:`. The counter is the rest of an
occurrence that was just replaced. -/
def replace (target replacement : List Char) : Nat → List Char → List Char
  | _, [] => []
  | skip + 1, _ :: cs => replace target replacement skip cs
  | 0, c :: cs =>
    if target.isPrefixOf (c :: cs) then
      replacement ++ replace target replacement (target.length - 1) cs
    else c :: replace target replacement 0 cs

/-- `stringByReplacingOccurrencesOfString:withString:` for a target that is not empty. -/
def stringByReplacingOccurrences (s target replacement : String) : String :=
  .ofList (replace target.toList replacement.toList 0 s.toList)

/-- The scan is the one of the library, on characters. -/
theorem replace_eq (target replacement : List Char) (skip : Nat) (s : List Char) :
    replace target replacement skip s = Lib.Replace.replace target replacement skip s := by
  induction s generalizing skip with
  | nil => cases skip <;> rfl
  | cons c s ih =>
    cases skip with
    | zero => simp only [replace, Lib.Replace.replace, ih]
    | succ skip => exact ih skip

theorem stringByReplacingOccurrences_ofList (s target replacement : List Char) :
    stringByReplacingOccurrences (.ofList s) (.ofList target) (.ofList replacement) =
      .ofList (Lib.Replace.replace target replacement 0 s) := by
  simp only [stringByReplacingOccurrences, replace_eq, String.toList_ofList]

/-- `stringByReplacingPercentEscapesUsingEncoding:NSUTF8StringEncoding`: `nil` where an escape is
malformed or the bytes are no UTF-8. -/
def stringByReplacingPercentEscapes (s : String) : Option String :=
  (decode s.toList).map String.ofList

theorem stringByReplacingPercentEscapes_of_not_mem {s : String} (h : '%' ∉ s.toList) :
    stringByReplacingPercentEscapes s = some s := by
  rw [stringByReplacingPercentEscapes, decode_of_not_mem h, Option.map_some, String.ofList_toList]

/-- `lastPathComponent`: slashes at the end do not count, and a path of slashes is its own. -/
def lastPathComponent (s : String) : String :=
  match ((componentsSeparatedByString s '/').filter (· ≠ "")).getLast? with
  | some component => component
  | none => if '/' ∈ s.toList then "/" else ""

/-! ## Numbers -/

/-- The number written by the digits that a text begins with. -/
def leadingDigits (cs : List Char) : Nat := Nat.ofDigitChars 10 (cs.takeWhile Char.isDigit) 0

/-- The scan of `intValue` and `integerValue`: white space, a sign and digits. A number that is too
large is the largest one, one that is too small the smallest. -/
def scanInteger (limit : Nat) (s : String) : Int :=
  match s.toList.dropWhile Char.isWhitespace with
  | '-' :: cs => -((min (leadingDigits cs) (limit + 1) : Nat) : Int)
  | '+' :: cs => (min (leadingDigits cs) limit : Nat)
  | cs => (min (leadingDigits cs) limit : Nat)

/-- `INT_MAX`. -/
def INT_MAX : Nat := 0x7FFFFFFF

/-- `NSIntegerMax`. -/
def NSIntegerMax : Nat := 0x7FFFFFFFFFFFFFFF

/-- `intValue`. -/
def intValue (s : String) : Int := scanInteger INT_MAX s

/-- `integerValue`. -/
def integerValue (s : String) : Int := scanInteger NSIntegerMax s

/-- `stringWithFormat:` with the format `%0<width>i`. -/
def formatZeroPadded (width : Nat) (number : Int) : String :=
  let sign := if number < 0 then ['-'] else []
  let digits := Nat.toDigits 10 number.natAbs
  .ofList (sign ++ List.replicate (width - (sign.length + digits.length)) '0' ++ digits)

/-- A text of digits is read as the number they write, as long as it fits. -/
theorem scanInteger_digits {limit : Nat} {digits : List Char}
    (hdigits : ∀ c ∈ digits, c.isDigit = true)
    (hfits : Nat.ofDigitChars 10 digits 0 ≤ limit) :
    scanInteger limit (.ofList digits) = (Nat.ofDigitChars 10 digits 0 : Int) := by
  have hvalue : min (leadingDigits digits) limit = Nat.ofDigitChars 10 digits 0 := by
    rw [leadingDigits, List.takeWhile_eq_self_iff.mpr hdigits, Nat.min_eq_left hfits]
  rw [scanInteger, String.toList_ofList]
  cases digits with
  | nil => rw [← hvalue]; rfl
  | cons c cs =>
    have hc : c.isDigit = true := hdigits c List.mem_cons_self
    have hblank : c.isWhitespace = false := by
      rw [← Bool.not_eq_true]
      intro hwhite
      simp only [Char.isWhitespace, Bool.or_eq_true, decide_eq_true_eq] at hwhite
      rcases hwhite with ((rfl | rfl) | rfl) | rfl <;> exact absurd hc (by decide)
    rw [List.dropWhile_cons_of_neg (by rw [hblank]; exact Bool.false_ne_true)]
    split
    · next hcons => cases hcons; exact absurd hc (by decide)
    · next hcons => cases hcons; exact absurd hc (by decide)
    · rw [hvalue]

theorem toList_formatZeroPadded (width number : Nat) :
    (formatZeroPadded width number).toList =
      List.replicate (width - (Nat.toDigits 10 number).length) '0' ++ Nat.toDigits 10 number := by
  have hsign : ¬ (number : Int) < 0 := by omega
  simp only [formatZeroPadded, if_neg hsign, String.toList_ofList, List.length_nil,
    Nat.zero_add, List.nil_append, Int.natAbs_natCast]

/-- What is read is a number between the limits. -/
theorem scanInteger_range (limit : Nat) (s : String) :
    -((limit + 1 : Nat) : Int) ≤ scanInteger limit s ∧ scanInteger limit s ≤ limit := by
  unfold scanInteger
  split <;> omega

/-- A formatted number is a sign and digits. -/
theorem mem_formatZeroPadded {width : Nat} {number : Int} {c : Char}
    (hc : c ∈ (formatZeroPadded width number).toList) : c = '-' ∨ c.isDigit = true := by
  simp only [formatZeroPadded, String.toList_ofList, List.mem_append] at hc
  rcases hc with (hc | hc) | hc
  · split at hc
    · exact Or.inl (List.mem_singleton.mp hc)
    · exact absurd hc List.not_mem_nil
  · rw [List.eq_of_mem_replicate hc]
    exact Or.inr rfl
  · exact Or.inr (Nat.isDigit_of_mem_toDigits (by omega) (by omega) hc)

/-- Zeros before the shortest digits of a number. -/
theorem padded_digits (zeros number : Nat) :
    (∀ c ∈ List.replicate zeros '0' ++ Nat.toDigits 10 number, c.isDigit = true) ∧
      Nat.ofDigitChars 10 (List.replicate zeros '0' ++ Nat.toDigits 10 number) 0 = number := by
  constructor
  · intro c hc
    rcases List.mem_append.mp hc with hc | hc
    · rw [List.eq_of_mem_replicate hc]
      rfl
    · exact Nat.isDigit_of_mem_toDigits (by omega) (by omega) hc
  · rw [Nat.ofDigitChars_append, Nat.ofDigitChars_replicate_zero, Nat.mul_zero,
      Nat.ofDigitChars_ten_toDigits]

/-- A minus and digits are read as the negative of the number they write, down to the limit. -/
theorem scanInteger_minus_digits {limit : Nat} {digits : List Char}
    (hdigits : ∀ c ∈ digits, c.isDigit = true) :
    scanInteger limit (.ofList ('-' :: digits)) =
      -((min (Nat.ofDigitChars 10 digits 0) (limit + 1) : Nat) : Int) := by
  have hread : leadingDigits digits = Nat.ofDigitChars 10 digits 0 := by
    rw [leadingDigits, List.takeWhile_eq_self_iff.mpr hdigits]
  rw [scanInteger, String.toList_ofList, List.dropWhile_cons_of_neg (by decide), ← hread]
  rfl

/-- A formatted number is read back, as long as it is between the limits. -/
theorem scanInteger_formatZeroPadded {limit width : Nat} {number : Int}
    (hlow : -((limit + 1 : Nat) : Int) ≤ number) (hhigh : number ≤ limit) :
    scanInteger limit (formatZeroPadded width number) = number := by
  by_cases hsign : number < 0
  · obtain ⟨hdigits, hvalue⟩ := padded_digits
      (width - (['-'].length + (Nat.toDigits 10 number.natAbs).length)) number.natAbs
    have hread := @scanInteger_minus_digits limit _ hdigits
    rw [hvalue] at hread
    rw [formatZeroPadded, if_pos hsign]
    exact hread.trans (by omega)
  · obtain ⟨hdigits, hvalue⟩ := padded_digits
      (width - (([] : List Char).length + (Nat.toDigits 10 number.natAbs).length)) number.natAbs
    have hread := @scanInteger_digits limit _ hdigits (by omega)
    rw [hvalue] at hread
    rw [formatZeroPadded, if_neg hsign]
    exact hread.trans (by omega)

/-! ## C strings -/

/-- `UTF8String`. -/
def UTF8String (s : String) : CString := utf8 s.toList

/-- `stringWithUTF8String:`. -/
def stringWithUTF8String (cString : CString) : Option String :=
  (readUtf8 cString).map String.ofList

theorem UTF8String_of_stringWithUTF8String {text : CString} {s : String}
    (h : stringWithUTF8String text = some s) : UTF8String s = text := by
  obtain ⟨cs, hcs, rfl⟩ := Option.map_eq_some_iff.mp h
  rw [UTF8String, String.toList_ofList]
  exact utf8_of_readUtf8 hcs

theorem stringWithUTF8String_UTF8String (s : String) :
    stringWithUTF8String (UTF8String s) = some s := by
  rw [stringWithUTF8String, UTF8String, readUtf8_utf8, Option.map_some, String.ofList_toList]

/-- `cStringUsingEncoding:NSISOLatin1StringEncoding`: one byte a character, `NULL` where a character
has none. -/
def cStringUsingLatin1 (s : String) : Option CString :=
  s.toList.mapM fun c => if c.toNat < 256 then some (UInt8.ofNat c.toNat) else none

/-- `stringWithCString:encoding:NSISOLatin1StringEncoding`: every byte is a character. -/
def stringWithLatin1 (cString : CString) : String :=
  .ofList (cString.map fun b => Char.ofNat b.toNat)

/-- `strlen`: the bytes before the first zero. -/
def strlen (cString : CString) : Nat := (cString.takeWhile (· ≠ 0)).length

/-- The text of what the engine answers: UTF-8, or else Latin 1. -/
def stringOfAnswer (cString : CString) : Option String :=
  (stringWithUTF8String cString).or (some (stringWithLatin1 cString))

theorem stringOfAnswer_UTF8String (s : String) : stringOfAnswer (UTF8String s) = some s := by
  rw [stringOfAnswer, stringWithUTF8String_UTF8String, Option.some_or]

theorem mapM_latin1 {cs : List Char} (h : ∀ c ∈ cs, c.toNat < 256) :
    (cs.mapM fun c => if c.toNat < 256 then some (UInt8.ofNat c.toNat) else none) =
      some (cs.map fun c => UInt8.ofNat c.toNat) := by
  induction cs with
  | nil => rfl
  | cons c cs ih =>
    rw [List.forall_mem_cons] at h
    rw [List.mapM_cons, if_pos h.1, ih h.2]
    rfl

theorem lt_of_mapM_latin1 {cs : List Char} {bytes : List UInt8}
    (h : (cs.mapM fun c => if c.toNat < 256 then some (UInt8.ofNat c.toNat) else none) =
      some bytes) : ∀ c ∈ cs, c.toNat < 256 := by
  induction cs generalizing bytes with
  | nil => exact fun c hc => absurd hc List.not_mem_nil
  | cons c cs ih =>
    rw [List.mapM_cons] at h
    obtain ⟨b, hb, h⟩ := Option.bind_eq_some_iff.mp h
    obtain ⟨rest, hrest, -⟩ := Option.bind_eq_some_iff.mp h
    refine List.forall_mem_cons.mpr ⟨?_, ih hrest⟩
    by_contra hlarge
    rw [if_neg hlarge] at hb
    cases hb

/-- A text has a Latin 1 encoding of one byte a character, or none. -/
theorem cStringUsingLatin1_eq_some_iff {s : String} {bytes : CString} :
    cStringUsingLatin1 s = some bytes ↔
      (∀ c ∈ s.toList, c.toNat < 256) ∧ bytes = s.toList.map fun c => UInt8.ofNat c.toNat := by
  rw [cStringUsingLatin1]
  constructor
  · intro h
    have hlt := lt_of_mapM_latin1 h
    rw [mapM_latin1 hlt] at h
    exact ⟨hlt, (Option.some.inj h).symm⟩
  · rintro ⟨hlt, rfl⟩
    exact mapM_latin1 hlt

theorem toNat_latin1 (b : UInt8) : (Char.ofNat b.toNat).toNat = b.toNat := by
  have hb := b.toNat_lt
  have hvalid : b.toNat.isValidChar := Or.inl (by omega)
  rw [Char.ofNat, dif_pos hvalid]
  rfl

theorem toList_stringWithLatin1 (cString : CString) :
    (stringWithLatin1 cString).toList = cString.map fun b => Char.ofNat b.toNat :=
  String.toList_ofList

/-- The characters of a text that was read as Latin 1. -/
theorem lt_of_mem_stringWithLatin1 (cString : CString) :
    ∀ c ∈ (stringWithLatin1 cString).toList, c.toNat < 256 := by
  intro c hc
  rw [toList_stringWithLatin1] at hc
  obtain ⟨b, -, rfl⟩ := List.mem_map.mp hc
  rw [toNat_latin1]
  exact b.toNat_lt

/-- Latin 1 text has the bytes it was read from. -/
theorem cStringUsingLatin1_stringWithLatin1 (cString : CString) :
    cStringUsingLatin1 (stringWithLatin1 cString) = some cString := by
  refine cStringUsingLatin1_eq_some_iff.mpr ⟨lt_of_mem_stringWithLatin1 cString, ?_⟩
  rw [toList_stringWithLatin1, List.map_map]
  refine ((List.map_congr_left fun b _ => ?_).trans (List.map_id cString)).symm
  rw [Function.comp_apply, toNat_latin1, UInt8.ofNat_toNat, id]

/-! ## UTF-16 units -/

/-- `unichar`. -/
abbrev unichar := UInt16

/-- A character literal, as a unit. -/
def unicharOf (c : Char) : unichar := .ofNat c.toNat

/-- `isdigit`. -/
def isdigit (c : unichar) : Bool := unicharOf '0' ≤ c && c ≤ unicharOf '9'

/-- The units of one character: beyond the first plane they are a pair. -/
def unicharsOfChar (c : Char) : List unichar :=
  if c.toNat < 0x10000 then [unicharOf c]
  else [.ofNat (0xD800 + (c.toNat - 0x10000) / 0x400), .ofNat (0xDC00 + (c.toNat - 0x10000) % 0x400)]

/-- What `characterAtIndex:` answers for the indices below `length`, in order. -/
def characters (s : String) : List unichar := s.toList.flatMap unicharsOfChar

end NSString

end ObjCSword
