import Mathlib.Data.List.Chain
import ObjCSword.SwordModule

/-!
# The about text

An `About` entry is a text of UTF-16 units in a small part of RTF. The encoding of a text is a list
of pieces, one for each unit: a newline is a paragraph mark, and any other unit is written as itself
or as an escape of its number. The paragraph marks are resolved before the escapes, so the one thing
that must not be written is a `d` directly after a mark, which would make another mark of it. With
that, each of the four passes of `aboutText` is known piece by piece, and the text is read back.
-/

namespace ObjCSword.SwordModule

open Sword NSString Lib.Replace

variable {Key : Type}

/-! ## The encoding -/

/-- Decimal digits that write a number. -/
structure Numeral (number : Nat) where
  digits : List Char
  digits_ne_nil : digits ≠ []
  isDigit_of_mem : ∀ c ∈ digits, c.isDigit = true
  value_eq : Nat.ofDigitChars 10 digits 0 = number

/-- The digits as units. -/
def Numeral.written {number : Nat} (numeral : Numeral number) : List unichar :=
  numeral.digits.map unicharOf

/-- The units that may be written as themselves. -/
structure Plain (c : unichar) : Prop where
  ne_zero : c ≠ 0
  toNat_le : c.toNat ≤ 127
  ne_backslash : c ≠ unicharOf '\\'
  ne_newline : c ≠ unicharOf '\n'

/-- A unit of the text, and how it is written. -/
inductive Piece where
  | newline
  | plain (c : unichar) (h : Plain c)
  | escape (c : unichar) (hzero : c ≠ 0) (hnewline : c ≠ unicharOf '\n') (n : Numeral c.toNat)
  | signed (c : unichar) (hlarge : 32768 ≤ c.toNat) (n : Numeral (65536 - c.toNat))

namespace Piece

def unit : Piece → unichar
  | newline => unicharOf '\n'
  | plain c _ => c
  | escape c _ _ _ => c
  | signed c _ _ => c

def written : Piece → List unichar
  | newline => characters "\\par"
  | plain c _ => [c]
  | escape _ _ _ n => characters "\\u" ++ n.written ++ characters "?"
  | signed _ _ n => characters "\\u-" ++ n.written ++ characters "?"

/-- What may stand next to each other: no plain `d` follows a newline. -/
def Follows : Piece → Piece → Prop
  | newline, plain c _ => c ≠ unicharOf 'd'
  | _, _ => True

end Piece

/-- A text and an encoding of it. -/
def Encodes (text rtf : List unichar) : Prop :=
  ∃ pieces : List Piece, pieces.IsChain Piece.Follows ∧
    text = pieces.map Piece.unit ∧ rtf = pieces.flatMap Piece.written

/-- The shortest digits of a number. -/
def Numeral.ofNat (number : Nat) : Numeral number where
  digits := Nat.toDigits 10 number
  digits_ne_nil := Nat.toDigits_ne_nil
  isDigit_of_mem _ hc := Nat.isDigit_of_mem_toDigits (by omega) (by omega) hc
  value_eq := Nat.ofDigitChars_ten_toDigits

theorem Piece.follows_of_not_plain {piece next : Piece} (h : ∀ c hc, next ≠ plain c hc) :
    Follows piece next := by
  cases next with
  | plain c hc => exact absurd rfl (h c hc)
  | newline => cases piece <;> exact trivial
  | escape c hzero hnewline n => cases piece <;> exact trivial
  | signed c hlarge n => cases piece <;> exact trivial

/-- Every text of units that are not zero has an encoding: all but the newlines may be escaped. -/
theorem exists_encodes {text : List unichar} (hzero : ∀ c ∈ text, c ≠ 0) :
    ∃ rtf, Encodes text rtf := by
  have hpieces : ∃ pieces : List Piece, pieces.IsChain Piece.Follows ∧
      text = pieces.map Piece.unit ∧ ∀ piece ∈ pieces, ∀ c hc, piece ≠ .plain c hc := by
    induction text with
    | nil => exact ⟨[], .nil, rfl, fun piece hpiece => absurd hpiece List.not_mem_nil⟩
    | cons c text ih =>
      rw [List.forall_mem_cons] at hzero
      obtain ⟨pieces, hchain, rfl, hplain⟩ := ih hzero.2
      have hnext : ∀ piece : Piece, (piece :: pieces).IsChain Piece.Follows := fun piece =>
        List.isChain_cons.mpr ⟨fun next hnext =>
          Piece.follows_of_not_plain (hplain next (List.mem_of_mem_head? hnext)), hchain⟩
      by_cases hnewline : c = unicharOf '\n'
      · exact ⟨.newline :: pieces, hnext _, by rw [hnewline]; rfl,
          List.forall_mem_cons.mpr ⟨nofun, hplain⟩⟩
      · exact ⟨.escape c hzero.1 hnewline (.ofNat c.toNat) :: pieces, hnext _, rfl,
          List.forall_mem_cons.mpr ⟨nofun, hplain⟩⟩
  obtain ⟨pieces, hchain, htext, -⟩ := hpieces
  exact ⟨pieces.flatMap Piece.written, pieces, hchain, htext, rfl⟩

/-! ## Digits as units -/

theorem toNat_unicharOf_digit {c : Char} (hc : c.isDigit = true) :
    (unicharOf c).toNat = c.toNat ∧ 48 ≤ c.toNat ∧ c.toNat ≤ 57 := by
  have hrange : 48 ≤ c.toNat ∧ c.toNat ≤ 57 := by
    simp only [Char.isDigit, Bool.and_eq_true, decide_eq_true_eq] at hc
    exact ⟨hc.1, hc.2⟩
  refine ⟨?_, hrange⟩
  rw [unicharOf, UInt16.toNat_ofNat']
  omega

theorem isdigit_unicharOf {c : Char} (hc : c.isDigit = true) : isdigit (unicharOf c) = true := by
  obtain ⟨htoNat, hlow, hhigh⟩ := toNat_unicharOf_digit hc
  rw [isdigit, Bool.and_eq_true, decide_eq_true_eq, decide_eq_true_eq, UInt16.le_iff_toNat_le,
    UInt16.le_iff_toNat_le, htoNat]
  exact ⟨hlow, hhigh⟩

theorem ofNat_unicharOf {c : Char} (hc : c.isDigit = true) :
    Char.ofNat (unicharOf c).toNat = c := by
  rw [(toNat_unicharOf_digit hc).1]
  exact Char.ofNat_toNat c

/-- The number of digits in a text. -/
def numberOf (digits : List unichar) : Int :=
  integerValue (.ofList (digits.map fun c => .ofNat c.toNat))

namespace Numeral

variable {number : Nat}

theorem isdigit_of_mem_written (n : Numeral number) : ∀ c ∈ n.written, isdigit c = true := by
  intro c hc
  obtain ⟨digit, hdigit, rfl⟩ := List.mem_map.mp hc
  exact isdigit_unicharOf (n.isDigit_of_mem digit hdigit)

/-- No digit is a backslash. -/
theorem backslash_not_mem_written (n : Numeral number) : unicharOf '\\' ∉ n.written :=
  fun hmem => absurd (n.isdigit_of_mem_written _ hmem) (by decide)

theorem written_ne_nil (n : Numeral number) : n.written ≠ [] :=
  fun h => n.digits_ne_nil (List.map_eq_nil_iff.mp h)

theorem map_ofNat_written (n : Numeral number) :
    n.written.map (fun c => Char.ofNat c.toNat) = n.digits := by
  rw [written, List.map_map]
  exact (List.map_congr_left fun c hc => ofNat_unicharOf (n.isDigit_of_mem c hc)).trans
    (List.map_id _)

theorem numberOf_written (n : Numeral number) (hfits : number ≤ NSIntegerMax) :
    numberOf n.written = number := by
  have hvalue := n.value_eq
  have hread : Nat.ofDigitChars 10 n.digits 0 ≤ NSIntegerMax := by rwa [hvalue]
  rw [numberOf, n.map_ofNat_written, integerValue, scanInteger_digits n.isDigit_of_mem hread, hvalue]

end Numeral

/-! ## The replacements -/

namespace Piece

/-- What the scan finds of a piece: the paragraph marks are newlines by then. -/
def lined : Piece → List unichar
  | newline => [unicharOf '\n']
  | piece => piece.written

/-- An escape is a backslash, a `u`, and units that are no backslash. -/
theorem written_of_ne_newline {piece : Piece} (h : piece ≠ newline) :
    unicharOf '\\' ∉ piece.written ∨
      ∃ rest, piece.written = unicharOf '\\' :: unicharOf 'u' :: rest ∧
        unicharOf '\\' ∉ rest := by
  cases piece with
  | newline => exact absurd rfl h
  | plain c hc => exact Or.inl fun hmem => hc.ne_backslash (List.mem_singleton.mp hmem).symm
  | escape c _ _ n =>
    refine Or.inr ⟨n.written ++ characters "?", rfl, ?_⟩
    rw [List.mem_append, not_or]
    exact ⟨n.backslash_not_mem_written, by decide⟩
  | signed c _ n =>
    refine Or.inr ⟨characters "-" ++ (n.written ++ characters "?"), rfl, ?_⟩
    rw [List.mem_append, List.mem_append, not_or, not_or]
    exact ⟨by decide, n.backslash_not_mem_written, by decide⟩

/-- No control word but a `\u` stands in a piece that is no newline. -/
theorem replace_written {x : unichar} (hx : x ≠ unicharOf 'u') (tail replacement : List unichar)
    {piece : Piece} (h : piece ≠ newline) (rest : List unichar) :
    replace (unicharOf '\\' :: x :: tail) replacement 0 (piece.written ++ rest) =
      piece.written ++ replace (unicharOf '\\' :: x :: tail) replacement 0 rest := by
  rcases written_of_ne_newline h with hfree | ⟨body, hwritten, hfree⟩
  · exact replace_append_of_not_mem hfree rest
  · have hmiss : (unicharOf '\\' :: x :: tail).isPrefixOf
        (unicharOf '\\' :: (unicharOf 'u' :: body ++ rest)) = false := by
      rw [List.isPrefixOf, List.cons_append, List.isPrefixOf, beq_false_of_ne hx, Bool.false_and,
        Bool.and_false]
    have hbody : unicharOf '\\' ∉ unicharOf 'u' :: body := by
      rw [List.mem_cons, not_or]
      exact ⟨by decide, hfree⟩
    rw [hwritten, List.cons_append, replace_cons_of_miss hmiss,
      replace_append_of_not_mem hbody, List.cons_append, List.cons_append, List.cons_append]

/-- What follows a newline does not begin with a `d`. -/
theorem head?_written_of_follows {pieces : List Piece}
    (h : ∀ piece ∈ pieces.head?, Follows newline piece) :
    (pieces.flatMap written).head? ≠ some (unicharOf 'd') := by
  cases pieces with
  | nil => exact nofun
  | cons piece pieces =>
    have hfollows := h piece rfl
    rw [List.flatMap_cons]
    cases piece with
    | plain c hc => exact fun hhead => hfollows (Option.some.inj hhead)
    | newline => exact fun hhead => absurd (Option.some.inj hhead) (by decide)
    | escape c hzero hnewline n => exact fun hhead => absurd (Option.some.inj hhead) (by decide)
    | signed c hlarge n => exact fun hhead => absurd (Option.some.inj hhead) (by decide)

end Piece

/-- There is no centering in an encoding. -/
theorem replace_qc (pieces : List Piece) :
    replace (characters "\\qc") [] 0 (pieces.flatMap Piece.written) =
      pieces.flatMap Piece.written := by
  induction pieces with
  | nil => rfl
  | cons piece pieces ih =>
    rw [List.flatMap_cons]
    by_cases h : piece = .newline
    · have hmark : replace (characters "\\qc") [] 0
          (characters "\\par" ++ pieces.flatMap Piece.written) =
          characters "\\par" ++
            replace (characters "\\qc") [] 0 (pieces.flatMap Piece.written) := rfl
      rw [h, Piece.written, hmark, ih]
    · exact (Piece.replace_written (by decide) _ _ h _).trans
        (congrArg (piece.written ++ ·) ih)

/-- There is no reset of a paragraph in an encoding, because no `d` follows a paragraph mark. -/
theorem replace_pard {pieces : List Piece} (hchain : pieces.IsChain Piece.Follows) :
    replace (characters "\\pard") [] 0 (pieces.flatMap Piece.written) =
      pieces.flatMap Piece.written := by
  induction pieces with
  | nil => rfl
  | cons piece pieces ih =>
    obtain ⟨hfollows, hrest⟩ := List.isChain_cons.mp hchain
    have ih := ih hrest
    rw [List.flatMap_cons]
    by_cases h : piece = .newline
    · rw [h] at hfollows
      have hhead := Piece.head?_written_of_follows hfollows
      rw [h, Piece.written]
      generalize pieces.flatMap Piece.written = rest at ih hhead ⊢
      have hpard : characters "\\pard" = characters "\\par" ++ [unicharOf 'd'] := rfl
      have hmiss : (characters "\\pard").isPrefixOf (characters "\\par" ++ rest) = false := by
        rw [← Bool.not_eq_true, List.isPrefixOf_iff_prefix, hpard, List.prefix_append_right_inj]
        rintro ⟨tail, rfl⟩
        exact hhead rfl
      have hmark : characters "\\par" = unicharOf '\\' :: characters "par" := rfl
      rw [hmark, List.cons_append] at hmiss ⊢
      rw [replace_cons_of_miss hmiss]
      exact congrArg _ ((replace_append_of_not_mem (by decide) rest).trans
        (congrArg (characters "par" ++ ·) ih))
    · exact (Piece.replace_written (by decide) _ _ h _).trans
        (congrArg (piece.written ++ ·) ih)

/-- Each paragraph mark becomes a newline. -/
theorem replace_par (pieces : List Piece) :
    replace (characters "\\par") [unicharOf '\n'] 0 (pieces.flatMap Piece.written) =
      pieces.flatMap Piece.lined := by
  induction pieces with
  | nil => rfl
  | cons piece pieces ih =>
    rw [List.flatMap_cons, List.flatMap_cons]
    by_cases h : piece = .newline
    · rw [h, Piece.written, replace_occurrence (by decide), ih]
      rfl
    · have hlined : piece.lined = piece.written := by
        cases piece with
        | newline => exact absurd rfl h
        | plain c hc => rfl
        | escape c hzero hnewline n => rfl
        | signed c hlarge n => rfl
      rw [hlined]
      exact (Piece.replace_written (by decide) _ _ h _).trans
        (congrArg (piece.written ++ ·) ih)

/-! ## The scan -/

theorem readUnicodeChars_skip (skipped rest : List unichar) :
    readUnicodeChars skipped.length (skipped ++ rest) = readUnicodeChars 0 rest := by
  induction skipped with
  | nil => rfl
  | cons c skipped ih =>
    rw [List.length_cons, List.cons_append, readUnicodeChars]
    exact ih

/-- A unit that is no backslash is kept. -/
theorem readUnicodeChars_cons {c : unichar} (h : c ≠ unicharOf '\\') (rest : List unichar) :
    readUnicodeChars 0 (c :: rest) = c :: readUnicodeChars 0 rest := by
  simp only [readUnicodeChars, h, false_and, if_false]

section Number

variable {digits : List unichar} {fallback : unichar}

/-- Digits end at the first unit that is none. -/
theorem takeWhile_digits (hdigits : ∀ c ∈ digits, isdigit c = true)
    (hend : isdigit fallback = false) (rest : List unichar) :
    (digits ++ fallback :: rest).takeWhile isdigit = digits := by
  have hstop : ¬ isdigit fallback = true := by
    rw [hend]
    exact Bool.false_ne_true
  rw [List.takeWhile_append_of_pos hdigits, List.takeWhile_cons_of_neg hstop, List.append_nil]

theorem length_digits_ne (rest : List unichar) :
    digits.length ≠ (digits ++ fallback :: rest).length := by
  rw [List.length_append, List.length_cons]
  omega

/-- A number is read up to the first unit that is no digit. -/
theorem readUnicodeChar_unsigned (hdigits : ∀ c ∈ digits, isdigit c = true)
    (hend : isdigit fallback = false) (hsign : digits = [] → fallback ≠ unicharOf '-')
    (rest : List unichar) :
    readUnicodeChar (digits ++ fallback :: rest) = some (numberOf digits, digits.length) := by
  have htake := takeWhile_digits hdigits hend rest
  have hlength : digits.length ≠ (digits ++ fallback :: rest).length := length_digits_ne rest
  cases digits with
  | nil =>
    rw [List.nil_append] at htake hlength ⊢
    simp only [readUnicodeChar, hsign rfl, if_false, List.drop_zero, htake, hlength, numberOf,
      Nat.zero_add]
  | cons c cs =>
    have hminus : c ≠ unicharOf '-' := by
      rintro rfl
      exact absurd (hdigits _ List.mem_cons_self) (by decide)
    rw [List.cons_append] at htake hlength ⊢
    simp only [readUnicodeChar, hminus, if_false, List.drop_zero, htake, hlength, numberOf,
      Nat.zero_add]

/-- So is a number with a sign. -/
theorem readUnicodeChar_signed (hdigits : ∀ c ∈ digits, isdigit c = true)
    (hend : isdigit fallback = false) (rest : List unichar) :
    readUnicodeChar (unicharOf '-' :: (digits ++ fallback :: rest)) =
      some (65536 - numberOf digits, 1 + digits.length) := by
  have hlength : digits.length ≠ (digits ++ fallback :: rest).length := length_digits_ne rest
  simp only [readUnicodeChar, if_true, List.drop_succ_cons, List.drop_zero,
    takeWhile_digits hdigits hend rest, hlength, if_false, numberOf]

end Number

/-- A `\u` whose number is read becomes that number, and the scan goes on behind the unit that ends
it. -/
theorem readUnicodeChars_escape {unicodeChar : Int} {body : List unichar} {fallback : unichar}
    {rest : List unichar}
    (hread : readUnicodeChar (body ++ fallback :: rest) = some (unicodeChar, body.length)) :
    readUnicodeChars 0 (unicharOf '\\' :: unicharOf 'u' :: (body ++ fallback :: rest)) =
      UInt16.ofInt unicodeChar :: readUnicodeChars 0 rest := by
  have hskip := readUnicodeChars_skip (unicharOf 'u' :: (body ++ [fallback])) rest
  rw [List.length_cons, List.length_append, List.cons_append, List.append_assoc] at hskip
  rw [readUnicodeChars, List.head?_cons, if_pos ⟨rfl, rfl⟩, List.tail_cons, hread]
  exact congrArg _ hskip

theorem toNat_le_NSIntegerMax (c : unichar) : c.toNat ≤ NSIntegerMax :=
  Nat.le_trans (Nat.le_of_lt c.toNat_lt) (by decide)

theorem ofInt_toNat (c : unichar) : UInt16.ofInt (c.toNat : Int) = c := by
  have hlt := c.toNat_lt
  have hvalue : ((c.toNat : Int) % 2 ^ 16).toNat = c.toNat := by omega
  rw [UInt16.ofInt, hvalue, UInt16.ofNat_toNat]

/-- An escape in an encoding, with its `\u` and its fallback character split off. -/
theorem escape_append (body rest : List unichar) :
    characters "\\u" ++ body ++ characters "?" ++ rest =
      unicharOf '\\' :: unicharOf 'u' :: (body ++ unicharOf '?' :: rest) := by
  rw [List.append_assoc, List.append_assoc]
  rfl

/-- Each piece is read as its unit. -/
theorem readUnicodeChars_lined (piece : Piece) (rest : List unichar) :
    readUnicodeChars 0 (piece.lined ++ rest) = piece.unit :: readUnicodeChars 0 rest := by
  have hend : isdigit (unicharOf '?') = false := by decide
  cases piece with
  | newline => exact readUnicodeChars_cons (by decide) rest
  | plain c hc => exact readUnicodeChars_cons hc.ne_backslash rest
  | escape c hzero hnewline n =>
    have hread := readUnicodeChar_unsigned n.isdigit_of_mem_written hend
      (fun h => absurd h n.written_ne_nil) rest
    rw [n.numberOf_written (toNat_le_NSIntegerMax c)] at hread
    have hscan := readUnicodeChars_escape hread
    rw [ofInt_toNat, ← escape_append] at hscan
    exact hscan
  | signed c hlarge n =>
    have hlt := c.toNat_lt
    have hfits : 65536 - c.toNat ≤ NSIntegerMax := Nat.le_trans (Nat.sub_le _ _) (by decide)
    have hread := readUnicodeChar_signed n.isdigit_of_mem_written hend rest
    have hvalue : 65536 - ((65536 - c.toNat : Nat) : Int) = (c.toNat : Int) := by omega
    have hlength : 1 + n.written.length = (unicharOf '-' :: n.written).length := by
      rw [List.length_cons, Nat.add_comm]
    rw [n.numberOf_written hfits, hvalue, hlength] at hread
    have hscan := @readUnicodeChars_escape _ (unicharOf '-' :: n.written) _ _ hread
    rw [ofInt_toNat, ← escape_append] at hscan
    exact hscan

/-- **The about text is read back from every encoding of it.** -/
theorem aboutText_of_encodes {M : SWModule Key} {confEntry : String} {text : List unichar}
    (hconf : M.getConfigEntry SWMOD_CONFENTRY_ABOUT = some confEntry)
    (hencodes : Encodes text (characters confEntry)) : aboutText M = text := by
  obtain ⟨pieces, hchain, htext, hrtf⟩ := hencodes
  have hscan : ∀ pieces : List Piece,
      readUnicodeChars 0 (pieces.flatMap Piece.lined) = pieces.map Piece.unit := by
    intro pieces
    induction pieces with
    | nil => rfl
    | cons piece pieces ih =>
      rw [List.flatMap_cons, readUnicodeChars_lined, ih, List.map_cons]
  rw [aboutText, configFileEntryForConfigKey, hconf]
  dsimp only
  rw [hrtf, replace_qc, replace_pard hchain, replace_par, hscan, htext]

/-- A module of one conf file entry. -/
def aboutModule (confEntry : String) : SWModule Unit where
  setText k _ := k
  getText _ := ""
  createKey := ()
  error _ := false
  renderText _ := none
  stripText _ := none
  entryAttributes _ := ∅
  getConfigEntry key := if key = SWMOD_CONFENTRY_ABOUT then some confEntry else none
  has _ _ := false
  globalOption _ := false

/-- A paragraph mark, an escaped `d` behind it, and an escape of a negative number. -/
theorem aboutText_of_encodes_d :
    aboutText (aboutModule "A\\par\\u100?\\u-3?") =
      [unicharOf 'A', unicharOf '\n', unicharOf 'd', 65533] := by
  refine aboutText_of_encodes rfl
    ⟨[.plain (unicharOf 'A') ⟨by decide, by decide, by decide, by decide⟩,
      .newline,
      .escape (unicharOf 'd') (by decide) (by decide)
        ⟨['1', '0', '0'], List.cons_ne_nil _ _, List.all_eq_true.mp rfl, by decide⟩,
      .signed 65533 (by decide)
        ⟨['3'], List.cons_ne_nil _ _, List.all_eq_true.mp rfl, by decide⟩], ?_, rfl, ?_⟩
  · simp only [List.isChain_cons_cons, List.isChain_singleton, Piece.Follows, and_self]
  · decide

end ObjCSword.SwordModule
