import ObjCSword.Lib.Decimal
import ObjCSword.Laws.StrongsNumbers

/-!
# Padding as a normal form

What `padStrongsNumbers:` returns is texts that it returns as they are: a text without a leading
letter, or a letter and a number that is read back as it was written (`padStrongsNumber_padded`),
the sign and the largest numbers included. For a Strong's code the number is all that is left of the
digits, and up to five digits the order of the texts is that of the numbers.
-/

namespace ObjCSword.SwordUtil

open NSString SwordModule

/-- A letter and a padded number. -/
def paddedText (letter : Char) (number : Int) : String :=
  .ofList [letter] ++ formatZeroPadded 5 number

/-- The texts that are returned as they are. -/
def Normal (text : String) : Prop := padStrongsNumber text = [text]

theorem letter_of_hasPrefix {letter : Char} (hletter : letter = 'H' ∨ letter = 'G')
    (body : List Char) :
    padStrongsNumber (.ofList (letter :: body)) =
      (componentsSeparatedByString (.ofList (letter :: body)) ' ').filterMap
        (padStrongsKey letter) := by
  rcases hletter with rfl | rfl <;>
    simp only [padStrongsNumber, hasPrefix, String.toList_ofList] <;> rfl

/-- One code without blanks. -/
theorem padStrongsNumber_cons {letter : Char} (hletter : letter = 'H' ∨ letter = 'G')
    {body : List Char} (hblank : ' ' ∉ body) (hbody : letter ∉ body) :
    padStrongsNumber (.ofList (letter :: body)) =
      [.ofList [letter] ++ leftPadStrongsFormat (.ofList body)] := by
  have hne : ' ' ≠ letter := by
    rintro rfl
    exact absurd hletter (by decide)
  have hkey : ' ' ∉ letter :: body := by
    rw [List.mem_cons, not_or]
    exact ⟨hne, hblank⟩
  rw [letter_of_hasPrefix hletter, componentsSeparatedByString, String.toList_ofList,
    List.splitOn_eq_singleton hkey, List.map_singleton, List.filterMap_cons_some
      (padStrongsKey_cons hkey hbody)]
  rfl

theorem padStrongsNumber_spelling (code : StrongsCode) :
    padStrongsNumber (.ofList code.spelling) = [paddedText code.letter code.number] := by
  have hblank : ' ' ∉ code.digits := fun hmem =>
    absurd (code.isDigit_of_mem _ hmem) (by decide)
  rw [StrongsCode.spelling, padStrongsNumber_cons code.letter_eq hblank
    (code.letter_not_mem_digits code.letter_eq), code.leftPadStrongsFormat_digits]
  rfl

/-- A padded number that was read from a text is read back. -/
theorem padStrongsNumber_padded {letter : Char} (hletter : letter = 'H' ∨ letter = 'G')
    (unpadded : String) : Normal (paddedText letter (intValue unpadded)) := by
  obtain ⟨hlow, hhigh⟩ := scanInteger_range INT_MAX unpadded
  have hchars : ∀ c ∈ (formatZeroPadded 5 (intValue unpadded)).toList,
      c ≠ ' ' ∧ c ≠ letter := by
    intro c hc
    rcases mem_formatZeroPadded hc with rfl | hdigit
    · rcases hletter with rfl | rfl <;> decide
    · constructor
      · rintro rfl
        exact absurd hdigit (by decide)
      · rintro rfl
        rcases hletter with rfl | rfl <;> exact absurd hdigit (by decide)
  have htext : paddedText letter (intValue unpadded) =
      .ofList (letter :: (formatZeroPadded 5 (intValue unpadded)).toList) := by
    rw [paddedText, ← String.toList_inj, String.toList_append, String.toList_ofList,
      String.toList_ofList]
    rfl
  have hback : intValue (formatZeroPadded 5 (intValue unpadded)) = intValue unpadded :=
    scanInteger_formatZeroPadded hlow hhigh
  rw [Normal, htext, padStrongsNumber_cons hletter (fun hmem => (hchars _ hmem).1 rfl)
    (fun hmem => (hchars _ hmem).2 rfl), String.ofList_toList, leftPadStrongsFormat, hback, ← htext]
  rfl

/-- A text is returned as it is, or its codes are padded for the letter at its front. -/
theorem padStrongsNumber_cases (unpaddedNumber : String) :
    padStrongsNumber unpaddedNumber = [unpaddedNumber] ∨
      ∃ letter, (letter = 'H' ∨ letter = 'G') ∧ padStrongsNumber unpaddedNumber =
        (componentsSeparatedByString unpaddedNumber ' ').filterMap (padStrongsKey letter) := by
  unfold padStrongsNumber
  dsimp only
  by_cases hG : hasPrefix unpaddedNumber "G" = true
  · exact Or.inr ⟨'G', Or.inr rfl, by rw [if_pos hG]⟩
  · rw [if_neg hG]
    by_cases hH : hasPrefix unpaddedNumber "H" = true
    · exact Or.inr ⟨'H', Or.inl rfl, by rw [if_pos hH]⟩
    · exact Or.inl (by rw [if_neg hH])

/-- Whatever a text is, all that is returned for it is normal. -/
theorem normal_of_mem {unpaddedNumber text : String} (h : text ∈ padStrongsNumber unpaddedNumber) :
    Normal text := by
  rcases padStrongsNumber_cases unpaddedNumber with hself | ⟨letter, hletter, hkeys⟩
  · rw [hself] at h
    rw [List.mem_singleton.mp h]
    exact hself
  · rw [hkeys] at h
    obtain ⟨key, -, hpadded⟩ := List.mem_filterMap.mp h
    rw [padStrongsKey] at hpadded
    split at hpadded
    · rw [← Option.some.inj hpadded]
      exact padStrongsNumber_padded hletter _
    · cases hpadded

/-- Padding what was padded changes nothing. -/
theorem padStrongsNumbers_idempotent (unpaddedNumbers : List String) :
    padStrongsNumbers (padStrongsNumbers unpaddedNumbers) = padStrongsNumbers unpaddedNumbers := by
  have hnormal : ∀ text ∈ padStrongsNumbers unpaddedNumbers, padStrongsNumber text = [text] := by
    intro text htext
    obtain ⟨unpaddedNumber, -, hmem⟩ := List.mem_flatMap.mp htext
    exact normal_of_mem hmem
  rw [padStrongsNumbers, List.flatMap_congr hnormal]
  exact List.flatMap_singleton' _

theorem padStrongsNumbers_spelling (code : StrongsCode) :
    padStrongsNumbers [.ofList code.spelling] = [paddedText code.letter code.number] := by
  rw [padStrongsNumbers, List.flatMap_singleton, padStrongsNumber_spelling]

/-- The digits that are written for a code. -/
def paddedDigits (number : Nat) : List Char :=
  List.replicate (5 - (Nat.toDigits 10 number).length) '0' ++ Nat.toDigits 10 number

theorem toList_paddedText (letter : Char) (number : Nat) :
    (paddedText letter number).toList = letter :: paddedDigits number := by
  rw [paddedText, String.toList_append, String.toList_ofList, toList_formatZeroPadded,
    List.singleton_append, paddedDigits]

theorem length_paddedDigits {number : Nat} (h : number ≤ 99999) :
    (paddedDigits number).length = 5 := by
  have hle : (Nat.toDigits 10 number).length ≤ 5 :=
    (Nat.length_toDigits_le_iff (by omega) (by omega)).mpr (Nat.lt_of_le_of_lt h (by decide))
  rw [paddedDigits, List.length_append, List.length_replicate]
  omega

theorem paddedText_inj {letter : Char} {number other : Nat} :
    paddedText letter number = paddedText letter other ↔ number = other := by
  constructor
  · intro h
    have hlist := congrArg String.toList h
    rw [toList_paddedText, toList_paddedText] at hlist
    have hdigits : paddedDigits number = paddedDigits other := (List.cons.inj hlist).2
    have hvalue := congrArg (fun digits => Nat.ofDigitChars 10 digits 0) hdigits
    dsimp only [paddedDigits] at hvalue
    rwa [(padded_digits _ number).2, (padded_digits _ other).2] at hvalue
  · rintro rfl
    rfl

theorem paddedText_lt_iff {letter : Char} {number other : Nat} (hnumber : number ≤ 99999)
    (hother : other ≤ 99999) :
    paddedText letter number < paddedText letter other ↔ number < other := by
  have hlength := (length_paddedDigits hnumber).trans (length_paddedDigits hother).symm
  have hself : ¬ letter < letter := Char.lt_irrefl letter
  rw [String.lt_iff, toList_paddedText, toList_paddedText, List.cons_lt_cons_iff,
    Lib.Decimal.lt_iff hlength (padded_digits _ number).1 (padded_digits _ other).1, paddedDigits,
    paddedDigits, (padded_digits _ number).2, (padded_digits _ other).2]
  simp only [hself, false_or, true_and]

/-- **Padding is a normal form**: it changes nothing a second time, it identifies the spellings of
one number and no others, and up to five digits it writes five, in the order of the numbers. -/
theorem padStrongsNumbers_normal :
    (∀ unpaddedNumbers, padStrongsNumbers (padStrongsNumbers unpaddedNumbers) =
        padStrongsNumbers unpaddedNumbers) ∧
      (∀ code other : StrongsCode, code.letter = other.letter →
        (padStrongsNumbers [.ofList code.spelling] = padStrongsNumbers [.ofList other.spelling] ↔
          code.number = other.number)) ∧
      (∀ code : StrongsCode, code.number ≤ 99999 →
        ∃ digits : List Char, padStrongsNumbers [.ofList code.spelling] =
            [.ofList (code.letter :: digits)] ∧
          digits.length = 5 ∧ ∀ c ∈ digits, c.isDigit = true) ∧
      ∀ code other : StrongsCode, code.letter = other.letter → code.number ≤ 99999 →
        other.number ≤ 99999 → ∃ text otherText,
          padStrongsNumbers [.ofList code.spelling] = [text] ∧
          padStrongsNumbers [.ofList other.spelling] = [otherText] ∧
          (text < otherText ↔ code.number < other.number) := by
  refine ⟨padStrongsNumbers_idempotent, ?_, ?_, ?_⟩
  · intro code other hletter
    rw [padStrongsNumbers_spelling, padStrongsNumbers_spelling, hletter, List.singleton_inj,
      paddedText_inj]
  · intro code hnumber
    refine ⟨paddedDigits code.number, ?_, length_paddedDigits hnumber,
      (padded_digits _ code.number).1⟩
    rw [padStrongsNumbers_spelling, ← toList_paddedText, String.ofList_toList]
  · intro code other hletter hnumber hother
    refine ⟨_, _, padStrongsNumbers_spelling code, padStrongsNumbers_spelling other, ?_⟩
    rw [hletter]
    exact paddedText_lt_iff hnumber hother

end ObjCSword.SwordUtil
