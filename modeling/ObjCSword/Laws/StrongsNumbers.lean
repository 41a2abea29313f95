import ObjCSword.Lib.Lists
import ObjCSword.SwordModule

/-!
# The Strong's numbers of an entry

A word of an entry carries its Strong's codes in one attribute, joined by a separator. The padded
list should hold one number for each code. What `padStrongsNumber:` keeps of a lemma is the codes
that have the letter of the first one (`padStrongsNumber_spaced`); so a number is lost exactly where
the codes of one word have different letters.
-/

namespace ObjCSword.SwordModule

open Sword NSString SwordUtil Lib.Lists

variable {Key : Type}

/-! ## Keys -/

theorem trim_of_not_mem {key : List Char} (hblank : ' ' ∉ key) :
    stringByReplacingOccurrences (.ofList key) " " "" = .ofList key :=
  (stringByReplacingOccurrences_ofList key [' '] []).trans
    (congrArg String.ofList (Lib.Replace.replace_of_not_mem hblank))

/-- What stands behind the letter is padded, if the letter is not in it again. -/
theorem padStrongsKey_cons {letter : Char} {body : List Char} (hblank : ' ' ∉ letter :: body)
    (hletter : letter ∉ body) :
    padStrongsKey letter (.ofList (letter :: body)) =
      some (.ofList [letter] ++ leftPadStrongsFormat (.ofList body)) := by
  have hsplit : (letter :: body).splitOn letter = [[], body] := by
    have hcons := List.splitOn_append_cons_self_of_not_mem (List.not_mem_nil (a := letter)) body
    rwa [List.splitOn_eq_singleton hletter, List.nil_append] at hcons
  rw [padStrongsKey, trim_of_not_mem hblank, componentsSeparatedByString, String.toList_ofList,
    hsplit]
  rfl

/-! ## Codes and words -/

/-- A Strong's code as a lemma spells it. -/
structure StrongsCode where
  letter : Char
  digits : List Char
  letter_eq : letter = 'H' ∨ letter = 'G'
  digits_ne_nil : digits ≠ []
  isDigit_of_mem : ∀ c ∈ digits, c.isDigit = true
  number_le : Nat.ofDigitChars 10 digits 0 ≤ INT_MAX

namespace StrongsCode

def number (code : StrongsCode) : Nat := Nat.ofDigitChars 10 code.digits 0

def spelling (code : StrongsCode) : List Char := code.letter :: code.digits

/-- The code as the padded list should hold it: the letter, and digits of the same number. -/
def Stands (text : String) (code : StrongsCode) : Prop :=
  ∃ digits, text.toList = code.letter :: digits ∧ digits ≠ [] ∧
    (∀ c ∈ digits, c.isDigit = true) ∧ Nat.ofDigitChars 10 digits 0 = code.number

/-- The code as `padStrongsNumber:` writes it. -/
def padded (code : StrongsCode) : String :=
  .ofList [code.letter] ++ formatZeroPadded 5 code.number

end StrongsCode

/-- The codes of one word have one letter. -/
def OneLetter (codes : List StrongsCode) : Prop :=
  ∀ code ∈ codes, ∀ other ∈ codes, code.letter = other.letter

/-- A lemma: its codes, joined. -/
def lemmaOf (codes : List StrongsCode) : String :=
  .ofList ("|x-Strongs:".toList.intercalate (codes.map StrongsCode.spelling))

/-- A word of an entry, with the codes that its lemma spells. -/
structure Word where
  attributes : Dictionary String
  codes : List StrongsCode
  lemma_eq : AList.lookup "Lemma" attributes =
    if codes.isEmpty then none else some (lemmaOf codes)

/-- The words that are left out: the article without a text. -/
def Word.LeftOut (word : Word) : Prop :=
  AList.lookup "Lemma" word.attributes = some "G3588" ∧ AList.lookup "Text" word.attributes = none

instance (word : Word) : Decidable word.LeftOut := inferInstanceAs (Decidable (_ ∧ _))

/-- The codes of the words that are not left out, in order. -/
def listedCodes (words : List Word) : List StrongsCode :=
  words.flatMap fun word => if word.LeftOut then [] else word.codes

/-! ## One code -/

namespace StrongsCode

/-- A character that no code spells. -/
theorem not_mem_spelling {c : Char} (hdigit : c.isDigit = false) (hH : c ≠ 'H') (hG : c ≠ 'G')
    (code : StrongsCode) : c ∉ code.spelling := by
  intro hmem
  rcases List.mem_cons.mp hmem with rfl | hmem
  · exact code.letter_eq.elim hH hG
  · rw [code.isDigit_of_mem c hmem] at hdigit
    cases hdigit

theorem letter_not_mem_digits {letter : Char} (hletter : letter = 'H' ∨ letter = 'G')
    (code : StrongsCode) : letter ∉ code.digits := by
  intro hmem
  have hdigit := code.isDigit_of_mem letter hmem
  rcases hletter with rfl | rfl <;> exact absurd hdigit (by decide)

theorem leftPadStrongsFormat_digits (code : StrongsCode) :
    leftPadStrongsFormat (.ofList code.digits) = formatZeroPadded 5 code.number := by
  rw [leftPadStrongsFormat, intValue, scanInteger_digits code.isDigit_of_mem code.number_le]
  rfl

/-- A code is kept where it has the letter that the lemma is split at. -/
theorem padStrongsKey_spelling {letter : Char} (hletter : letter = 'H' ∨ letter = 'G')
    (code : StrongsCode) :
    padStrongsKey letter (.ofList code.spelling) =
      if code.letter = letter then some code.padded else none := by
  have hblank : ' ' ∉ code.spelling := code.not_mem_spelling (by decide) (by decide) (by decide)
  have hdigits := letter_not_mem_digits hletter code
  by_cases h : code.letter = letter
  · rw [spelling, h] at hblank
    rw [if_pos h, spelling, h, padStrongsKey_cons hblank hdigits, leftPadStrongsFormat_digits,
      padded, h]
  · have hmem : letter ∉ code.spelling := by
      rw [spelling, List.mem_cons, not_or]
      exact ⟨Ne.symm h, hdigits⟩
    rw [if_neg h, padStrongsKey, trim_of_not_mem hblank, componentsSeparatedByString,
      String.toList_ofList, List.splitOn_eq_singleton hmem]
    rfl

/-- What is written for a code stands for it. -/
theorem stands_padded (code : StrongsCode) : Stands code.padded code := by
  obtain ⟨hdigits, hvalue⟩ := padded_digits (5 - (Nat.toDigits 10 code.number).length) code.number
  have hwritten := toList_formatZeroPadded 5 code.number
  rw [← hwritten] at hdigits hvalue
  refine ⟨(formatZeroPadded 5 code.number).toList, ?_, ?_, hdigits, hvalue⟩
  · rw [padded, String.toList_append, String.toList_ofList, List.singleton_append]
  · rw [hwritten]
    exact List.append_ne_nil_of_right_ne_nil _ Nat.toDigits_ne_nil

end StrongsCode

/-! ## One lemma -/

/-- A lemma with its separators replaced. -/
def spaced (codes : List StrongsCode) : List Char :=
  [' '].intercalate (codes.map StrongsCode.spelling)

/-- The codes that have the letter of the first one. -/
def kept : List StrongsCode → List StrongsCode
  | [] => []
  | code :: codes => (code :: codes).filter fun other => other.letter = code.letter

theorem length_kept_le (codes : List StrongsCode) : (kept codes).length ≤ codes.length := by
  cases codes with
  | nil => exact Nat.le_refl _
  | cons code codes => exact List.length_filter_le _ _

/-- No code is lost exactly where the codes have one letter. -/
theorem kept_eq_iff (codes : List StrongsCode) : kept codes = codes ↔ OneLetter codes := by
  cases codes with
  | nil => exact iff_of_true rfl fun code hcode => absurd hcode List.not_mem_nil
  | cons code codes =>
    rw [kept, List.filter_eq_self]
    constructor
    · intro h one hone other hother
      exact (of_decide_eq_true (h one hone)).trans (of_decide_eq_true (h other hother)).symm
    · intro h other hother
      exact decide_eq_true (h other hother code List.mem_cons_self)

theorem length_kept_eq_iff (codes : List StrongsCode) :
    (kept codes).length = codes.length ↔ kept codes = codes := by
  cases codes with
  | nil => exact iff_of_true rfl rfl
  | cons code codes => rw [kept, List.length_filter_eq_length_iff, List.filter_eq_self]

theorem replace_lemmaOf (codes : List StrongsCode) :
    stringByReplacingOccurrences (lemmaOf codes) "|x-Strongs:" " " = .ofList (spaced codes) := by
  have hbar : ∀ piece ∈ codes.map StrongsCode.spelling, '|' ∉ piece := by
    intro piece hpiece
    obtain ⟨code, -, rfl⟩ := List.mem_map.mp hpiece
    exact code.not_mem_spelling (by decide) (by decide) (by decide)
  exact (stringByReplacingOccurrences_ofList _ "|x-Strongs:".toList [' ']).trans
    (congrArg String.ofList (Lib.Replace.replace_intercalate hbar))

theorem componentsSeparatedByString_spaced {codes : List StrongsCode} (hne : codes ≠ []) :
    componentsSeparatedByString (.ofList (spaced codes)) ' ' =
      codes.map fun code => .ofList code.spelling :=
  components_intercalate hne fun code _ =>
    code.not_mem_spelling (by decide) (by decide) (by decide)

/-- A lemma begins with the letter of its first code. -/
theorem toList_spaced (code : StrongsCode) (codes : List StrongsCode) :
    ∃ rest, spaced (code :: codes) = code.letter :: rest := by
  cases codes with
  | nil => exact ⟨code.digits, List.intercalate_singleton⟩
  | cons other codes => exact ⟨_, List.intercalate_cons_cons⟩

/-- What is kept of a lemma is the codes with the letter of the first one. -/
theorem padStrongsNumber_spaced {codes : List StrongsCode} (hne : codes ≠ []) :
    padStrongsNumber (.ofList (spaced codes)) = (kept codes).map StrongsCode.padded := by
  have hcomponents := componentsSeparatedByString_spaced hne
  cases codes with
  | nil => exact absurd rfl hne
  | cons code codes =>
    obtain ⟨rest, hrest⟩ := toList_spaced code codes
    have hletter : padStrongsNumber (.ofList (spaced (code :: codes))) =
        ((code :: codes).map fun code => String.ofList code.spelling).filterMap
          (padStrongsKey code.letter) := by
      rw [← hcomponents]
      rcases code.letter_eq with h | h <;>
        simp only [padStrongsNumber, hasPrefix, String.toList_ofList, hrest, h] <;> rfl
    rw [hletter, kept, List.filterMap_map, ← List.filterMap_eq_map', List.filterMap_filter]
    apply List.filterMap_congr
    intro other _
    rw [Function.comp_apply, StrongsCode.padStrongsKey_spelling code.letter_eq]
    simp only [decide_eq_true_eq]

/-! ## The whole entry -/

/-- What the padded list holds of a word. -/
def keptOfWord (word : Word) : List StrongsCode := if word.LeftOut then [] else kept word.codes

theorem padStrongsNumbers_lemmaOfWord (word : Word) :
    (lemmaOfWord word.attributes).toList.flatMap padStrongsNumber =
      (keptOfWord word).map StrongsCode.padded := by
  have hlemma := word.lemma_eq
  rw [lemmaOfWord, keptOfWord]
  cases hcodes : word.codes with
  | nil =>
    rw [hcodes] at hlemma
    rw [hlemma, kept, ite_self]
    rfl
  | cons code codes =>
    have hne : code :: codes ≠ [] := List.cons_ne_nil code codes
    rw [hcodes] at hlemma
    simp only [List.isEmpty_cons, Bool.false_eq_true, if_false] at hlemma
    simp only [Word.LeftOut, hlemma, Option.some.injEq]
    split
    · rfl
    · rw [replace_lemmaOf, Option.toList_some, List.flatMap_singleton, padStrongsNumber_spaced hne]

/-- The padded list is what is kept of the words, in order. -/
theorem entryAttributeValuesLemmaNormalized_eq (M : SWModule Key) (m : ModuleState Key)
    {attributes : Dictionary (Dictionary String)} (words : List Word)
    (hattributes : AList.lookup "Word" (M.entryAttributes m.key) = some attributes)
    (hwords : attributes.entries.map (·.2) = words.map Word.attributes) :
    (entryAttributeValuesLemmaNormalized M m).1 =
      (words.flatMap keptOfWord).map StrongsCode.padded := by
  have hlemmas : (entryAttributeValuesLemma M m).1 =
      (words.map Word.attributes).filterMap lemmaOfWord := by
    rw [← hwords, List.filterMap_map]
    simp only [entryAttributeValuesLemma, strippedText, hattributes]
    rfl
  calc (entryAttributeValuesLemmaNormalized M m).1
      = padStrongsNumbers (entryAttributeValuesLemma M m).1 := rfl
    _ = words.flatMap fun word =>
          (lemmaOfWord word.attributes).toList.flatMap padStrongsNumber := by
        rw [hlemmas, padStrongsNumbers, filterMap_eq_flatMap_toList, List.flatMap_map,
          List.flatMap_assoc]
    _ = (words.flatMap keptOfWord).map StrongsCode.padded := by
        simp only [padStrongsNumbers_lemmaOfWord, List.map_flatMap]

/-- The padded list has one number for each code, in order, exactly where the codes of each word
that is not left out have one letter. -/
theorem entryAttributeValuesLemmaNormalized_iff (M : SWModule Key) (m : ModuleState Key)
    {attributes : Dictionary (Dictionary String)} (words : List Word)
    (hattributes : AList.lookup "Word" (M.entryAttributes m.key) = some attributes)
    (hwords : attributes.entries.map (·.2) = words.map Word.attributes) :
    List.Forall₂ StrongsCode.Stands (entryAttributeValuesLemmaNormalized M m).1
        (listedCodes words) ↔
      ∀ word ∈ words, ¬ word.LeftOut → OneLetter word.codes := by
  rw [entryAttributeValuesLemmaNormalized_eq M m words hattributes hwords]
  have hword : ∀ word : Word, (¬ word.LeftOut → OneLetter word.codes) ↔
      keptOfWord word = if word.LeftOut then [] else word.codes := by
    intro word
    by_cases hout : word.LeftOut
    · simp only [keptOfWord, hout, not_true_eq_false, false_implies, if_true]
    · simp only [keptOfWord, hout, not_false_eq_true, true_implies, if_false, kept_eq_iff]
  simp only [hword]
  constructor
  · intro hstands
    have hlength := hstands.length_eq
    rw [List.length_map] at hlength
    intro word hmem
    have hle : ∀ word ∈ words,
        (keptOfWord word).length ≤ (if word.LeftOut then [] else word.codes).length := by
      intro word _
      rw [keptOfWord]
      split
      · exact Nat.le_refl _
      · exact length_kept_le word.codes
    have hsame := length_eq_of_length_flatMap_eq hle hlength word hmem
    rw [keptOfWord] at hsame ⊢
    split at hsame
    · next hout => rw [if_pos hout, if_pos hout]
    · next hout => rw [if_neg hout, if_neg hout, (length_kept_eq_iff word.codes).mp hsame]
  · intro hkept
    have hcodes : words.flatMap keptOfWord = listedCodes words := List.flatMap_congr hkept
    rw [hcodes, List.forall₂_map_left_iff, List.forall₂_same]
    exact fun code _ => code.stands_padded

/-! ## A word with codes of both letters -/

/-- A word with a text and a lemma of these codes. -/
def wordOf (code : StrongsCode) (codes : List StrongsCode) : Word where
  attributes := AList.insert "Text" "God" (AList.insert "Lemma" (lemmaOf (code :: codes)) ∅)
  codes := code :: codes
  lemma_eq := by
    rw [Dictionary.lookup_insert, if_neg (by decide), Dictionary.lookup_insert, if_pos rfl]
    rfl

/-- A module with one entry of one word. -/
def wordModule (word : Word) : SWModule Unit where
  setText k _ := k
  getText _ := "Genesis 1:1"
  createKey := ()
  error _ := false
  renderText _ := some "God"
  stripText _ := some "God"
  entryAttributes _ := AList.insert "Word" (AList.insert "001" word.attributes ∅) ∅
  getConfigEntry _ := none
  has _ _ := false
  globalOption _ := false

def H430 : StrongsCode where
  letter := 'H'
  digits := ['4', '3', '0']
  letter_eq := Or.inl rfl
  digits_ne_nil := List.cons_ne_nil _ _
  isDigit_of_mem := List.all_eq_true.mp rfl
  number_le := by decide

def H853 : StrongsCode where
  letter := 'H'
  digits := ['0', '8', '5', '3']
  letter_eq := Or.inl rfl
  digits_ne_nil := List.cons_ne_nil _ _
  isDigit_of_mem := List.all_eq_true.mp rfl
  number_le := by decide

def G2316 : StrongsCode where
  letter := 'G'
  digits := ['2', '3', '1', '6']
  letter_eq := Or.inr rfl
  digits_ne_nil := List.cons_ne_nil _ _
  isDigit_of_mem := List.all_eq_true.mp rfl
  number_le := by decide

/-- A word of two Hebrew codes keeps both. -/
theorem entryAttributeValuesLemmaNormalized_hebrew :
    List.Forall₂ StrongsCode.Stands
      (entryAttributeValuesLemmaNormalized (wordModule (wordOf H430 [H853])) ⟨(), false, ∅⟩).1
      (listedCodes [wordOf H430 [H853]]) := by
  refine (entryAttributeValuesLemmaNormalized_iff (wordModule (wordOf H430 [H853]))
    ⟨(), false, ∅⟩ [wordOf H430 [H853]] rfl rfl).mpr ?_
  intro word hword _
  rw [List.mem_singleton.mp hword]
  exact (kept_eq_iff _).mp rfl

/-- Of a Hebrew and a Greek code in one word, the Greek one is lost. -/
theorem entryAttributeValuesLemmaNormalized_loses_greek :
    AList.lookup "Lemma" (wordOf H430 [G2316]).attributes = some "H430|x-Strongs:G2316" ∧
      listedCodes [wordOf H430 [G2316]] = [H430, G2316] ∧
      (entryAttributeValuesLemmaNormalized (wordModule (wordOf H430 [G2316]))
        ⟨(), false, ∅⟩).1 = ["H00430"] ∧
      ¬ List.Forall₂ StrongsCode.Stands
        (entryAttributeValuesLemmaNormalized (wordModule (wordOf H430 [G2316]))
          ⟨(), false, ∅⟩).1
        (listedCodes [wordOf H430 [G2316]]) := by
  have hlisted : listedCodes [wordOf H430 [G2316]] = [H430, G2316] := rfl
  have hvalue := entryAttributeValuesLemmaNormalized_eq (wordModule (wordOf H430 [G2316]))
    ⟨(), false, ∅⟩ [wordOf H430 [G2316]] rfl rfl
  refine ⟨rfl, hlisted, hvalue.trans (by decide), ?_⟩
  intro hstands
  have hlength := hstands.length_eq
  rw [hvalue, hlisted] at hlength
  exact absurd hlength (by decide)

end ObjCSword.SwordModule
