import ObjCSword.Lib.Markup
import ObjCSword.SwordModule

/-!
# The markup of an about text

`aboutText` begins with three replacements: centering and paragraph resets are ignored, paragraph
breaks are honoured. Each replacement reads what the one before has left, so a control word that is
taken out may join what stood on its two sides to another one. Read from the left once, taking the
longest control word at each place, a text has its control words where they were written.

`replaceMarkup_eq_iff` says when the three replacements do the same: exactly for the texts in which
no control word is interrupted by others that are taken out before it is looked for. The one
direction is that each replacement then finds the pieces of its word; the other counts: what the
replacements take away or shorten must be what the pieces account for.
-/

namespace ObjCSword.SwordModule

open Sword NSString Lib.Replace Lib.Markup Lib.Markup.Vocabulary

variable {Key : Type}

/-! ## The control words -/

inductive ControlWord where
  | qc | pard | par
deriving DecidableEq, Repr

namespace ControlWord

/-- The word behind its backslash. -/
def tail : ControlWord → List unichar
  | qc => characters "qc"
  | pard => characters "pard"
  | par => characters "par"

/-- What is written for the word. -/
def written : ControlWord → List unichar
  | qc => []
  | pard => []
  | par => [unicharOf '\n']

end ControlWord

def controlWords : Vocabulary unichar ControlWord where
  mark := unicharOf '\\'
  tail := ControlWord.tail
  mark_not_mem word := by cases word <;> decide

/-- The longest control word at the front of a text. -/
def longestWord (s : List unichar) : Option ControlWord :=
  if (characters "\\pard").isPrefixOf s then some .pard
  else if (characters "\\par").isPrefixOf s then some .par
  else if (characters "\\qc").isPrefixOf s then some .qc
  else none

/-- The replacements at the start of `aboutText`. -/
def replaceMarkup (aboutText : List unichar) : List unichar :=
  let aboutText := replace (characters "\\qc") [] 0 aboutText
  let aboutText := replace (characters "\\pard") [] 0 aboutText
  replace (characters "\\par") [unicharOf '\n'] 0 aboutText

theorem aboutText_eq (M : SWModule Key) :
    aboutText M =
      match configFileEntryForConfigKey M SWMOD_CONFENTRY_ABOUT with
      | none => []
      | some confEntry => readUnicodeChars 0 (replaceMarkup (characters confEntry)) := rfl

/-- The units and control words of a text, read once from the left. -/
def markupPieces (s : List unichar) : List (Piece unichar ControlWord) :=
  controlWords.pieces longestWord 0 s

/-- What is written for a piece. -/
def pieceWritten : Piece unichar ControlWord → List unichar
  | .item c => [c]
  | .word word => word.written

/-- One pass over a text: the longest control word at each place, or else one unit. -/
def readMarkup (s : List unichar) : List unichar := (markupPieces s).flatMap pieceWritten

/-! ## The pieces -/

/-- What is taken stands there, and no longer word does. -/
theorem longestWord_spec {s : List unichar} {word : ControlWord} (h : longestWord s = some word) :
    controlWords.spell word <+: s ∧
      ∀ other, controlWords.spell other <+: s →
        (controlWords.spell other).length ≤ (controlWords.spell word).length := by
  have hreads : ∀ word : ControlWord, (controlWords.spell word).isPrefixOf s = true →
      controlWords.spell word <+: s := fun _ => List.isPrefixOf_iff_prefix.mp
  unfold longestWord at h
  split at h
  · next hpard =>
    cases h
    refine ⟨hreads .pard hpard, fun other _ => ?_⟩
    cases other <;> decide
  · next hpard =>
    have hnot : ¬ controlWords.spell .pard <+: s :=
      fun hprefix => hpard (List.isPrefixOf_iff_prefix.mpr hprefix)
    split at h
    · next hpar =>
      cases h
      refine ⟨hreads .par hpar, fun other hother => ?_⟩
      cases other with
      | pard => exact absurd hother hnot
      | par => decide
      | qc => decide
    · next hpar =>
      split at h
      · next hqc =>
        cases h
        refine ⟨hreads .qc hqc, fun other hother => ?_⟩
        cases other with
        | pard => exact absurd hother hnot
        | par => exact absurd (List.isPrefixOf_iff_prefix.mpr hother) hpar
        | qc => decide
      · cases h

theorem longestWord_reads : controlWords.Reads longestWord := fun _ _ h => (longestWord_spec h).1

theorem longestWord_of_qc {s : List unichar} (h : controlWords.spell .qc <+: s) :
    longestWord s = some .qc := by
  obtain ⟨rest, rfl⟩ := h
  rfl

/-! ## The replacements on the pieces -/

/-- The pieces without a word. -/
def leaveOut (word : ControlWord) (pieces : List (Piece unichar ControlWord)) :
    List (Piece unichar ControlWord) := pieces.filter fun piece => piece ≠ .word word

/-- No control word is interrupted: a `\pard` begins only at a `\pard` once the `\qc`s are left out,
and a `\par` only at a `\par` once the `\pard`s are left out as well. -/
structure Uninterrupted (s : List unichar) : Prop where
  pard : controlWords.BeginsOnlyAt .pard (leaveOut .qc (markupPieces s))
  par : controlWords.BeginsOnlyAt .par (leaveOut .pard (leaveOut .qc (markupPieces s)))

/-- The first replacement finds the pieces of its word in every text. -/
theorem replace_qc_eq (s : List unichar) :
    replace (characters "\\qc") [] 0 s =
      controlWords.flatten (leaveOut .qc (markupPieces s)) := by
  have honly := beginsOnlyAt_pieces longestWord_reads (fun _ => longestWord_of_qc) s
  have hremove := remove_flatten honly
  rw [flatten_pieces longestWord_reads] at hremove
  exact hremove

/-- What is written for the pieces, once the two words that are ignored are left out. -/
theorem flatMap_leaveOut (pieces : List (Piece unichar ControlWord)) :
    (leaveOut .pard (leaveOut .qc pieces)).flatMap
        (fun piece => if piece = .word .par then [unicharOf '\n'] else controlWords.text piece) =
      pieces.flatMap pieceWritten := by
  induction pieces with
  | nil => rfl
  | cons piece pieces ih =>
    rw [List.flatMap_cons, ← ih]
    cases piece with
    | item c => rfl
    | word word => cases word <;> rfl

/-! ## Counting -/

/-- How often a word is among the pieces. -/
def count (word : ControlWord) (pieces : List (Piece unichar ControlWord)) : Nat :=
  pieces.countP fun piece => piece = .word word

theorem count_cons (word : ControlWord) (piece : Piece unichar ControlWord)
    (pieces : List (Piece unichar ControlWord)) :
    count word (piece :: pieces) = count word pieces + if piece = .word word then 1 else 0 := by
  rw [count, List.countP_cons, count]
  simp only [decide_eq_true_eq]

/-- Leaving out a word leaves none of it and all of the others. -/
theorem count_leaveOut (word other : ControlWord) (pieces : List (Piece unichar ControlWord)) :
    count word (leaveOut other pieces) = if word = other then 0 else count word pieces := by
  by_cases h : word = other
  · rw [if_pos h, count, leaveOut, List.countP_filter, List.countP_eq_zero]
    intro piece _
    simp [h]
  · rw [if_neg h, count, leaveOut, List.countP_filter, count]
    congr 1
    funext piece
    by_cases hpiece : piece = .word word
    · simp [hpiece, h]
    · simp [hpiece]

/-- The pieces account for the length of a text: of a reset or centering nothing is written, and of
a break one unit. -/
theorem length_flatten (pieces : List (Piece unichar ControlWord)) :
    (controlWords.flatten pieces).length =
      (pieces.flatMap pieceWritten).length +
        (3 * count .qc pieces + 5 * count .pard pieces + 3 * count .par pieces) := by
  induction pieces with
  | nil => rfl
  | cons piece pieces ih =>
    have hpiece : (controlWords.text piece).length =
        (pieceWritten piece).length + (3 * (if piece = .word .qc then 1 else 0) +
          5 * (if piece = .word .pard then 1 else 0) +
          3 * (if piece = .word .par then 1 else 0)) := by
      cases piece with
      | item c => rfl
      | word word => cases word <;> rfl
    rw [flatten_cons, List.flatMap_cons, List.length_append, List.length_append, count_cons,
      count_cons, count_cons, hpiece, ih]
    omega

theorem flatMap_leaveOut_qc (pieces : List (Piece unichar ControlWord)) :
    (leaveOut .qc pieces).flatMap pieceWritten = pieces.flatMap pieceWritten := by
  induction pieces with
  | nil => rfl
  | cons piece pieces ih =>
    rw [List.flatMap_cons, ← ih]
    cases piece with
    | item c => rfl
    | word word => cases word <;> rfl

/-- A `\par` begins at each break, and at each reset as well. -/
theorem count_le_occurrences_par (pieces : List (Piece unichar ControlWord)) :
    count .par pieces + count .pard pieces ≤
      occurrences (controlWords.spell .par) (controlWords.flatten pieces) := by
  have hsum : count .par pieces + count .pard pieces =
      pieces.countP fun piece => piece = .word .par ∨ piece = .word .pard := by
    induction pieces with
    | nil => rfl
    | cons piece pieces ih =>
      rw [count_cons, count_cons, List.countP_cons, ← ih]
      cases piece with
      | item c => rfl
      | word word => cases word <;> simp <;> omega
  rw [hsum]
  refine countP_le_occurrences (fun piece rest hpiece => ?_) pieces
  rcases of_decide_eq_true hpiece with rfl | rfl
  · exact List.prefix_append _ _
  · exact ⟨unicharOf 'd' :: rest, rfl⟩

/-- What the last two replacements leave of a text: they take five units for each `\pard` and three
for each `\par` that they meet. -/
theorem length_replace_twice (s : List unichar) :
    (replace (controlWords.spell .par) [unicharOf '\n'] 0
        (replace (controlWords.spell .pard) [] 0 s)).length +
      3 * occurrences (controlWords.spell .par) (replace (controlWords.spell .pard) [] 0 s) +
      5 * occurrences (controlWords.spell .pard) s = s.length := by
  have hpard : (replace (controlWords.spell .pard) [] 0 s).length +
      5 * occurrences (controlWords.spell .pard) s =
        s.length + 0 * occurrences (controlWords.spell .pard) s :=
    length_replace (controlWords.mark_not_mem .pard) [] s
  generalize replace (controlWords.spell .pard) [] 0 s = rest at hpard ⊢
  have hpar : (replace (controlWords.spell .par) [unicharOf '\n'] 0 rest).length +
      4 * occurrences (controlWords.spell .par) rest =
        rest.length + 1 * occurrences (controlWords.spell .par) rest :=
    length_replace (controlWords.mark_not_mem .par) [unicharOf '\n'] rest
  omega

/-- Where the last two replacements leave as much as the pieces account for, they met no word but
the pieces: a `\par` that is lost with a new `\pard` cannot be made up for. -/
theorem beginsOnlyAt_of_length {pieces : List (Piece unichar ControlWord)}
    (hqc : count .qc pieces = 0)
    (h : (replace (controlWords.spell .par) [unicharOf '\n'] 0
        (replace (controlWords.spell .pard) [] 0 (controlWords.flatten pieces))).length =
      (pieces.flatMap pieceWritten).length) :
    controlWords.BeginsOnlyAt .pard pieces ∧
      controlWords.BeginsOnlyAt .par (leaveOut .pard pieces) := by
  have hflat := length_flatten pieces
  have htwice := length_replace_twice (controlWords.flatten pieces)
  have hpards : count .pard pieces ≤
      occurrences (controlWords.spell .pard) (controlWords.flatten pieces) :=
    countP_le_occurrences (begins_word (V := controlWords) .pard) pieces
  have hpars := count_le_occurrences_par pieces
  have hlost : occurrences (controlWords.spell .par) (controlWords.flatten pieces) ≤
      occurrences (controlWords.spell .par)
          (replace (controlWords.spell .pard) [] 0 (controlWords.flatten pieces)) +
        occurrences (controlWords.spell .pard) (controlWords.flatten pieces) :=
    occurrences_le (controlWords.mark_not_mem .par) (controlWords.mark_not_mem .pard) _
  have hfound : occurrences (controlWords.spell .pard) (controlWords.flatten pieces) =
      count .pard pieces := by omega
  have honly : controlWords.BeginsOnlyAt .pard pieces :=
    (occurrences_eq_count_iff .pard pieces).mp hfound
  have hleft : count .par (leaveOut .pard pieces) = count .par pieces :=
    count_leaveOut .par .pard pieces
  rw [remove_flatten honly] at h htwice hlost
  refine ⟨honly, (occurrences_eq_count_iff .par (leaveOut .pard pieces)).mp ?_⟩
  change occurrences _ (controlWords.flatten (leaveOut .pard pieces)) =
    count .par (leaveOut .pard pieces)
  rw [leaveOut] at hleft ⊢
  omega

/-- **The three replacements are one pass exactly when no control word is interrupted.** -/
theorem replaceMarkup_eq_iff (s : List unichar) :
    replaceMarkup s = readMarkup s ↔ Uninterrupted s := by
  have hpasses : replaceMarkup s = replace (controlWords.spell .par) [unicharOf '\n'] 0
      (replace (controlWords.spell .pard) [] 0
        (controlWords.flatten (leaveOut .qc (markupPieces s)))) := by
    rw [← replace_qc_eq]
    rfl
  rw [hpasses]
  constructor
  · intro h
    have hqc : count .qc (leaveOut .qc (markupPieces s)) = 0 := count_leaveOut .qc .qc _
    have hlength := congrArg List.length h
    rw [readMarkup, ← flatMap_leaveOut_qc] at hlength
    obtain ⟨hpard, hpar⟩ := beginsOnlyAt_of_length hqc hlength
    exact ⟨hpard, hpar⟩
  · rintro ⟨hpard, hpar⟩
    rw [remove_flatten hpard]
    exact (replace_flatten hpar _).trans (flatMap_leaveOut _)

/-- A paragraph break and a `d`, with centering between them: the break is lost, and the `d`. -/
theorem replaceMarkup_joined :
    replaceMarkup (characters "Line\\par\\qcdone") = characters "Lineone" ∧
      readMarkup (characters "Line\\par\\qcdone") = characters "Line\ndone" ∧
      replaceMarkup (characters "Line\\par\\qcdone") ≠
        readMarkup (characters "Line\\par\\qcdone") := by
  decide

end ObjCSword.SwordModule
