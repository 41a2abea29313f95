import ObjCSword.Lib.Replace

/-!
# Texts with control words

A text may hold control words between its items: words that all begin with one mark, which occurs
nowhere else in them. Reading a text from the left, where the longest word is taken that stands
there, cuts it into pieces (`pieces`). Replacing every occurrence of one word does the same on the
pieces as long as the word begins only at pieces that are the word (`replace_flatten`). Once other
words were taken out, it may begin elsewhere, because what stood around a word is joined then.

Whether it does can be told by counting: a word occurs in a text at least once for each of its
pieces, and no more often exactly when it begins only there (`occurrences_eq_count_iff`). What one
replacement does to the occurrences of another word is bounded (`occurrences_le`), so the length of
a text after several replacements tells whether they met new words.
-/

namespace Lib.Markup

open Lib.Replace

variable {α W : Type}

/-! ## Occurrences -/

section Occurrences

variable [DecidableEq α]

/-- How often a word begins in a text. -/
def occurrences (word : List α) : List α → Nat
  | [] => 0
  | a :: rest => (if word.isPrefixOf (a :: rest) then 1 else 0) + occurrences word rest

/-- A text is built from its end by the occurrences of a word and the items at which it does not
begin: the cases of a replacement of the word. -/
@[elab_as_elim]
theorem replace_induction {word : List α} (hne : word ≠ []) {motive : List α → Prop}
    (nil : motive [])
    (occurrence : ∀ rest, motive rest → motive (word ++ rest))
    (miss : ∀ a rest, word.isPrefixOf (a :: rest) = false → motive rest → motive (a :: rest)) :
    ∀ s, motive s
  | [] => nil
  | a :: rest => by
    cases hstarts : word.isPrefixOf (a :: rest) with
    | false => exact miss a rest hstarts (replace_induction hne nil occurrence miss rest)
    | true =>
      obtain ⟨after, hafter⟩ := List.isPrefixOf_iff_prefix.mp hstarts
      have hshorter : after.length < (a :: rest).length := by
        have hpos := List.length_pos_iff.mpr hne
        rw [← hafter, List.length_append]
        omega
      rw [← hafter]
      exact occurrence after (replace_induction hne nil occurrence miss after)
termination_by s => s.length
decreasing_by
  · exact Nat.lt_succ_self _
  · exact hshorter

variable {mark : α} {tail : List α}

/-- A word does not begin at an item that is not its mark. -/
theorem isPrefixOf_of_ne {a : α} (h : a ≠ mark) (rest : List α) :
    (mark :: tail).isPrefixOf (a :: rest) = false := by
  rw [List.isPrefixOf, beq_false_of_ne (Ne.symm h), Bool.false_and]

/-- A word does not begin in what does not hold its mark. -/
theorem occurrences_append {piece : List α} (h : mark ∉ piece) (rest : List α) :
    occurrences (mark :: tail) (piece ++ rest) = occurrences (mark :: tail) rest := by
  induction piece with
  | nil => rfl
  | cons a piece ih =>
    rw [List.mem_cons, not_or] at h
    have hmiss : (mark :: tail).isPrefixOf (a :: (piece ++ rest)) = false :=
      isPrefixOf_of_ne (Ne.symm h.1) _
    rw [List.cons_append, occurrences, hmiss, ih h.2]
    exact Nat.zero_add _

/-- An occurrence, and those behind it: a word whose mark is not in its tail does not overlap with
itself. -/
theorem occurrences_word (h : mark ∉ tail) (rest : List α) :
    occurrences (mark :: tail) (mark :: tail ++ rest) =
      1 + occurrences (mark :: tail) rest := by
  have hhead : (mark :: tail).isPrefixOf (mark :: tail ++ rest) = true :=
    List.isPrefixOf_iff_prefix.mpr (List.prefix_append _ _)
  rw [List.cons_append] at hhead ⊢
  rw [occurrences, hhead, occurrences_append h]
  rfl

/-- **The length of a text after a replacement.** -/
theorem length_replace (h : mark ∉ tail) (replacement s : List α) :
    (replace (mark :: tail) replacement 0 s).length +
        (mark :: tail).length * occurrences (mark :: tail) s =
      s.length + replacement.length * occurrences (mark :: tail) s := by
  induction s using replace_induction (List.cons_ne_nil mark tail) with
  | nil => rfl
  | occurrence rest ih =>
    rw [replace_occurrence (List.cons_ne_nil mark tail), occurrences_word h, List.length_append,
      List.length_append, Nat.mul_add, Nat.mul_add]
    omega
  | miss a rest hmiss ih =>
    have hcount : occurrences (mark :: tail) (a :: rest) = occurrences (mark :: tail) rest := by
      rw [occurrences, hmiss]
      exact Nat.zero_add _
    rw [replace_cons_of_miss hmiss, hcount]
    simp only [List.length_cons] at ih ⊢
    omega

/-- **Taking a word out** takes at most one occurrence of another word each time. -/
theorem occurrences_le {tail' : List α} (h : mark ∉ tail) (h' : mark ∉ tail') (s : List α) :
    occurrences (mark :: tail) s ≤
      occurrences (mark :: tail) (replace (mark :: tail') [] 0 s) +
        occurrences (mark :: tail') s := by
  induction s using replace_induction (List.cons_ne_nil mark tail') with
  | nil => exact Nat.zero_le _
  | occurrence rest ih =>
    -- the word may begin where the other does, and then begins no more in it
    have hinner : occurrences (mark :: tail) (mark :: tail' ++ rest) ≤
        1 + occurrences (mark :: tail) rest := by
      rw [List.cons_append, occurrences, occurrences_append h']
      split <;> omega
    rw [replace_occurrence (List.cons_ne_nil mark tail'), List.nil_append, occurrences_word h']
    omega
  | miss a rest hmiss ih =>
    rw [replace_cons_of_miss hmiss, occurrences, occurrences, occurrences, hmiss]
    cases hstarts : (mark :: tail).isPrefixOf (a :: rest) with
    | false => simp only [Bool.false_eq_true, if_false]; omega
    | true =>
      -- the word's tail holds no mark, so it is still there
      have hkept : (mark :: tail).isPrefixOf
          (a :: replace (mark :: tail') [] 0 rest) = true := by
        obtain ⟨after, hafter⟩ := List.isPrefixOf_iff_prefix.mp hstarts
        have hcons : mark :: (tail ++ after) = a :: rest := hafter
        obtain ⟨hmark, htail⟩ := List.cons.inj hcons
        rw [← hmark, ← htail, List.isPrefixOf_iff_prefix, replace_append_of_not_mem h]
        exact ⟨_, rfl⟩
      rw [hkept]
      simp only [Bool.false_eq_true, if_true, if_false]
      omega

end Occurrences

/-! ## Pieces -/

/-- Words that begin with one mark, which is not in their tails. -/
structure Vocabulary (α W : Type) where
  mark : α
  tail : W → List α
  mark_not_mem : ∀ word, mark ∉ tail word

/-- An item or a word. -/
inductive Piece (α W : Type) where
  | item (a : α)
  | word (word : W)
deriving DecidableEq

namespace Vocabulary

variable (V : Vocabulary α W)

def spell (word : W) : List α := V.mark :: V.tail word

/-- What a piece is in the text. -/
def text : Piece α W → List α
  | .item a => [a]
  | .word word => V.spell word

/-- The text of pieces. -/
def flatten (pieces : List (Piece α W)) : List α := pieces.flatMap V.text

/-- The pieces of a text that is read from the left; `longest` tells which word is taken at the
front. The counter is the rest of a word that was just taken. -/
def pieces (longest : List α → Option W) : Nat → List α → List (Piece α W)
  | _, [] => []
  | skip + 1, _ :: rest => pieces longest skip rest
  | 0, a :: rest =>
    match longest (a :: rest) with
    | some word => .word word :: pieces longest (V.tail word).length rest
    | none => .item a :: pieces longest 0 rest

/-- The word begins at no piece but those that are the word. -/
def BeginsOnlyAt (word : W) : List (Piece α W) → Prop
  | [] => True
  | piece :: rest =>
    (V.spell word <+: V.flatten (piece :: rest) → piece = .word word) ∧ BeginsOnlyAt word rest

/-- Words are taken where they stand. -/
def Reads (longest : List α → Option W) : Prop :=
  ∀ s word, longest s = some word → V.spell word <+: s

variable {V}

theorem spell_ne_nil (word : W) : V.spell word ≠ [] := List.cons_ne_nil _ _

theorem flatten_cons (piece : Piece α W) (rest : List (Piece α W)) :
    V.flatten (piece :: rest) = V.text piece ++ V.flatten rest := List.flatMap_cons

section Reading

variable {longest : List α → Option W}

theorem pieces_skip (skipped rest : List α) :
    V.pieces longest skipped.length (skipped ++ rest) = V.pieces longest 0 rest := by
  induction skipped with
  | nil => rfl
  | cons a skipped ih =>
    rw [List.length_cons, List.cons_append, pieces]
    exact ih

theorem pieces_word {word : W} {rest : List α} (h : longest (V.spell word ++ rest) = some word) :
    V.pieces longest 0 (V.spell word ++ rest) = .word word :: V.pieces longest 0 rest := by
  rw [spell, List.cons_append] at h ⊢
  rw [pieces, h]
  exact congrArg _ (pieces_skip (V.tail word) rest)

theorem pieces_item {a : α} {rest : List α} (h : longest (a :: rest) = none) :
    V.pieces longest 0 (a :: rest) = .item a :: V.pieces longest 0 rest := by
  rw [pieces, h]

/-- The cases of reading a text from the left. -/
@[elab_as_elim]
theorem pieces_induction (hreads : V.Reads longest) {motive : List α → Prop} (nil : motive [])
    (word : ∀ word rest, longest (V.spell word ++ rest) = some word → motive rest →
      motive (V.spell word ++ rest))
    (item : ∀ a rest, longest (a :: rest) = none → motive rest → motive (a :: rest)) :
    ∀ s, motive s
  | [] => nil
  | a :: rest => by
    cases hlongest : longest (a :: rest) with
    | none => exact item a rest hlongest (pieces_induction hreads nil word item rest)
    | some w =>
      obtain ⟨after, hafter⟩ := hreads _ _ hlongest
      have hshorter : after.length < (a :: rest).length := by
        rw [← hafter, List.length_append, spell, List.length_cons]
        omega
      rw [← hafter] at hlongest ⊢
      exact word w after hlongest (pieces_induction hreads nil word item after)
termination_by s => s.length
decreasing_by
  · exact Nat.lt_succ_self _
  · exact hshorter

/-- Nothing is lost. -/
theorem flatten_pieces (hreads : V.Reads longest) (s : List α) :
    V.flatten (V.pieces longest 0 s) = s := by
  induction s using pieces_induction hreads with
  | nil => rfl
  | word w rest h ih => rw [pieces_word h, flatten_cons, ih, text]
  | item a rest h ih => rw [pieces_item h, flatten_cons, ih, text, List.singleton_append]

/-- A word that is taken wherever it stands begins only at its pieces. -/
theorem beginsOnlyAt_pieces (hreads : V.Reads longest) {w : W}
    (htaken : ∀ s, V.spell w <+: s → longest s = some w) (s : List α) :
    V.BeginsOnlyAt w (V.pieces longest 0 s) := by
  induction s using pieces_induction hreads with
  | nil => trivial
  | word w' rest h ih =>
    rw [pieces_word h]
    refine ⟨fun hbegins => ?_, ih⟩
    rw [flatten_cons, flatten_pieces hreads, text] at hbegins
    rw [htaken _ hbegins, Option.some.injEq] at h
    rw [h]
  | item a rest h ih =>
    rw [pieces_item h]
    refine ⟨fun hbegins => ?_, ih⟩
    rw [flatten_cons, flatten_pieces hreads, text, List.singleton_append] at hbegins
    rw [htaken _ hbegins] at h
    cases h

end Reading

/-- Behind its first item a piece holds no mark. -/
theorem text_eq_cons (V : Vocabulary α W) (piece : Piece α W) :
    ∃ a more, V.text piece = a :: more ∧ V.mark ∉ more := by
  cases piece with
  | item a => exact ⟨a, [], rfl, List.not_mem_nil⟩
  | word w => exact ⟨V.mark, V.tail w, rfl, V.mark_not_mem w⟩

variable [DecidableEq α]

/-- A piece at which the word does not begin is kept. -/
theorem replace_text {w : W} {piece : Piece α W} {rest : List α} (replacement : List α)
    (h : ¬ V.spell w <+: V.text piece ++ rest) :
    replace (V.spell w) replacement 0 (V.text piece ++ rest) =
      V.text piece ++ replace (V.spell w) replacement 0 rest := by
  obtain ⟨a, more, htext, hmark⟩ := V.text_eq_cons piece
  rw [htext, List.cons_append] at h ⊢
  have hmiss : (V.spell w).isPrefixOf (a :: (more ++ rest)) = false := by
    rw [← Bool.not_eq_true, List.isPrefixOf_iff_prefix]
    exact h
  rw [replace_cons_of_miss hmiss, spell, replace_append_of_not_mem hmark, List.cons_append]

/-- The occurrences of a word, piece by piece. -/
theorem occurrences_text (w : W) (piece : Piece α W) (rest : List α) :
    occurrences (V.spell w) (V.text piece ++ rest) =
      (if V.spell w <+: V.text piece ++ rest then 1 else 0) + occurrences (V.spell w) rest := by
  obtain ⟨a, more, htext, hmark⟩ := V.text_eq_cons piece
  rw [htext, List.cons_append, occurrences, spell, occurrences_append hmark]
  simp only [List.isPrefixOf_iff_prefix]

/-- A word occurs at least once for each piece that begins as it does. -/
theorem countP_le_occurrences {w : W} {begins : Piece α W → Bool}
    (h : ∀ piece rest, begins piece = true → V.spell w <+: V.text piece ++ rest)
    (pieces : List (Piece α W)) :
    pieces.countP begins ≤ occurrences (V.spell w) (V.flatten pieces) := by
  induction pieces with
  | nil => exact Nat.le_refl _
  | cons piece pieces ih =>
    rw [flatten_cons, occurrences_text, List.countP_cons]
    by_cases hpiece : begins piece = true
    · rw [if_pos hpiece, if_pos (h piece _ hpiece)]
      omega
    · rw [if_neg hpiece]
      omega

variable [DecidableEq W]

/-- **Replacing a word that begins only at its pieces** replaces these. -/
theorem replace_flatten {w : W} {pieces : List (Piece α W)} (h : V.BeginsOnlyAt w pieces)
    (replacement : List α) :
    replace (V.spell w) replacement 0 (V.flatten pieces) =
      pieces.flatMap fun piece => if piece = .word w then replacement else V.text piece := by
  induction pieces with
  | nil => rfl
  | cons piece pieces ih =>
    obtain ⟨hbegins, hrest⟩ := h
    rw [flatten_cons] at hbegins ⊢
    rw [List.flatMap_cons, ← ih hrest]
    by_cases hpiece : piece = .word w
    · rw [if_pos hpiece, hpiece, text]
      exact replace_occurrence (spell_ne_nil w) _
    · rw [if_neg hpiece]
      exact replace_text replacement fun hstarts => hpiece (hbegins hstarts)

/-- Taking it out takes out its pieces. -/
theorem remove_flatten {w : W} {pieces : List (Piece α W)} (h : V.BeginsOnlyAt w pieces) :
    replace (V.spell w) [] 0 (V.flatten pieces) =
      V.flatten (pieces.filter fun piece => piece ≠ .word w) := by
  rw [replace_flatten h]
  clear h
  induction pieces with
  | nil => rfl
  | cons piece pieces ih =>
    rw [List.flatMap_cons, ih]
    by_cases hpiece : piece = .word w
    · rw [if_pos hpiece, List.filter_cons_of_neg (by simpa using hpiece), List.nil_append]
    · rw [if_neg hpiece, List.filter_cons_of_pos (by simpa using hpiece), flatten_cons]

theorem begins_word (w : W) (piece : Piece α W) (rest : List α)
    (h : decide (piece = .word w) = true) : V.spell w <+: V.text piece ++ rest := by
  rw [of_decide_eq_true h]
  exact List.prefix_append _ _

/-- **A word occurs no more often than its pieces exactly when it begins only at them.** -/
theorem occurrences_eq_count_iff (w : W) (pieces : List (Piece α W)) :
    occurrences (V.spell w) (V.flatten pieces) = pieces.countP (fun piece => piece = .word w) ↔
      V.BeginsOnlyAt w pieces := by
  induction pieces with
  | nil => exact iff_of_true rfl trivial
  | cons piece pieces ih =>
    have hle := countP_le_occurrences (begins_word (V := V) w) pieces
    rw [BeginsOnlyAt, ← ih, flatten_cons, occurrences_text, List.countP_cons]
    by_cases hpiece : piece = .word w
    · have hstarts : V.spell w <+: V.text piece ++ V.flatten pieces :=
        begins_word w piece _ (decide_eq_true hpiece)
      rw [if_pos hstarts, if_pos (decide_eq_true hpiece)]
      exact ⟨fun h => ⟨fun _ => hpiece, by omega⟩, fun h => by omega⟩
    · have hother : ¬ decide (piece = .word w) = true := fun h => hpiece (of_decide_eq_true h)
      rw [if_neg hother]
      by_cases hstarts : V.spell w <+: V.text piece ++ V.flatten pieces
      · rw [if_pos hstarts]
        exact ⟨fun h => by omega, fun h => absurd (h.1 hstarts) hpiece⟩
      · rw [if_neg hstarts]
        exact ⟨fun h => ⟨fun hbegins => absurd hbegins hstarts, by omega⟩, fun h => by omega⟩

end Vocabulary

end Lib.Markup
