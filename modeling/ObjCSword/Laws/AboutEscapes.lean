import ObjCSword.Laws.AboutText

/-!
# The escapes of an about text

The scan of `aboutText` takes a `\u` and the units behind it for an escape as soon as the number
ends inside the text: a sign, digits, and the unit that ends them, which is the fallback character
of the escape. Where the text ends first, reading past its end raises, and the backslash is copied
like any other unit.

What the scan does not ask for is a digit. A text is read as it should be (`Reads`) exactly when no
place that is come to has a `\u` with no digit before the unit that ends it
(`readUnicodeChars_iff`): there the `\u`, its sign and that unit are lost, and a zero is written.
-/

namespace ObjCSword.SwordModule

open Sword NSString

/-! ## Reading escapes -/

/-- What the scan takes at the front of a text: a `\u`, a sign or none, digits, maybe none, and the
unit that ends them. -/
inductive Scanned (s : List unichar) : Bool → List unichar → List unichar → Prop
  | unsigned {digits rest : List unichar} {fallback : unichar}
      (hs : s = unicharOf '\\' :: unicharOf 'u' :: (digits ++ fallback :: rest))
      (hdigits : ∀ c ∈ digits, isdigit c = true) (hend : isdigit fallback = false)
      (hsign : digits = [] → fallback ≠ unicharOf '-') : Scanned s false digits rest
  | signed {digits rest : List unichar} {fallback : unichar}
      (hs : s = unicharOf '\\' :: unicharOf 'u' :: unicharOf '-' :: (digits ++ fallback :: rest))
      (hdigits : ∀ c ∈ digits, isdigit c = true) (hend : isdigit fallback = false) :
      Scanned s true digits rest

/-- The unit of an escape. -/
def escapeUnit (negative : Bool) (digits : List unichar) : unichar :=
  .ofInt (if negative then 65536 - numberOf digits else numberOf digits)

/-- A well-formed escape has a digit. -/
def Escape (s : List unichar) (unit : unichar) (rest : List unichar) : Prop :=
  ∃ negative digits, digits ≠ [] ∧ unit = escapeUnit negative digits ∧
    Scanned s negative digits rest

/-- A `\u` with no digit before the unit that ends it. -/
def Bare (s : List unichar) : Prop := ∃ negative rest, Scanned s negative [] rest

/-- How a text should be read: a well-formed escape is one unit, and anything else is copied. -/
inductive Reads : List unichar → List unichar → Prop
  | nil : Reads [] []
  | escape {s rest out : List unichar} {unit : unichar} (h : Escape s unit rest)
      (hrest : Reads rest out) : Reads s (unit :: out)
  | copy {c : unichar} {s out : List unichar} (h : ∀ unit rest, ¬ Escape (c :: s) unit rest)
      (hrest : Reads s out) : Reads (c :: s) (c :: out)

/-- The places that are come to in reading a text, each with the text from there on. -/
inductive Reached : List unichar → List unichar → Prop
  | start (s : List unichar) : Reached s s
  | escape {s rest t : List unichar} {unit : unichar} (h : Escape s unit rest)
      (hrest : Reached rest t) : Reached s t
  | copy {c : unichar} {s t : List unichar} (h : ∀ unit rest, ¬ Escape (c :: s) unit rest)
      (hrest : Reached s t) : Reached (c :: s) t

/-! ## What the scan takes -/

theorem minus_not_digit : isdigit (unicharOf '-') = false := by decide

/-- An unsigned number does not begin with a sign. -/
theorem head_ne_minus {digits rest : List unichar} {fallback : unichar}
    (hdigits : ∀ c ∈ digits, isdigit c = true) (hsign : digits = [] → fallback ≠ unicharOf '-')
    (tail : List unichar) : digits ++ fallback :: rest ≠ unicharOf '-' :: tail := by
  intro heq
  cases digits with
  | nil => exact hsign rfl (List.cons.inj heq).1
  | cons c digits =>
    have hc := hdigits c List.mem_cons_self
    rw [(List.cons.inj heq).1, minus_not_digit] at hc
    cases hc

theorem digits_unique {digits digits' rest rest' : List unichar} {fallback fallback' : unichar}
    (hdigits : ∀ c ∈ digits, isdigit c = true) (hend : isdigit fallback = false)
    (hdigits' : ∀ c ∈ digits', isdigit c = true) (hend' : isdigit fallback' = false)
    (h : digits ++ fallback :: rest = digits' ++ fallback' :: rest') :
    digits = digits' ∧ rest = rest' := by
  have htake := takeWhile_digits hdigits hend rest
  rw [h, takeWhile_digits hdigits' hend' rest'] at htake
  subst htake
  exact ⟨rfl, (List.cons.inj (List.append_cancel_left h)).2⟩

/-- A text tells what is taken at its front. -/
theorem Scanned.unique {s digits digits' rest rest' : List unichar} {negative negative' : Bool}
    (h : Scanned s negative digits rest) (h' : Scanned s negative' digits' rest') :
    negative = negative' ∧ digits = digits' ∧ rest = rest' := by
  cases h with
  | unsigned hs hdigits hend hsign =>
    cases h' with
    | unsigned hs' hdigits' hend' _ =>
      rw [hs, List.cons.injEq, List.cons.injEq] at hs'
      exact ⟨rfl, digits_unique hdigits hend hdigits' hend' hs'.2.2⟩
    | signed hs' _ _ =>
      rw [hs, List.cons.injEq, List.cons.injEq] at hs'
      exact absurd hs'.2.2 (head_ne_minus hdigits hsign _)
  | signed hs hdigits hend =>
    cases h' with
    | unsigned hs' hdigits' hend' hsign' =>
      rw [hs, List.cons.injEq, List.cons.injEq] at hs'
      exact absurd hs'.2.2.symm (head_ne_minus hdigits' hsign' _)
    | signed hs' hdigits' hend' =>
      rw [hs, List.cons.injEq, List.cons.injEq, List.cons.injEq] at hs'
      exact ⟨rfl, digits_unique hdigits hend hdigits' hend' hs'.2.2.2⟩

theorem Scanned.length_lt {s digits rest : List unichar} {negative : Bool}
    (h : Scanned s negative digits rest) : rest.length < s.length := by
  cases h with
  | unsigned hs _ _ _ =>
    rw [hs]
    simp only [List.length_cons, List.length_append]
    omega
  | signed hs _ _ =>
    rw [hs]
    simp only [List.length_cons, List.length_append]
    omega

/-- **What is taken becomes one unit.** -/
theorem readUnicodeChars_scanned {s digits rest : List unichar} {negative : Bool}
    (h : Scanned s negative digits rest) :
    readUnicodeChars 0 s = escapeUnit negative digits :: readUnicodeChars 0 rest := by
  cases h with
  | unsigned hs hdigits hend hsign =>
    rw [hs]
    exact readUnicodeChars_escape (readUnicodeChar_unsigned hdigits hend hsign rest)
  | @signed _ _ fallback hs hdigits hend =>
    have hread := readUnicodeChar_signed hdigits hend rest
    have hlength : 1 + digits.length = (unicharOf '-' :: digits).length := by
      rw [List.length_cons, Nat.add_comm]
    rw [hlength] at hread
    rw [hs]
    exact @readUnicodeChars_escape _ (unicharOf '-' :: digits) _ _ hread

/-- Digits that are not all of a text are ended by a unit of it. -/
theorem exists_fallback {units : List unichar}
    (h : (units.takeWhile isdigit).length ≠ units.length) :
    ∃ fallback rest, units = units.takeWhile isdigit ++ fallback :: rest ∧
      isdigit fallback = false := by
  have hsplit : units.takeWhile isdigit ++ units.dropWhile isdigit = units :=
    List.takeWhile_append_dropWhile
  cases hdrop : units.dropWhile isdigit with
  | nil =>
    rw [hdrop, List.append_nil] at hsplit
    exact absurd (congrArg List.length hsplit) h
  | cons fallback rest =>
    have hhead := List.head?_dropWhile_not isdigit units
    rw [hdrop] at hhead hsplit
    exact ⟨fallback, rest, hsplit.symm, by simpa using hhead⟩

/-- A number that is read ends inside the text. -/
theorem scanned_of_readUnicodeChar {units : List unichar} {scan : Int × Nat}
    (h : readUnicodeChar units = some scan) :
    ∃ negative digits rest,
      Scanned (unicharOf '\\' :: unicharOf 'u' :: units) negative digits rest := by
  have hdigits : ∀ units : List unichar, ∀ c ∈ units.takeWhile isdigit, isdigit c = true :=
    fun _ _ => List.mem_takeWhile_imp
  cases units with
  | nil => cases h
  | cons c units =>
    by_cases hminus : c = unicharOf '-'
    · by_cases hlength : (units.takeWhile isdigit).length = units.length
      · simp [readUnicodeChar, hminus, hlength] at h
      · obtain ⟨fallback, rest, hunits, hend⟩ := exists_fallback hlength
        exact ⟨true, _, rest, .signed (by rw [hminus, ← hunits]) (hdigits units) hend⟩
    · by_cases hlength : ((c :: units).takeWhile isdigit).length = (c :: units).length
      · simp [readUnicodeChar, hminus, hlength] at h
      · obtain ⟨fallback, rest, hunits, hend⟩ := exists_fallback hlength
        refine ⟨false, _, rest, .unsigned (by rw [← hunits]) (hdigits _) hend ?_⟩
        intro hnil
        rw [hnil, List.nil_append] at hunits
        exact (List.cons.inj hunits).1 ▸ hminus

/-- **Anything else is copied.** -/
theorem readUnicodeChars_copy {c : unichar} {s : List unichar}
    (h : ∀ negative digits rest, ¬ Scanned (c :: s) negative digits rest) :
    readUnicodeChars 0 (c :: s) = c :: readUnicodeChars 0 s := by
  have hnone : (if c = unicharOf '\\' ∧ s.head? = some (unicharOf 'u') then
      readUnicodeChar s.tail else none) = none := by
    by_cases hstarts : c = unicharOf '\\' ∧ s.head? = some (unicharOf 'u')
    · obtain ⟨rfl, hhead⟩ := hstarts
      obtain ⟨units, rfl⟩ := List.head?_eq_some_iff.mp hhead
      rw [if_pos ⟨rfl, hhead⟩, List.tail_cons]
      cases hscan : readUnicodeChar units with
      | none => rfl
      | some scan =>
        obtain ⟨negative, digits, rest, htaken⟩ := scanned_of_readUnicodeChar hscan
        exact absurd htaken (h negative digits rest)
    · rw [if_neg hstarts]
  rw [readUnicodeChars, hnone]

/-! ## When a text is read as it should be -/

theorem Escape.unique {s rest rest' : List unichar} {unit unit' : unichar}
    (h : Escape s unit rest) (h' : Escape s unit' rest') : unit = unit' ∧ rest = rest' := by
  obtain ⟨negative, digits, -, rfl, htaken⟩ := h
  obtain ⟨negative', digits', -, rfl, htaken'⟩ := h'
  obtain ⟨rfl, rfl, rfl⟩ := htaken.unique htaken'
  exact ⟨rfl, rfl⟩

theorem readUnicodeChars_of_escape {s rest : List unichar} {unit : unichar}
    (h : Escape s unit rest) : readUnicodeChars 0 s = unit :: readUnicodeChars 0 rest := by
  obtain ⟨negative, digits, -, rfl, htaken⟩ := h
  exact readUnicodeChars_scanned htaken

theorem not_escape_of_bare {s : List unichar} (h : Bare s) :
    ∀ unit rest, ¬ Escape s unit rest := by
  rintro unit rest ⟨negative, digits, hdigits, -, htaken⟩
  obtain ⟨negative', rest', htaken'⟩ := h
  exact hdigits (htaken.unique htaken').2.1

/-- A `\u` without a digit is a zero. -/
theorem readUnicodeChars_of_bare {s : List unichar} (h : Bare s) :
    ∃ rest, readUnicodeChars 0 s = 0 :: readUnicodeChars 0 rest := by
  obtain ⟨negative, rest, htaken⟩ := h
  have hzero : escapeUnit negative [] = 0 := by cases negative <;> decide
  exact ⟨rest, by rw [readUnicodeChars_scanned htaken, hzero]⟩

/-- What is taken at the front of a text is an escape or bare. -/
theorem readUnicodeChars_of_not {c : unichar} {s : List unichar}
    (hescape : ∀ unit rest, ¬ Escape (c :: s) unit rest) (hbare : ¬ Bare (c :: s)) :
    readUnicodeChars 0 (c :: s) = c :: readUnicodeChars 0 s := by
  refine readUnicodeChars_copy fun negative digits rest htaken => ?_
  by_cases hdigits : digits = []
  · rw [hdigits] at htaken
    exact hbare ⟨negative, rest, htaken⟩
  · exact hescape _ rest ⟨negative, digits, hdigits, rfl, htaken⟩

namespace Reads

theorem of_escape {s rest out : List unichar} {unit : unichar} (hreads : Reads s out)
    (h : Escape s unit rest) : ∃ out', out = unit :: out' ∧ Reads rest out' := by
  cases hreads with
  | nil =>
    obtain ⟨_, _, -, -, htaken⟩ := h
    exact absurd htaken.length_lt (Nat.not_lt_zero _)
  | escape h' hrest =>
    obtain ⟨rfl, rfl⟩ := h.unique h'
    exact ⟨_, rfl, hrest⟩
  | copy hnone _ => exact absurd h (hnone _ _)

theorem of_copy {c : unichar} {s out : List unichar} (hreads : Reads (c :: s) out)
    (h : ∀ unit rest, ¬ Escape (c :: s) unit rest) : ∃ out', out = c :: out' ∧ Reads s out' := by
  cases hreads with
  | escape h' _ => exact absurd h' (h _ _)
  | copy _ hrest => exact ⟨_, rfl, hrest⟩

end Reads

/-- A bare `\u` is a backslash that should be copied, and a zero is written. -/
theorem not_bare_of_reads {s : List unichar} (h : Reads s (readUnicodeChars 0 s)) : ¬ Bare s := by
  intro hbare
  have hnone := not_escape_of_bare hbare
  obtain ⟨rest, hzero⟩ := readUnicodeChars_of_bare hbare
  have hbackslash : ∃ tail, s = unicharOf '\\' :: tail := by
    obtain ⟨negative, rest, htaken⟩ := hbare
    cases htaken with
    | unsigned hs _ _ _ => exact ⟨_, hs⟩
    | signed hs _ _ => exact ⟨_, hs⟩
  obtain ⟨tail, rfl⟩ := hbackslash
  obtain ⟨out, hout, -⟩ := h.of_copy hnone
  rw [hzero] at hout
  exact absurd (List.cons.inj hout).1 (by decide)

/-- A text that is read as it should be is so at each place that is come to. -/
theorem reads_of_reached {s t : List unichar} (ht : Reached s t)
    (h : Reads s (readUnicodeChars 0 s)) : Reads t (readUnicodeChars 0 t) := by
  induction ht with
  | start s => exact h
  | escape hescape _ ih =>
    obtain ⟨out, hout, hrest⟩ := h.of_escape hescape
    rw [readUnicodeChars_of_escape hescape] at hout
    rw [← (List.cons.inj hout).2] at hrest
    exact ih hrest
  | copy hnone _ ih =>
    obtain ⟨out, hout, hrest⟩ := h.of_copy hnone
    rw [readUnicodeChars_of_not hnone (not_bare_of_reads h)] at hout
    rw [← (List.cons.inj hout).2] at hrest
    exact ih hrest

/-- Where nothing that is come to is bare, the text is read as it should be: an escape is taken for
one, and what is no escape is copied. -/
theorem reads_of_not_bare (s : List unichar) (h : ∀ t, Reached s t → ¬ Bare t) :
    Reads s (readUnicodeChars 0 s) := by
  induction hlength : s.length using Nat.strong_induction_on generalizing s with
  | _ length ih =>
    by_cases hescape : ∃ unit rest, Escape s unit rest
    · obtain ⟨unit, rest, hescape⟩ := hescape
      have hshorter : rest.length < length := by
        obtain ⟨_, _, -, -, htaken⟩ := hescape
        rw [← hlength]
        exact htaken.length_lt
      rw [readUnicodeChars_of_escape hescape]
      exact .escape hescape
        (ih _ hshorter rest (fun t ht => h t (.escape hescape ht)) rfl)
    · have hnone : ∀ unit rest, ¬ Escape s unit rest :=
        fun unit rest hs => hescape ⟨unit, rest, hs⟩
      cases s with
      | nil => exact .nil
      | cons c s =>
        have hshorter : s.length < length := by
          rw [← hlength]
          exact Nat.lt_succ_self _
        rw [readUnicodeChars_of_not hnone (h _ (.start _))]
        exact .copy hnone (ih _ hshorter s (fun t ht => h t (.copy hnone ht)) rfl)

/-- **A text is read as it should be exactly when no place that is come to has a `\u` without a
digit before the unit that ends it.** A `\u` that the text ends before is copied. -/
theorem readUnicodeChars_iff (s : List unichar) :
    Reads s (readUnicodeChars 0 s) ↔ ∀ t, Reached s t → ¬ Bare t := by
  constructor
  · exact fun h t ht => not_bare_of_reads (reads_of_reached ht h)
  · exact reads_of_not_bare s

/-- A control word for underlining is taken for an escape: its backslash and its letters are lost,
and a zero is written. -/
theorem underline_lost :
    aboutText (aboutModule "\\ul text") = 0 :: characters " text" ∧
      readUnicodeChars 0 (characters "\\ul text") = 0 :: characters " text" ∧
      ¬ Reads (characters "\\ul text") (readUnicodeChars 0 (characters "\\ul text")) := by
  refine ⟨by decide, by decide, fun h => not_bare_of_reads h ?_⟩
  have hend : isdigit (unicharOf 'l') = false := by decide
  exact ⟨false, characters " text", .unsigned rfl (fun c hc => absurd hc List.not_mem_nil) hend
    (fun _ => by decide)⟩

end ObjCSword.SwordModule
