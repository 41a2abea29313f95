import Mathlib.Data.List.Basic

/-!
# Decimal numerals of one length

Texts of decimal digits that have the same length are ordered as the numbers that they write: the
first digit in which they differ decides, since what follows it writes less than a unit of it
(`ofDigitChars_lt`).
-/

namespace Lib.Decimal

/-- The value of a digit. -/
theorem toNat_sub_lt {c : Char} (hc : c.isDigit = true) :
    '0'.toNat ≤ c.toNat ∧ c.toNat - '0'.toNat < 10 := by
  have hzero : '0'.toNat = 48 := rfl
  simp only [Char.isDigit, Bool.and_eq_true, decide_eq_true_eq] at hc
  have hlow : 48 ≤ c.toNat := hc.1
  have hhigh : c.toNat ≤ 57 := hc.2
  omega

theorem ofDigitChars_cons_zero (c : Char) (digits : List Char) :
    Nat.ofDigitChars 10 (c :: digits) 0 =
      Nat.pow 10 digits.length * (c.toNat - '0'.toNat) + Nat.ofDigitChars 10 digits 0 := by
  rw [Nat.ofDigitChars_cons, Nat.ofDigitChars_eq_ofDigitChars_zero, Nat.mul_zero, Nat.zero_add]
  rfl

/-- Digits write less than a one with as many zeros. -/
theorem ofDigitChars_lt {digits : List Char} (h : ∀ c ∈ digits, c.isDigit = true) :
    Nat.ofDigitChars 10 digits 0 < Nat.pow 10 digits.length := by
  induction digits with
  | nil => exact Nat.one_pos
  | cons c digits ih =>
    rw [List.forall_mem_cons] at h
    have hrest := ih h.2
    have hdigit := (toNat_sub_lt h.1).2
    have hvalue : Nat.pow 10 digits.length * (c.toNat - '0'.toNat) ≤
        Nat.pow 10 digits.length * 9 := Nat.mul_le_mul_left _ (by omega)
    have hpower : Nat.pow 10 (digits.length + 1) = Nat.pow 10 digits.length * 10 := rfl
    rw [ofDigitChars_cons_zero, List.length_cons, hpower]
    omega

/-- A larger first digit is worth a unit of it more. -/
theorem mul_add_le {x y unit : Nat} (h : x < y) : unit * x + unit ≤ unit * y := by
  have hstep := Nat.mul_le_mul_left unit (Nat.succ_le_of_lt h)
  rwa [Nat.mul_succ] at hstep

/-- **The order of numerals of one length is the order of their numbers.** -/
theorem lt_iff {a b : List Char} (hlength : a.length = b.length)
    (ha : ∀ c ∈ a, c.isDigit = true) (hb : ∀ c ∈ b, c.isDigit = true) :
    a < b ↔ Nat.ofDigitChars 10 a 0 < Nat.ofDigitChars 10 b 0 := by
  induction a generalizing b with
  | nil =>
    obtain rfl := List.length_eq_zero_iff.mp hlength.symm
    exact iff_of_false (List.lt_irrefl []) (Nat.lt_irrefl _)
  | cons c a ih =>
    cases b with
    | nil => cases hlength
    | cons d b =>
      rw [List.forall_mem_cons] at ha hb
      have hrest : a.length = b.length := Nat.succ.inj hlength
      have hva := ofDigitChars_lt ha.2
      have hvb := ofDigitChars_lt hb.2
      have hc := (toNat_sub_lt ha.1).1
      have hd := (toNat_sub_lt hb.1).1
      rw [List.cons_lt_cons_iff, ih hrest ha.2 hb.2, ofDigitChars_cons_zero,
        ofDigitChars_cons_zero, hrest]
      rw [hrest] at hva
      -- a larger first digit outweighs all that follows
      have hsmaller : ∀ x y : Nat, x < y →
          Nat.pow 10 b.length * x + Nat.pow 10 b.length ≤ Nat.pow 10 b.length * y :=
        fun _ _ => mul_add_le
      rcases Nat.lt_trichotomy c.toNat d.toNat with hcd | hcd | hcd
      · have hlt := hsmaller (c.toNat - '0'.toNat) (d.toNat - '0'.toNat) (by omega)
        exact iff_of_true (Or.inl hcd) (by omega)
      · obtain rfl : c = d := Char.toNat_inj.mp hcd
        have hself : ¬ c < c := Char.lt_irrefl c
        simp only [hself, false_or, true_and]
        omega
      · have hlt := hsmaller (d.toNat - '0'.toNat) (c.toNat - '0'.toNat) (by omega)
        refine iff_of_false ?_ (by omega)
        rintro (hless | ⟨rfl, -⟩)
        · exact Nat.lt_asymm hcd hless
        · exact Nat.lt_irrefl _ hcd

end Lib.Decimal
