/-
# The attempt in the id of a step

Specification, section 4.6 (b): an id matches `^<kind>-correction-<N>$`.

The id of a correction step is a kind, the mark `-correction-` and the digits of the
attempt. The digits at the end of an id are cut off first, as many as there are; the mark
ends in a character that is no digit, so an id can be read in one way only, and what is
read is what is written (`attemptOfId?_eq_some_iff`).
-/

import Strata.Correction.Policy

namespace Strata
namespace Correction
namespace Policy

open Text

/-- An id that ends in an attempt: a kind without line feeds, the mark, and the decimal
digits of the attempt, perhaps behind zeros. -/
def EndsInAttempt (id : String) (n : Int) : Prop :=
  ∃ kind digits : List Char, id.toList = kind ++ attemptMark ++ digits ∧
    kind ≠ [] ∧ '\n' ∉ kind ∧
    digits ≠ [] ∧ (∀ x ∈ digits, isDecimal x = true) ∧ (decimalValue digits : Int) = n

/-! ### Digits -/

theorem isDigit_of_isDecimal {x : Char} (h : isDecimal x = true) : isDigit x = true := by
  obtain ⟨-, hnine⟩ := Bool.and_eq_true_iff.1 h
  have hascii : x.toNat < 0x80 :=
    Nat.lt_of_le_of_lt (show x.toNat ≤ '9'.toNat from of_decide_eq_true hnine) (by decide)
  rw [isDigit, if_pos hascii]
  exact h

theorem append_cutDigits (cs : List Char) : (cutDigits cs).1 ++ (cutDigits cs).2 = cs := by
  have hsuffix : (cutDigits cs).2 <:+ cs := by
    rw [← List.reverse_prefix, cutDigits, List.reverse_reverse]
    exact List.takeWhile_prefix isDigit
  obtain ⟨front, hfront⟩ := hsuffix
  have hlength : cs.length - (cutDigits cs).2.length = front.length := by
    rw [← congrArg List.length hfront, List.length_append, Nat.add_sub_cancel]
  calc (cutDigits cs).1 ++ (cutDigits cs).2
      = cs.take (cs.length - (cutDigits cs).2.length) ++ (cutDigits cs).2 := rfl
    _ = cs.take front.length ++ (cutDigits cs).2 := by rw [hlength]
    _ = front ++ (cutDigits cs).2 := by rw [← hfront, List.take_left]
    _ = cs := hfront

/-- All the digits at the end are cut off, and nothing else. -/
theorem cutDigits_append {front digits : List Char} (hdigits : ∀ x ∈ digits, isDigit x = true)
    (hfront : ∀ x, front.getLast? = some x → isDigit x = false) :
    cutDigits (front ++ digits) = (front, digits) := by
  have hnone : front.reverse.takeWhile isDigit = [] := by
    cases hback : front.reverse with
    | nil => rfl
    | cons x back =>
      have hlast : front.getLast? = some x := by rw [List.getLast?_eq_head?_reverse, hback]; rfl
      exact List.takeWhile_cons_of_neg (by simp [hfront x hlast])
  have hcut : ((front ++ digits).reverse.takeWhile isDigit).reverse = digits := by
    rw [List.reverse_append, List.takeWhile_append_of_pos (by simpa using hdigits), hnone,
      List.append_nil, List.reverse_reverse]
  rw [cutDigits, hcut, List.length_append, Nat.add_sub_cancel, List.take_left]

theorem attemptValue?_eq_some_iff {digits : List Char} {n : Int64} :
    attemptValue? digits = some n ↔
      digits ≠ [] ∧ (∀ x ∈ digits, isDecimal x = true) ∧ (decimalValue digits : Int) = n.toInt := by
  have hread : decimal? digits = if digits ≠ [] ∧ ∀ x ∈ digits, isDecimal x = true then
      some (decimalValue digits) else none := by
    by_cases h : digits ≠ [] ∧ ∀ x ∈ digits, isDecimal x = true
    · rw [if_pos h, decimal?, if_neg (by simpa using h)]
    · rw [if_neg h, decimal?, if_pos (by simpa [Decidable.or_iff_not_imp_left] using h)]
  rw [attemptValue?, hread]
  by_cases h : digits ≠ [] ∧ ∀ x ∈ digits, isDecimal x = true
  · simp only [if_pos h, Option.ite_none_right_eq_some, Option.some.injEq, ← and_assoc]
    rw [and_iff_right h]
    constructor
    · rintro ⟨hlt, rfl⟩
      exact (Int64.toInt_ofNat_of_lt hlt).symm
    · intro hvalue
      have hlt : decimalValue digits < 2 ^ 63 := by
        have := n.toInt_lt
        omega
      exact ⟨hlt, Int64.toInt_inj.1 ((Int64.toInt_ofNat_of_lt hlt).trans hvalue)⟩
  · simp only [if_neg h, ← and_assoc]
    exact iff_of_false (fun hnone => by cases hnone) fun hall => h hall.1

/-- **The attempt of an id is what the id ends in.** -/
theorem attemptOfId?_eq_some_iff {id : String} {n : Int64} :
    attemptOfId? id = some n ↔ EndsInAttempt id n.toInt := by
  -- the mark ends in no digit, so cutting the digits stops there
  have hmark : ∀ kind : List Char, ∀ x, (kind ++ attemptMark).getLast? = some x →
      isDigit x = false := by
    intro kind x hx
    have hend : attemptMark = "-correction".toList ++ ['-'] := by decide
    rw [hend, ← List.append_assoc, List.getLast?_concat] at hx
    obtain rfl : '-' = x := Option.some.inj hx
    decide
  constructor
  · intro h
    have hsplit := append_cutDigits id.toList
    rw [attemptOfId?] at h
    generalize cutDigits id.toList = parts at h hsplit
    obtain ⟨front, digits⟩ := parts
    dsimp only at h hsplit
    split at h
    · rename_i hsuffix
      obtain ⟨kind, rfl⟩ := List.isSuffixOf_iff_suffix.1 hsuffix
      rw [List.length_append, Nat.add_sub_cancel, List.take_left] at h
      split at h
      · cases h
      · rename_i hkind
        rw [Bool.or_eq_true, not_or, List.isEmpty_iff, List.contains_iff_mem] at hkind
        exact ⟨kind, digits, hsplit.symm, hkind.1, hkind.2, attemptValue?_eq_some_iff.1 h⟩
    · cases h
  · rintro ⟨kind, digits, hid, hkind, hline, hvalue⟩
    have hcut := cutDigits_append (fun x hx => isDigit_of_isDecimal (hvalue.2.1 x hx)) (hmark kind)
    have hsuffix : attemptMark.isSuffixOf (kind ++ attemptMark) = true :=
      List.isSuffixOf_iff_suffix.2 (List.suffix_append kind attemptMark)
    rw [attemptOfId?, hid, hcut]
    dsimp only
    rw [if_pos hsuffix, List.length_append, Nat.add_sub_cancel, List.take_left,
      if_neg (by simp [hkind, hline])]
    exact attemptValue?_eq_some_iff.2 hvalue

end Policy
end Correction
end Strata
