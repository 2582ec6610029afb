import MarketMaker.Proofs.Decimal.Digits

/-!
# Digits around a point

A decimal that is set out around its point, without an exponent, keeps its value
(`Layout.tens_position`).
-/

namespace MarketMaker

open Double (tens)

/-- Digits and nothing else, at least one of them in front of the point. -/
structure Numeral.IsPlain (n : Numeral) : Prop where
  nonempty : n.whole ≠ []
  whole : ∀ c ∈ n.whole, c.isDigit
  fraction : ∀ c ∈ n.fraction, c.isDigit
  exponent : n.exponent = none

namespace Layout

open Numeral

variable (l : Layout) (negative : Bool) {digits : List Char} (lead : ℤ)

theorem isDigit_of_mem_replicate {n : ℕ} {c : Char} (h : c ∈ List.replicate n '0') : c.isDigit := by
  rw [List.eq_of_mem_replicate h]
  decide

theorem isPlain_position (nonempty : digits ≠ []) (row : ∀ c ∈ digits, c.isDigit) :
    (l.position negative digits lead).IsPlain := by
  unfold position
  simp only
  split_ifs with small whole point
  · refine ⟨by simp, by simp, fun c member => ?_, rfl⟩
    rcases List.mem_append.1 member with zero | digit
    · exact isDigit_of_mem_replicate zero
    · exact row c digit
  · refine ⟨by simp [nonempty], fun c member => ?_, by simp, rfl⟩
    rcases List.mem_append.1 member with digit | zero
    · exact row c digit
    · exact isDigit_of_mem_replicate zero
  · refine ⟨by simp [nonempty], fun c member => ?_, by simp, rfl⟩
    rcases List.mem_append.1 member with digit | zero
    · exact row c digit
    · exact isDigit_of_mem_replicate zero
  · refine ⟨?_, fun c member => row c (List.mem_of_mem_take member),
      fun c member => row c (List.mem_of_mem_drop member), rfl⟩
    have some : (lead + 1).toNat ≠ 0 := by omega
    simp [List.take_eq_nil_iff, nonempty, some]

theorem negative_position (digits : List Char) :
    (l.position negative digits lead).negative = negative := by
  unfold position
  simp only
  split_ifs <;> rfl

/-- Setting digits out around the point changes nothing of what they stand for. -/
theorem tens_position (digits : List Char) :
    tens (l.position negative digits lead).significand (l.position negative digits lead).scale =
      tens (natural digits) (lead + 1 - digits.length) := by
  -- A whole number has zeros behind its digits, of which one may stand behind the point.
  have padded : ∀ j : ℕ, digits.length ≤ (lead + 1).toNat → 0 < lead + 1 →
      tens (natural (digits ++ List.replicate ((lead + 1).toNat - digits.length) '0' ++
        List.replicate j '0')) (0 - j) = tens (natural digits) (lead + 1 - digits.length) := by
    intro j fits positive
    rw [List.append_assoc, List.replicate_append_replicate, natural_append_replicate,
      Double.tens_mul]
    have exponent : (0 - j + ((lead + 1).toNat - digits.length + j : ℕ) : ℤ) =
        lead + 1 - digits.length := by omega
    rw [exponent]
  unfold position
  simp only
  split_ifs with small whole point
  · have value : natural (['0'] ++ (List.replicate (-(lead + 1)).toNat '0' ++ digits)) =
        natural digits := by
      rw [← List.append_assoc]
      exact natural_replicate_append ((-(lead + 1)).toNat + 1) digits
    have shift : (0 : ℤ) - (List.replicate (-(lead + 1)).toNat '0' ++ digits).length =
        lead + 1 - digits.length := by
      rw [List.length_append, List.length_replicate]
      omega
    exact congrArg₂ tens value shift
  · exact padded 1 whole (not_le.1 small)
  · exact padded 0 whole (not_le.1 small)
  · have value : natural (digits.take (lead + 1).toNat ++ digits.drop (lead + 1).toNat) =
        natural digits := by rw [List.take_append_drop]
    have shift : (0 : ℤ) - (digits.drop (lead + 1).toNat).length = lead + 1 - digits.length := by
      rw [List.length_drop]
      omega
    exact congrArg₂ tens value shift

theorem scale_position (nonempty : digits ≠ []) :
    (l.position negative digits lead).scale ≤ 0 ∧
      (-1 ≤ (l.position negative digits lead).scale ∨
        (l.position negative digits lead).scale = lead + 1 - digits.length) := by
  have some : 0 < digits.length := List.length_pos_iff.2 nonempty
  unfold position
  simp only
  split_ifs with small whole point
  · simp only [scale, Option.elim_none, List.length_append, List.length_replicate]
    omega
  · simp [scale]
  · simp [scale]
  · simp only [scale, Option.elim_none, List.length_drop]
    omega

end Layout

end MarketMaker
