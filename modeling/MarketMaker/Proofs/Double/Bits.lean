import MarketMaker.Decimal.Shortest
import MarketMaker.Proofs.Double.Comparison

/-!
# What the bits of a double say

The significand and the exponent that are read off the bits of a finite double are those of the
number it stands for (`denotes_binary`). No two doubles stand for the same number, except for the
zeros (`eq_of_denotes`).
-/

namespace MarketMaker.Double

open Float.Model (Format UnpackedFloat)
open Float.Model.UnpackedFloat (Sign unpackExponent unpackMantissa unpackSign)

variable {x y : Float} {a : EReal}

/-! ## Parts -/

/-- The bits of a double. -/
def bits (x : Float) : BitVec 64 := x.toBits.toBitVec

theorem eq_of_bits (h : bits x = bits y) : x = y := by
  obtain ⟨⟨m, _⟩⟩ := x
  obtain ⟨⟨m', _⟩⟩ := y
  obtain rfl : m = m' := UInt64.toBitVec_inj.1 h
  rfl

theorem toNat_unpackMantissa (b : BitVec 64) :
    (@unpackMantissa .binary64 b).toNat = b.toNat % 2 ^ 52 := by
  simp [unpackMantissa]

theorem toNat_unpackExponent (b : BitVec 64) :
    (@unpackExponent .binary64 b).toNat = b.toNat / 2 ^ 52 % 2 ^ 11 := by
  simp [unpackExponent, Nat.shiftRight_eq_div_pow]

theorem toNat_unpackSign (b : BitVec 64) :
    (@unpackSign .binary64 b).toNat = b.toNat / 2 ^ 63 := by
  have most := b.isLt
  simp [unpackSign, Nat.shiftRight_eq_div_pow]
  omega

theorem isNegative_iff (x : Float) :
    Decimal.isNegative x = true ↔ (bits x).toNat / 2 ^ 63 ≠ 0 := by
  have shifted : (x.toBits >>> 63).toNat = (bits x).toNat / 2 ^ 63 := by
    simp [bits, Nat.shiftRight_eq_div_pow]
  rw [Decimal.isNegative, bne_iff_ne, ← shifted, ne_eq, ne_eq, ← UInt64.toNat_inj]
  rfl

/-- The sign that a bit stands for. -/
def signOf (negative : Bool) : Sign :=
  if negative then .negative else .positive

theorem ofBitVec_unpackSign (x : Float) :
    Sign.ofBitVec (@unpackSign .binary64 (bits x)) = signOf (Decimal.isNegative x) := by
  have top := toNat_unpackSign (bits x)
  unfold Sign.ofBitVec signOf
  by_cases negative : Decimal.isNegative x = true
  · have one := (isNegative_iff x).1 negative
    rw [if_pos negative, if_neg fun zero => one (top.symm.trans (congrArg BitVec.toNat zero))]
  · have zero := not_not.1 fun one => negative ((isNegative_iff x).2 one)
    have plus : @unpackSign .binary64 (bits x) = 0#1 := BitVec.eq_of_toNat_eq (top.trans zero)
    rw [if_neg negative, if_pos plus]

/-- The exponent as the bits show it, which is never negative. -/
def biased (x : Float) : ℕ := (bits x).toNat / 2 ^ 52 % 2 ^ 11

/-- The digits as the bits show them, which is without the first. -/
def trailing (x : Float) : ℕ := (bits x).toNat % 2 ^ 52

theorem binary_eq (x : Float) : Decimal.binary x =
    if biased x = 0 then (trailing x, -1074) else (2 ^ 52 + trailing x, (biased x : ℤ) - 1075) := by
  have exponent : ((x.toBits >>> 52) &&& 0x7FF).toNat = biased x := by
    rw [UInt64.toNat_and, UInt64.toNat_shiftRight]
    exact (Nat.and_two_pow_sub_one_eq_mod _ 11).trans (by rw [Nat.shiftRight_eq_div_pow]; rfl)
  have fraction : (x.toBits &&& 0xFFFFFFFFFFFFF).toNat = trailing x := by
    rw [UInt64.toNat_and]
    exact Nat.and_two_pow_sub_one_eq_mod _ 52
  simp only [Decimal.binary]
  rw [exponent, fraction]
  rfl

theorem canonical_binary (x : Float) :
    Canonical (Decimal.binary x).1 (Decimal.binary x).2 := by
  have digits : trailing x < 2 ^ 52 := Nat.mod_lt _ (by norm_num)
  rw [binary_eq]
  split_ifs with least
  · exact ⟨by omega, le_rfl, .inr rfl⟩
  · exact ⟨by omega, by omega, .inl (Nat.le_add_right _ _)⟩

theorem unpack_toModel (x : Float) : x.toModel.unpack = ofParts (signOf (Decimal.isNegative x))
    (@unpackExponent .binary64 (bits x)) (@unpackMantissa .binary64 (bits x)) := by
  rw [← ofBitVec_unpackSign]
  exact unpack_eq (bits x)

/-- The number that a finite double stands for, read off its bits. -/
theorem denotes_binary (finite : x.isFinite = true) :
    Denotes x (signed (signOf (Decimal.isNegative x))
      (quanta (Decimal.binary x).1 (Decimal.binary x).2) : ℝ) := by
  have shape := unpack_toModel x
  change x.toModel.unpack.isFinite = true at finite
  have exponent : (@unpackExponent .binary64 (bits x)).toNat = biased x :=
    toNat_unpackExponent (bits x)
  have digits : (@unpackMantissa .binary64 (bits x)).toNat = trailing x :=
    toNat_unpackMantissa (bits x)
  rw [shape, ofParts, exponent, digits] at finite
  unfold Denotes
  rw [binary_eq, shape, ofParts, exponent, digits]
  split_ifs at finite with top all zero
  · exact absurd finite Bool.false_ne_true
  · exact absurd finite Bool.false_ne_true
  · have none : biased x = 0 := exponent.symm.trans (congrArg BitVec.toNat zero)
    rw [if_neg top, if_pos zero, if_pos none]
    exact number?_ofQuanta ..
  · have some : biased x ≠ 0 := fun h => zero (BitVec.eq_of_toNat_eq (exponent.trans h))
    rw [if_neg top, if_neg zero, if_neg some]
    exact number?_ofQuanta ..

/-! ## Equality -/

theorem eq_of_binary (sign : Decimal.isNegative x = Decimal.isNegative y)
    (binary : Decimal.binary x = Decimal.binary y) : x = y := by
  have signx := isNegative_iff x
  have signy := isNegative_iff y
  have mostx := (bits x).isLt
  have mosty := (bits y).isLt
  have digitsx : trailing x < 2 ^ 52 := Nat.mod_lt _ (by norm_num)
  have digitsy : trailing y < 2 ^ 52 := Nat.mod_lt _ (by norm_num)
  have top : (bits x).toNat / 2 ^ 63 = (bits y).toNat / 2 ^ 63 := by
    rw [sign] at signx
    have same := signx.symm.trans signy
    omega
  have parts : biased x = biased y ∧ trailing x = trailing y := by
    rw [binary_eq, binary_eq] at binary
    split_ifs at binary with zerox zeroy zeroy
    · rw [Prod.mk.injEq] at binary
      omega
    · rw [Prod.mk.injEq] at binary
      omega
    · rw [Prod.mk.injEq] at binary
      omega
    · rw [Prod.mk.injEq] at binary
      omega
  unfold biased trailing at parts
  apply eq_of_bits
  apply BitVec.eq_of_toNat_eq
  omega

/-- Only the zeros have no digits. -/
theorem eq_zero_of_binary (zero : (Decimal.binary x).1 = 0) :
    x = if Decimal.isNegative x then -0.0 else 0.0 := by
  obtain ⟨_, _, full | least⟩ := canonical_binary x
  · omega
  · have binary : Decimal.binary x = (0, -1074) := Prod.ext zero least
    cases sign : Decimal.isNegative x with
    | true => exact eq_of_binary (sign.trans (by decide +kernel)) (binary.trans (by decide +kernel))
    | false => exact eq_of_binary (sign.trans (by decide +kernel)) (binary.trans (by decide +kernel))

theorem isInf_ofQuanta (s : Sign) (m : ℕ) (e : ℤ) : (ofQuanta s m e).isInf = false := by
  unfold ofQuanta
  split <;> rfl

/-- There are two infinities, one of either sign. -/
theorem eq_infinity (infinite : x.isInf = true) :
    x = if Decimal.isNegative x then -(1.0 / 0.0) else 1.0 / 0.0 := by
  change x.toModel.unpack.isInf = true at infinite
  rw [unpack_toModel, ofParts] at infinite
  have parts : @unpackExponent .binary64 (bits x) = -1#11 ∧
      @unpackMantissa .binary64 (bits x) = 0#52 := by
    split_ifs at infinite with top zero least
    · exact ⟨top, zero⟩
    · exact absurd infinite Bool.false_ne_true
    · exact absurd infinite (by simp [isInf_ofQuanta])
    · exact absurd infinite (by simp [isInf_ofQuanta])
  have exponent : biased x = 2047 :=
    (toNat_unpackExponent (bits x)).symm.trans (congrArg BitVec.toNat parts.1)
  have digits : trailing x = 0 :=
    (toNat_unpackMantissa (bits x)).symm.trans (congrArg BitVec.toNat parts.2)
  have binary : Decimal.binary x = (2 ^ 52, 972) := by
    rw [binary_eq, exponent, digits]
    rfl
  cases sign : Decimal.isNegative x with
  | true => exact eq_of_binary (sign.trans (by decide +kernel)) (binary.trans (by decide +kernel))
  | false => exact eq_of_binary (sign.trans (by decide +kernel)) (binary.trans (by decide +kernel))

theorem eq_of_quanta {m m' : ℕ} {e e' : ℤ} (h : Canonical m e) (h' : Canonical m' e')
    (same : quanta m e = quanta m' e') : m = m' ∧ e = e' := by
  obtain rfl : e = e' := by
    rcases lt_trichotomy e e' with less | equal | greater
    · exact absurd same (quanta_lt h h' less).ne
    · exact equal
    · exact absurd same (quanta_lt h' h greater).ne'
  have digits := mul_right_cancel₀ (two_zpow_pos e).ne' same
  exact ⟨Nat.cast_injective digits, rfl⟩

theorem eq_of_signed {b c : Bool} {r s : ℝ} (hr : 0 ≤ r) (hs : 0 ≤ s)
    (same : signed (signOf b) r = signed (signOf c) s) (nonzero : signed (signOf b) r ≠ 0) :
    b = c ∧ r = s := by
  cases b <;> cases c
  · exact ⟨rfl, same⟩
  · have positive : 0 < r := hr.lt_of_ne' nonzero
    change r = -s at same
    linarith
  · have negative : r ≠ 0 := fun zero => nonzero (by rw [zero]; exact neg_zero)
    have positive : 0 < r := hr.lt_of_ne' negative
    change -r = s at same
    linarith
  · exact ⟨rfl, neg_injective same⟩

/-- No two doubles stand for the same number, if that is not zero. -/
theorem eq_of_denotes {r : ℝ} (hx : Denotes x r) (hy : Denotes y r) (nonzero : r ≠ 0) : x = y := by
  have valuex := EReal.coe_injective ((denotes_binary (isFinite_iff.2 ⟨r, hx⟩)).unique hx)
  have valuey := EReal.coe_injective ((denotes_binary (isFinite_iff.2 ⟨r, hy⟩)).unique hy)
  obtain ⟨sign, same⟩ := eq_of_signed (mul_nonneg (Nat.cast_nonneg _) (two_zpow_pos _).le)
    (mul_nonneg (Nat.cast_nonneg _) (two_zpow_pos _).le) (valuex.trans valuey.symm)
    (valuex ▸ nonzero)
  obtain ⟨digits, exponent⟩ := eq_of_quanta (canonical_binary x) (canonical_binary y) same
  exact eq_of_binary sign (Prod.ext digits exponent)

end MarketMaker.Double
