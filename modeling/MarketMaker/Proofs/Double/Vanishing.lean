import MarketMaker.Proofs.Double.Comparison

/-!
# What vanishes

What is left of a double less one that stands for the same number is zero or, where the two are
infinite, no number (`vanishes_sub`). That passes through products, quotients, sums and roots.
-/

namespace MarketMaker.Double

open Float.Model (UnpackedFloat)

variable {x y : Float} {a : EReal}

/-- No number, or zero. -/
def Vanishes (x : Float) : Prop :=
  ∀ a, Denotes x a → a = 0

theorem vanishes_iff : Vanishes x ↔ ¬x < 0.0 ∧ ¬0.0 < x := by
  constructor
  · intro h
    constructor
    · intro less
      obtain ⟨a, _, ha, hb, below⟩ := exists_of_lt less
      obtain rfl := hb.unique denotes_zero_literal
      exact below.ne (h a ha)
    · intro less
      obtain ⟨_, a, hb, ha, above⟩ := exists_of_lt less
      obtain rfl := hb.unique denotes_zero_literal
      exact above.ne' (h a ha)
  · rintro ⟨notBelow, notAbove⟩ a ha
    rw [lt_iff_of_denotes ha denotes_zero_literal, not_lt] at notBelow
    rw [lt_iff_of_denotes denotes_zero_literal ha, not_lt] at notAbove
    exact notAbove.antisymm notBelow

instance (x : Float) : Decidable (Vanishes x) :=
  decidable_of_iff _ vanishes_iff.symm

theorem vanishes_sub (hx : Denotes x a) (hy : Denotes y a) : Vanishes (x - y) := by
  intro c hc
  rw [sub_eq_add] at hc
  obtain ⟨b, b', hb, hb', definite, rfl⟩ := exists_of_denotes_add hc
  obtain rfl := hb.unique hx
  obtain rfl := hb'.unique hy.neg
  induction b with
  | bot => exact absurd (.inr ⟨rfl, EReal.neg_bot⟩) definite
  | coe r => rw [← EReal.coe_neg, ← EReal.coe_add, add_neg_cancel, EReal.coe_zero, round_zero]
  | top => exact absurd (.inl ⟨rfl, EReal.neg_top⟩) definite

theorem Vanishes.add (hx : Vanishes x) (hy : Vanishes y) : Vanishes (x + y) := by
  intro c hc
  obtain ⟨a, b, ha, hb, _, rfl⟩ := exists_of_denotes_add hc
  rw [hx a ha, hy b hb, add_zero, round_zero]

theorem Vanishes.sub (hx : Vanishes x) (hy : Vanishes y) : Vanishes (x - y) := by
  intro c hc
  obtain ⟨a, b, ha, hb, rfl⟩ := exists_of_denotes_sub hc
  rw [hx a ha, hy b hb, sub_zero, round_zero]

theorem Vanishes.mul_left (hy : Vanishes y) (x : Float) : Vanishes (x * y) := by
  intro c hc
  obtain ⟨_, b, _, hb, _, rfl⟩ := exists_of_denotes_mul hc
  rw [hy b hb, mul_zero, round_zero]

theorem Vanishes.mul_right (hx : Vanishes x) (y : Float) : Vanishes (x * y) := by
  intro c hc
  obtain ⟨a, _, ha, _, _, rfl⟩ := exists_of_denotes_mul hc
  rw [hx a ha, zero_mul, round_zero]

/-- Zero divided by anything is zero or no number. -/
theorem Vanishes.div (hx : Vanishes x) (y : Float) : Vanishes (x / y) := by
  intro c hc
  obtain ⟨a, _, ha, _⟩ := exists_denotes_of_strict (f := UnpackedFloat.div .binary64)
    (fun v => by cases v <;> rfl) (fun u => by cases u <;> rfl) hc
  obtain rfl := hx a ha
  obtain ⟨s, zero⟩ := eq_zero_of_number? ha
  change Denotes (.ofModel (.pack (UnpackedFloat.div .binary64 x.toModel.unpack y.toModel.unpack)))
    c at hc
  rw [zero] at hc
  generalize y.toModel.unpack = v at hc
  cases v with
  | notANumber => exact absurd hc not_denotes_notANumber
  | infinity s' => exact hc.unique (denotes_zero (s / s'))
  | zero s' => exact absurd hc not_denotes_notANumber
  | finite s' m e positive => exact hc.unique (denotes_zero (s / s'))

theorem Vanishes.sqrt (hx : Vanishes x) : Vanishes x.sqrt := by
  intro c hc
  cases number : x.isNaN with
  | true =>
    change Denotes (.ofModel (.pack (UnpackedFloat.sqrt .binary64 x.toModel.unpack))) c at hc
    rw [unpack_of_isNaN number] at hc
    exact absurd hc not_denotes_notANumber
  | false =>
    obtain ⟨a, ha⟩ := exists_denotes number
    obtain rfl := hx a ha
    have root := Denotes.sqrt (r := 0) ha le_rfl
    rw [Real.sqrt_zero, EReal.coe_zero, round_zero] at root
    exact hc.unique root

end MarketMaker.Double
