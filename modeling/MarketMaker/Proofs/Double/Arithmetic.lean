import MarketMaker.Proofs.Double.Meaning

/-!
# Arithmetic on doubles

Sums, differences and products of doubles are the exact ones, rounded (`Denotes.add`, `Denotes.sub`,
`Denotes.mul`), and so is the double of a count. Only where the exact result depends on how infinities
are reached is there none.
-/

namespace MarketMaker.Double

open Float.Model (Format UnpackedFloat totalExponent)
open Float.Model.UnpackedFloat (Accuracy ExtendedMantissa Sign roundWithAccuracy)

variable {x y : Float} {a b : EReal}

/-! ## Signs -/

theorem nearest_signed (s : Sign) (r : ℝ) : nearest (signed s r) = signed s (nearest r) := by
  cases s with
  | negative => exact nearest_neg r
  | positive => rfl

theorem signed_mul (s s' : Sign) (r r' : ℝ) :
    signed (s * s') (r * r') = signed s r * signed s' r' := by
  cases s <;> cases s'
  · exact (neg_mul_neg r r').symm
  · exact (neg_mul r r').symm
  · exact (mul_neg r r').symm
  · rfl

theorem infinite_mul (s s' : Sign) : infinite (s * s') = infinite s * infinite s' := by
  cases s <;> cases s' <;> rfl

theorem infinite_mul_signed (s s' : Sign) {r : ℝ} (positive : 0 < r) :
    infinite (s * s') = infinite s * signed s' r := by
  cases s <;> cases s'
  · exact (EReal.bot_mul_coe_of_neg (neg_neg_of_pos positive)).symm
  · exact (EReal.bot_mul_coe_of_pos positive).symm
  · exact (EReal.top_mul_coe_of_neg (neg_neg_of_pos positive)).symm
  · exact (EReal.top_mul_coe_of_pos positive).symm

@[simp] theorem round_infinite (s : Sign) : round (infinite s) = infinite s := by
  cases s with
  | negative => exact round_bot
  | positive => exact round_top

@[simp] theorem round_zero : round 0 = 0 := by
  rw [← EReal.coe_zero, round_coe, nearest_zero, capped_of_abs_lt]
  rw [abs_zero]
  exact overflow_pos

theorem round_nonneg (h : 0 ≤ a) : 0 ≤ round a := by
  rw [← round_zero]
  exact round_mono h

theorem round_nonpos (h : a ≤ 0) : round a ≤ 0 := by
  rw [← round_zero]
  exact round_mono h

theorem denotes_infinity (s : Sign) : Denotes (.ofModel (.pack (.infinity s))) (infinite s) :=
  denotes_pack trivial rfl

theorem denotes_zero (s : Sign) : Denotes (.ofModel (.pack (.zero s))) 0 :=
  denotes_pack trivial rfl

theorem eq_infinity_of_number? (s : Sign) {u : UnpackedFloat} (h : number? u = some (infinite s)) :
    u = .infinity s := by
  cases u with
  | notANumber => cases h
  | infinity s' =>
    cases s <;> cases s'
    · rfl
    · exact absurd (Option.some.inj h) top_ne_bot
    · exact absurd (Option.some.inj h) bot_ne_top
    · rfl
  | zero _ =>
    cases s
    · exact absurd (Option.some.inj h) EReal.zero_ne_bot
    · exact absurd (Option.some.inj h) EReal.zero_ne_top
  | finite _ _ _ _ =>
    cases s
    · exact absurd (Option.some.inj h) (EReal.coe_ne_bot _)
    · exact absurd (Option.some.inj h) (EReal.coe_ne_top _)

/-! ## Rounded results -/

theorem denotes_roundWithAccuracy {m : ℕ} {e : ℤ} {accuracy : Accuracy} {r : ℝ} (positive : 0 < r)
    (shows : Shows (.ofMantissaAndAccuracy m accuracy) (r / 2 ^ e))
    (enough : 52 ≤ m.log2 ∨ e ≤ -1074) (s : Sign) :
    Denotes (.ofModel (.pack (roundWithAccuracy .binary64 s m e accuracy))) (round (signed s r)) := by
  obtain ⟨k, q, canonical, value, result⟩ := roundWithAccuracy_eq positive shows enough s
  rw [result, round_coe, nearest_signed, ← value]
  exact denotes_pack_ofQuanta s canonical

/-- A whole number of quanta that is exact. -/
theorem denotes_roundWithAccuracy_exact {m : ℕ} {e : ℤ} (positive : 0 < m)
    (enough : 52 ≤ m.log2 ∨ e ≤ -1074) (s : Sign) :
    Denotes (.ofModel (.pack (roundWithAccuracy .binary64 s m e .exact)))
      (round (signed s (quanta m e))) := by
  refine denotes_roundWithAccuracy (quanta_pos e positive) ?_ enough s
  rw [mul_div_assoc, div_self (two_zpow_pos e).ne', mul_one]
  exact shows_exact m

theorem log2_mul_two_pow {m : ℕ} (positive : 0 < m) (n : ℕ) : (m * 2 ^ n).log2 = m.log2 + n := by
  have low := Nat.log2_self_le positive.ne'
  have high : m < 2 ^ (m.log2 + 1) := Nat.lt_log2_self
  rw [Nat.log2_eq_iff (by positivity), add_right_comm, pow_add, pow_add]
  exact ⟨Nat.mul_le_mul_right _ low, Nat.mul_lt_mul_of_pos_right high (by positivity)⟩

/-- Digits with any exponent. Where they are too few, noughts are added first. -/
theorem denotes_round {m : ℕ} (positive : 0 < m) (e : ℤ) (s : Sign) :
    Denotes (.ofModel (.pack (UnpackedFloat.round .binary64 s m e)))
      (round (signed s (quanta m e))) := by
  obtain ⟨n, hn⟩ : ∃ n, (e - Format.binary64.targetExponent (totalExponent m e)).toNat = n :=
    ⟨_, rfl⟩
  have log := log2_mul_two_pow positive n
  have padded : quanta (m * 2 ^ n) (e - n) = quanta m e := by
    rw [quanta, quanta]
    push_cast
    rw [mul_assoc, ← zpow_natCast, ← two_zpow_add, add_sub_cancel]
  have result : UnpackedFloat.round .binary64 s m e =
      roundWithAccuracy .binary64 s (m * 2 ^ n) (e - n) .exact := by
    simp only [UnpackedFloat.round, UnpackedFloat.decreaseExponent, Nat.shiftLeft_eq]
    rw [← hn]
  rw [targetExponent_eq] at hn
  rw [result, ← padded]
  exact denotes_roundWithAccuracy_exact (by positivity) (by omega) s

theorem denotes_normalize (m e : ℤ) (s : Sign) :
    Denotes (.ofModel (.pack (UnpackedFloat.normalize .binary64 m e s)))
      (round ((m * 2 ^ e : ℝ) : EReal)) := by
  rcases lt_trichotomy m 0 with negative | rfl | positive
  · have digits : (((-m).toNat : ℕ) : ℝ) = -m := by
      have whole : (((-m).toNat : ℕ) : ℤ) = -m := by omega
      exact_mod_cast whole
    have rounded := denotes_round (show 0 < (-m).toNat by omega) e .negative
    rw [quanta, digits, signed, neg_mul, neg_neg] at rounded
    rw [UnpackedFloat.normalize, compare_lt_iff_lt.2 negative]
    exact rounded
  · rw [Int.cast_zero, zero_mul, EReal.coe_zero, round_zero]
    exact denotes_zero s
  · have digits : ((m.toNat : ℕ) : ℝ) = m := by
      have whole : ((m.toNat : ℕ) : ℤ) = m := by omega
      exact_mod_cast whole
    have rounded := denotes_round (show 0 < m.toNat by omega) e .positive
    rw [quanta, digits] at rounded
    rw [UnpackedFloat.normalize, compare_gt_iff_gt.2 positive]
    exact rounded

/-- What a double stands for is not rounded again. -/
theorem round_of_number {u : UnpackedFloat} (h : Representable u) (hu : number? u = some a) :
    round a = a := by
  cases u with
  | notANumber => cases hu
  | infinity s =>
    cases hu
    exact round_infinite s
  | zero s =>
    cases hu
    exact round_zero
  | finite s m e positive =>
    cases hu
    have fits : Fits (m * 2 ^ e) := ⟨m, e, by exact_mod_cast h.1.digits, h.1.floor, by norm_cast⟩
    have packed := denotes_pack_ofQuanta s h.1
    rw [ofQuanta_of_pos s e positive] at packed
    rw [round_coe, nearest_signed, nearest_of_fits fits]
    exact packed.unique (denotes_pack h rfl)

theorem Denotes.round_eq (h : Denotes x a) : round a = a :=
  round_of_number (representable_unpack _) h

/-! ## What is no number -/

theorem unpack_of_isNaN (h : x.isNaN = true) : x.toModel.unpack = .notANumber := by
  change x.toModel.unpack.isNaN = true at h
  cases hu : x.toModel.unpack with
  | notANumber => rfl
  | _ =>
    rw [hu] at h
    exact absurd h Bool.false_ne_true

theorem not_denotes_notANumber : ¬Denotes (.ofModel (.pack .notANumber)) a :=
  fun h => absurd h.isNaN (by decide)

/-- An operation that makes no number of what is none has made numbers of numbers alone. -/
theorem exists_denotes_of_strict {f : UnpackedFloat → UnpackedFloat → UnpackedFloat}
    (left : ∀ v, f .notANumber v = .notANumber) (right : ∀ u, f u .notANumber = .notANumber)
    (h : Denotes (.ofModel (.pack (f x.toModel.unpack y.toModel.unpack))) a) :
    ∃ b c, Denotes x b ∧ Denotes y c := by
  cases hx : x.isNaN with
  | true =>
    rw [unpack_of_isNaN hx, left] at h
    exact absurd h not_denotes_notANumber
  | false =>
    cases hy : y.isNaN with
    | true =>
      rw [unpack_of_isNaN hy, right] at h
      exact absurd h not_denotes_notANumber
    | false =>
      obtain ⟨b, hb⟩ := exists_denotes hx
      obtain ⟨c, hc⟩ := exists_denotes hy
      exact ⟨b, c, hb, hc⟩

/-! ## Negation -/

theorem unpack_neg (x : Float) : (-x).toModel.unpack = x.toModel.unpack.neg := by
  have shape := representable_unpack x.toModel
  apply unpack_pack
  cases hu : x.toModel.unpack with
  | finite s m e positive =>
    rw [hu] at shape
    exact shape
  | _ => trivial

theorem number?_neg {u : UnpackedFloat} (h : number? u = some a) : number? u.neg = some (-a) := by
  cases u with
  | notANumber => cases h
  | infinity s =>
    cases h
    cases s <;> rfl
  | zero s =>
    cases h
    rw [neg_zero]
    rfl
  | finite s m e positive =>
    cases h
    cases s <;> simp [UnpackedFloat.neg, number?, signed]

theorem Denotes.neg (h : Denotes x a) : Denotes (-x) (-a) := by
  unfold Denotes
  rw [unpack_neg]
  exact number?_neg h

/-! ## Sums -/

theorem apply_shiftLeft (s : Sign) (m : ℕ) {e t : ℤ} (h : t ≤ e) :
    (s.apply ((m <<< (e - t).toNat : ℕ) : ℤ) : ℝ) * 2 ^ t = signed s (quanta m e) := by
  have padded : ((m <<< (e - t).toNat : ℕ) : ℝ) * 2 ^ t = m * 2 ^ e := by
    have exponent : ((e - t).toNat : ℤ) + t = e := by omega
    rw [Nat.shiftLeft_eq]
    push_cast
    rw [mul_assoc, ← zpow_natCast, ← two_zpow_add, exponent]
  cases s with
  | negative =>
    rw [Sign.apply, Int.cast_neg, Int.cast_natCast, neg_mul, padded]
    rfl
  | positive => exact padded

/-- The sum of two numbers of either sign is that of whole numbers of the smaller quantum. -/
theorem denotes_add_finite (s s' : Sign) {m m' : ℕ} (e e' : ℤ) (positive : 0 < m)
    (positive' : 0 < m') :
    Denotes (.ofModel (.pack (UnpackedFloat.add .binary64 (.finite s m e positive)
      (.finite s' m' e' positive')))) (round ((signed s (quanta m e) : EReal) + signed s' (quanta m' e'))) := by
  have exact := denotes_normalize
    (s.apply ((m <<< (e - min e e').toNat : ℕ) : ℤ) + s'.apply ((m' <<< (e' - min e e').toNat : ℕ) : ℤ))
    (min e e') .positive
  rw [Int.cast_add, add_mul, apply_shiftLeft s m (min_le_left e e'),
    apply_shiftLeft s' m' (min_le_right e e'), EReal.coe_add] at exact
  exact exact

/-- There is no sum of two infinities that differ. -/
def Opposed (a b : EReal) : Prop :=
  a = ⊤ ∧ b = ⊥ ∨ a = ⊥ ∧ b = ⊤

theorem Opposed.symm (h : Opposed a b) : Opposed b a :=
  (Or.symm h).imp And.symm And.symm

theorem infinite_add {s : Sign} (h : ¬Opposed (infinite s) b) : infinite s + b = infinite s := by
  cases s with
  | negative => exact EReal.bot_add b
  | positive => exact EReal.top_add_of_ne_bot fun bottom => h (.inl ⟨rfl, bottom⟩)

theorem denotes_add {u v : UnpackedFloat} (hu : Representable u) (hv : Representable v)
    (ha : number? u = some a) (hb : number? v = some b) (h : ¬Opposed a b) :
    Denotes (.ofModel (.pack (UnpackedFloat.add .binary64 u v))) (round (a + b)) := by
  cases u with
  | notANumber => cases ha
  | infinity s =>
    cases ha
    rw [infinite_add h, round_infinite]
    cases v with
    | notANumber => cases hb
    | infinity s' =>
      cases hb
      cases s <;> cases s'
      · exact denotes_infinity .negative
      · exact absurd (.inr ⟨rfl, rfl⟩) h
      · exact absurd (.inl ⟨rfl, rfl⟩) h
      · exact denotes_infinity .positive
    | zero _ => exact denotes_infinity s
    | finite _ _ _ _ => exact denotes_infinity s
  | zero s =>
    cases ha
    rw [zero_add, round_of_number hv hb]
    cases v with
    | notANumber => cases hb
    | infinity s' => exact denotes_pack hv hb
    | zero s' =>
      cases hb
      cases s <;> cases s' <;> exact denotes_zero _
    | finite s' m' e' positive' => exact denotes_pack hv hb
  | finite s m e positive =>
    cases v with
    | notANumber => cases hb
    | infinity s' =>
      cases hb
      have swapped : ¬Opposed (infinite s') a := fun opposed => h opposed.symm
      rw [add_comm, infinite_add swapped, round_infinite]
      exact denotes_infinity s'
    | zero s' =>
      cases hb
      rw [add_zero, round_of_number hu ha]
      exact denotes_pack hu ha
    | finite s' m' e' positive' =>
      cases ha
      cases hb
      exact denotes_add_finite s s' e e' positive positive'

theorem Denotes.add (hx : Denotes x a) (hy : Denotes y b) (h : ¬Opposed a b) :
    Denotes (x + y) (round (a + b)) :=
  denotes_add (representable_unpack _) (representable_unpack _) hx hy h

theorem add_of_opposed {u v : UnpackedFloat} (ha : number? u = some a) (hb : number? v = some b)
    (h : Opposed a b) : UnpackedFloat.add .binary64 u v = .notANumber := by
  rcases h with ⟨rfl, rfl⟩ | ⟨rfl, rfl⟩
  · rw [eq_infinity_of_number? .positive ha, eq_infinity_of_number? .negative hb]
    rfl
  · rw [eq_infinity_of_number? .negative ha, eq_infinity_of_number? .positive hb]
    rfl

/-- What sums up to a number are numbers. -/
theorem exists_of_denotes_add {c : EReal} (h : Denotes (x + y) c) :
    ∃ a b, Denotes x a ∧ Denotes y b ∧ ¬Opposed a b ∧ c = round (a + b) := by
  obtain ⟨a, b, hx, hy⟩ := exists_denotes_of_strict (f := UnpackedFloat.add .binary64)
    (fun v => by cases v <;> rfl) (fun u => by cases u <;> rfl) h
  have definite : ¬Opposed a b := fun opposed => by
    change Denotes (.ofModel (.pack (UnpackedFloat.add .binary64 _ _))) c at h
    rw [add_of_opposed hx hy opposed] at h
    exact not_denotes_notANumber h
  exact ⟨a, b, hx, hy, definite, h.unique (hx.add hy definite)⟩

theorem apply_neg (s : Sign) (n : ℤ) : (-s).apply n = -s.apply n := by
  cases s with
  | negative => exact (neg_neg n).symm
  | positive => rfl

theorem sub_eq_add (x y : Float) : x - y = x + -y := by
  change Float.ofModel (.pack (UnpackedFloat.sub .binary64 _ _)) =
    .ofModel (.pack (UnpackedFloat.add .binary64 _ (-y).toModel.unpack))
  rw [unpack_neg]
  congr 2
  cases x.toModel.unpack with
  | notANumber => rfl
  | infinity s => cases y.toModel.unpack <;> rfl
  | zero s => cases y.toModel.unpack <;> rfl
  | finite s m e positive =>
    cases y.toModel.unpack with
    | finite s' m' e' positive' =>
      simp only [UnpackedFloat.sub, UnpackedFloat.add, UnpackedFloat.neg, apply_neg, Int.sub_eq_add_neg]
    | _ => rfl

theorem Denotes.sub (hx : Denotes x a) (hy : Denotes y b) (h : ¬Opposed a (-b)) :
    Denotes (x - y) (round (a - b)) := by
  rw [sub_eq_add, sub_eq_add_neg]
  exact hx.add hy.neg h

/-! ## Products -/

/-- There is no product of zero and an infinity. -/
def NoProduct (a b : EReal) : Prop :=
  a = 0 ∧ (b = ⊤ ∨ b = ⊥) ∨ (a = ⊤ ∨ a = ⊥) ∧ b = 0

theorem infinite_top_or_bot (s : Sign) : infinite s = ⊤ ∨ infinite s = ⊥ := by
  cases s with
  | negative => exact .inr rfl
  | positive => exact .inl rfl

theorem enough_mul {m m' : ℕ} {e e' : ℤ} (positive : 0 < m) (positive' : 0 < m')
    (h : Canonical m e) (h' : Canonical m' e') : 52 ≤ (m * m').log2 ∨ e + e' ≤ -1074 := by
  have product : m * m' ≠ 0 := (Nat.mul_pos positive positive').ne'
  rw [Nat.le_log2 product]
  rcases h.normal with full | least
  · exact .inl (full.trans (Nat.le_mul_of_pos_right m positive'))
  · rcases h'.normal with full' | least'
    · exact .inl (full'.trans (Nat.le_mul_of_pos_left m' positive))
    · exact .inr (by omega)

theorem denotes_mul {u v : UnpackedFloat} (hu : Representable u) (hv : Representable v)
    (ha : number? u = some a) (hb : number? v = some b) (h : ¬NoProduct a b) :
    Denotes (.ofModel (.pack (UnpackedFloat.mul .binary64 u v))) (round (a * b)) := by
  cases u with
  | notANumber => cases ha
  | infinity s =>
    cases ha
    cases v with
    | notANumber => cases hb
    | infinity s' =>
      cases hb
      rw [← infinite_mul, round_infinite]
      exact denotes_infinity (s * s')
    | zero _ =>
      cases hb
      exact absurd (.inr ⟨infinite_top_or_bot s, rfl⟩) h
    | finite s' m' e' positive' =>
      cases hb
      rw [← infinite_mul_signed s s' (quanta_pos e' positive'), round_infinite]
      exact denotes_infinity (s * s')
  | zero s =>
    cases ha
    cases v with
    | notANumber => cases hb
    | infinity s' =>
      cases hb
      exact absurd (.inl ⟨rfl, infinite_top_or_bot s'⟩) h
    | zero s' =>
      rw [zero_mul, round_zero]
      exact denotes_zero (s * s')
    | finite s' m' e' positive' =>
      rw [zero_mul, round_zero]
      exact denotes_zero (s * s')
  | finite s m e positive =>
    cases ha
    cases v with
    | notANumber => cases hb
    | infinity s' =>
      cases hb
      rw [mul_comm, ← infinite_mul_signed s' s (quanta_pos e positive), round_infinite]
      cases s <;> cases s' <;> exact denotes_infinity _
    | zero s' =>
      cases hb
      rw [mul_zero, round_zero]
      exact denotes_zero (s * s')
    | finite s' m' e' positive' =>
      cases hb
      have product : (m : ℝ) * 2 ^ e * (m' * 2 ^ e') = ((m * m' : ℕ) : ℝ) * 2 ^ (e + e') := by
        rw [two_zpow_add]
        push_cast
        ring
      rw [← EReal.coe_mul, ← signed_mul, product]
      exact denotes_roundWithAccuracy_exact (Nat.mul_pos positive positive')
        (enough_mul positive positive' hu.1 hv.1) (s * s')

theorem Denotes.mul (hx : Denotes x a) (hy : Denotes y b) (h : ¬NoProduct a b) :
    Denotes (x * y) (round (a * b)) :=
  denotes_mul (representable_unpack _) (representable_unpack _) hx hy h

theorem eq_zero_of_number? {u : UnpackedFloat} (h : number? u = some 0) : ∃ s, u = .zero s := by
  rcases cases_of_number? (r := 0) h with ⟨s, zero, _⟩ | ⟨s, m, e, positive, _, value⟩
  · exact ⟨s, zero⟩
  · have nonzero := (quanta_pos e positive).ne'
    cases s with
    | negative => exact absurd (neg_eq_zero.1 value) nonzero
    | positive => exact absurd value nonzero

theorem exists_infinity_of_number? {u : UnpackedFloat} (h : number? u = some a)
    (unbounded : a = ⊤ ∨ a = ⊥) : ∃ s, u = .infinity s := by
  rcases unbounded with rfl | rfl
  · exact ⟨_, eq_infinity_of_number? .positive h⟩
  · exact ⟨_, eq_infinity_of_number? .negative h⟩

theorem mul_of_noProduct {u v : UnpackedFloat} (ha : number? u = some a) (hb : number? v = some b)
    (h : NoProduct a b) : UnpackedFloat.mul .binary64 u v = .notANumber := by
  rcases h with ⟨rfl, unbounded⟩ | ⟨unbounded, rfl⟩
  · obtain ⟨_, rfl⟩ := eq_zero_of_number? ha
    obtain ⟨_, rfl⟩ := exists_infinity_of_number? hb unbounded
    rfl
  · obtain ⟨_, rfl⟩ := exists_infinity_of_number? ha unbounded
    obtain ⟨_, rfl⟩ := eq_zero_of_number? hb
    rfl

/-- What multiplies to a number are numbers. -/
theorem exists_of_denotes_mul {c : EReal} (h : Denotes (x * y) c) :
    ∃ a b, Denotes x a ∧ Denotes y b ∧ ¬NoProduct a b ∧ c = round (a * b) := by
  obtain ⟨a, b, hx, hy⟩ := exists_denotes_of_strict (f := UnpackedFloat.mul .binary64)
    (fun v => by cases v <;> rfl) (fun u => by cases u <;> rfl) h
  have definite : ¬NoProduct a b := fun vague => by
    change Denotes (.ofModel (.pack (UnpackedFloat.mul .binary64 _ _))) c at h
    rw [mul_of_noProduct hx hy vague] at h
    exact not_denotes_notANumber h
  exact ⟨a, b, hx, hy, definite, h.unique (hx.mul hy definite)⟩

/-! ## Counts -/

theorem denotes_toFloat (n : UInt64) : Denotes n.toFloat (round ((n.toNat : ℝ) : EReal)) := by
  have exact := denotes_normalize n.toNat 0 .positive
  rw [zpow_zero, mul_one, Int.cast_natCast] at exact
  exact exact

end MarketMaker.Double
