import Mathlib.Algebra.Order.Archimedean.Real.Basic
import Mathlib.Data.EReal.Operations
import Mathlib.Data.Int.Log
import Mathlib.Tactic.Linarith
import Mathlib.Tactic.Ring

/-!
# Rounding

The double nearest to a real number, as a function on real numbers. A double is a whole number of
quanta, where the quantum is the power of two that leaves room for 53 binary digits, but at least
`2 ^ -1074`. The number of quanta is rounded to the nearest whole number, ties to the even one
(`toEven`); from `2 ^ 1024` on the result is infinite (`round`).

What is used of rounding is that it is monotone (`nearest_mono`), that it is odd (`nearest_neg`), that
it leaves a number alone that fits already (`nearest_of_fits`), and that it makes no smaller quanta
(`IsWhole.nearest`).
-/

namespace MarketMaker.Double

/-! ## To whole numbers -/

/-- The nearest whole number, the even one if two are as near. -/
noncomputable def toEven (x : ℝ) : ℤ :=
  if x - ⌊x⌋ < 1 / 2 then ⌊x⌋ else if 1 / 2 < x - ⌊x⌋ then ⌊x⌋ + 1 else ⌊x⌋ + ⌊x⌋ % 2

theorem toEven_of_lt {x : ℝ} {n : ℤ} (low : n ≤ x) (high : x < n + 1 / 2) : toEven x = n := by
  have floor : ⌊x⌋ = n := Int.floor_eq_iff.2 ⟨low, by linarith⟩
  rw [toEven, floor, if_pos (by linarith)]

theorem toEven_of_gt {x : ℝ} {n : ℤ} (low : n + 1 / 2 < x) (high : x ≤ n + 1) :
    toEven x = n + 1 := by
  rcases high.lt_or_eq with high | rfl
  · have floor : ⌊x⌋ = n := Int.floor_eq_iff.2 ⟨by linarith, high⟩
    rw [toEven, floor, if_neg (by linarith), if_pos (by linarith)]
  · have whole : ((n : ℝ) + 1) = ((n + 1 : ℤ) : ℝ) := by push_cast; rfl
    rw [whole]
    exact toEven_of_lt le_rfl (by linarith)

theorem toEven_half (n : ℤ) : toEven (n + 1 / 2) = n + n % 2 := by
  have floor : ⌊(n : ℝ) + 1 / 2⌋ = n := Int.floor_eq_iff.2 ⟨by linarith, by linarith⟩
  rw [toEven, floor, if_neg (by linarith), if_neg (by linarith)]

@[simp] theorem toEven_intCast (n : ℤ) : toEven n = n :=
  toEven_of_lt le_rfl (by linarith)

theorem floor_le_toEven (x : ℝ) : ⌊x⌋ ≤ toEven x := by
  unfold toEven
  split_ifs <;> omega

theorem toEven_le_floor (x : ℝ) : toEven x ≤ ⌊x⌋ + 1 := by
  unfold toEven
  split_ifs <;> omega

theorem toEven_mono {x y : ℝ} (h : x ≤ y) : toEven x ≤ toEven y := by
  rcases (Int.floor_mono h).lt_or_eq with less | same
  · have left := toEven_le_floor x
    have right := floor_le_toEven y
    omega
  · unfold toEven
    rw [same]
    split_ifs
    all_goals first | omega | linarith

theorem toEven_neg (x : ℝ) : toEven (-x) = -toEven x := by
  have low := Int.floor_le x
  have high := Int.lt_floor_add_one x
  rcases lt_trichotomy x (⌊x⌋ + 1 / 2) with below | middle | above
  · have mirrored := toEven_of_gt (x := -x) (n := -⌊x⌋ - 1) (by push_cast; linarith)
      (by push_cast; linarith)
    rw [toEven_of_lt low below, mirrored]
    omega
  · have mirrored : -((⌊x⌋ : ℝ) + 1 / 2) = ((-⌊x⌋ - 1 : ℤ) : ℝ) + 1 / 2 := by push_cast; ring
    rw [middle, toEven_half, mirrored, toEven_half]
    omega
  · have mirrored := toEven_of_lt (x := -x) (n := -⌊x⌋ - 1) (by push_cast; linarith)
      (by push_cast; linarith)
    rw [toEven_of_gt above high.le, mirrored]
    omega

/-! ## To the quantum of a number -/

/-- The exponent of the quantum. -/
noncomputable def quantum (x : ℝ) : ℤ :=
  max (Int.log 2 |x| - 52) (-1074)

/-- The nearest whole number of quanta. -/
noncomputable def nearest (x : ℝ) : ℝ :=
  toEven (x / 2 ^ quantum x) * 2 ^ quantum x

/-- So many quanta of one size. -/
noncomputable abbrev quanta (m : ℕ) (e : ℤ) : ℝ :=
  m * 2 ^ e

/-- A number that 53 binary digits hold, at an exponent that is not too small. -/
def Fits (x : ℝ) : Prop :=
  ∃ (m : ℤ) (e : ℤ), |m| < 2 ^ 53 ∧ -1074 ≤ e ∧ x = m * 2 ^ e

theorem two_zpow_pos (e : ℤ) : (0 : ℝ) < 2 ^ e := zpow_pos two_pos e

theorem two_zpow_add (a b : ℤ) : (2 : ℝ) ^ (a + b) = 2 ^ a * 2 ^ b :=
  zpow_add₀ two_ne_zero a b

theorem two_zpow_le {a b : ℤ} (h : a ≤ b) : (2 : ℝ) ^ a ≤ 2 ^ b :=
  zpow_le_zpow_right₀ one_le_two h

theorem quantum_neg (x : ℝ) : quantum (-x) = quantum x := by
  rw [quantum, abs_neg, ← quantum]

theorem quantum_mono {x y : ℝ} (hx : 0 < x) (h : x ≤ y) : quantum x ≤ quantum y := by
  have logs := Int.log_mono_right (b := 2) hx h
  rw [quantum, quantum, abs_of_pos hx, abs_of_pos (hx.trans_le h)]
  omega

theorem lt_two_zpow (x : ℝ) : |x| < 2 ^ (quantum x + 53) := by
  have log := Int.lt_zpow_succ_log_self (b := 2) one_lt_two |x|
  refine log.trans_le ?_
  push_cast
  apply two_zpow_le
  have most := le_max_left (Int.log 2 |x| - 52) (-1074)
  rw [quantum]
  omega

theorem two_zpow_le_of_quantum {x : ℝ} (hx : 0 < x) (h : -1074 < quantum x) :
    2 ^ (quantum x + 52) ≤ x := by
  have log := Int.zpow_log_le_self (b := 2) one_lt_two hx
  push_cast at log
  rw [quantum, abs_of_pos hx] at h ⊢
  have exponent : max (Int.log 2 x - 52) (-1074) + 52 = Int.log 2 x := by omega
  rwa [exponent]

theorem quantum_le {m : ℤ} {e : ℤ} (hm : |m| < 2 ^ 53) (nonzero : m ≠ 0) (he : -1074 ≤ e) :
    quantum (m * 2 ^ e) ≤ e := by
  have magnitude : |(m : ℝ) * 2 ^ e| = |(m : ℝ)| * 2 ^ e := by
    rw [abs_mul, abs_of_pos (two_zpow_pos e)]
  have positive : 0 < |(m : ℝ) * 2 ^ e| := by
    rw [magnitude]
    exact mul_pos (abs_pos.2 (Int.cast_ne_zero.2 nonzero)) (two_zpow_pos e)
  have below : |(m : ℝ) * 2 ^ e| < 2 ^ (e + 53) := by
    have digits : |(m : ℝ)| < 2 ^ (53 : ℤ) := by exact_mod_cast hm
    rw [magnitude, add_comm, two_zpow_add]
    exact mul_lt_mul_of_pos_right digits (two_zpow_pos e)
  have log := (Int.lt_zpow_iff_log_lt (b := 2) one_lt_two positive).1 (by exact_mod_cast below)
  rw [quantum]
  omega

@[simp] theorem nearest_zero : nearest 0 = 0 := by
  have zero : toEven (0 : ℝ) = 0 := by exact_mod_cast toEven_intCast 0
  rw [nearest, zero_div, zero, Int.cast_zero, zero_mul]

theorem nearest_neg (x : ℝ) : nearest (-x) = -nearest x := by
  rw [nearest, quantum_neg, neg_div, toEven_neg, Int.cast_neg, neg_mul, ← nearest]

/-- A number that fits is not rounded. -/
theorem nearest_of_fits {x : ℝ} (h : Fits x) : nearest x = x := by
  obtain ⟨m, e, hm, he, rfl⟩ := h
  rcases eq_or_ne m 0 with rfl | nonzero
  · rw [Int.cast_zero, zero_mul, nearest_zero]
  · have coarse := quantum_le hm nonzero he
    obtain ⟨n, split⟩ : ∃ n : ℕ, e = n + quantum (m * 2 ^ e) :=
      ⟨(e - quantum (m * 2 ^ e)).toNat, by omega⟩
    -- The quantum divides the power of two.
    have whole : (m : ℝ) * 2 ^ e / 2 ^ quantum (m * 2 ^ e) = ((m * 2 ^ n : ℤ) : ℝ) := by
      have power : (2 : ℝ) ^ e = 2 ^ n * 2 ^ quantum (m * 2 ^ e) := by
        rw [← zpow_natCast, ← two_zpow_add, ← split]
      rw [div_eq_iff (two_zpow_pos _).ne']
      push_cast
      rw [mul_assoc, ← power]
    rw [nearest, whole, toEven_intCast, ← whole, div_mul_cancel₀ _ (two_zpow_pos _).ne']

/-! ## Rounding is monotone -/

theorem nearest_mono_of_quantum {x y : ℝ} (h : x ≤ y) (same : quantum x = quantum y) :
    nearest x ≤ nearest y := by
  have scaled : x / 2 ^ quantum x ≤ y / 2 ^ quantum x :=
    div_le_div_of_nonneg_right h (two_zpow_pos _).le
  rw [nearest, nearest, ← same]
  exact mul_le_mul_of_nonneg_right (by exact_mod_cast toEven_mono scaled) (two_zpow_pos _).le

theorem nearest_le_two_zpow (x : ℝ) : nearest x ≤ 2 ^ (quantum x + 53) := by
  have below := (le_abs_self x).trans (lt_two_zpow x).le
  have scaled : x / 2 ^ quantum x ≤ ((2 ^ 53 : ℤ) : ℝ) := by
    rw [div_le_iff₀ (two_zpow_pos _)]
    refine below.trans_eq ?_
    rw [add_comm, two_zpow_add]
    norm_num
  have rounded := toEven_mono scaled
  rw [toEven_intCast] at rounded
  have quanta : (toEven (x / 2 ^ quantum x) : ℝ) ≤ 2 ^ 53 := by exact_mod_cast rounded
  calc nearest x ≤ 2 ^ 53 * 2 ^ quantum x :=
        mul_le_mul_of_nonneg_right quanta (two_zpow_pos _).le
    _ = 2 ^ (quantum x + 53) := by
        rw [add_comm, two_zpow_add]
        norm_num

theorem two_zpow_le_nearest {x : ℝ} (hx : 0 < x) (h : -1074 < quantum x) :
    2 ^ (quantum x + 52) ≤ nearest x := by
  have scaled : ((2 ^ 52 : ℤ) : ℝ) ≤ x / 2 ^ quantum x := by
    rw [le_div_iff₀ (two_zpow_pos _)]
    refine le_trans (le_of_eq ?_) (two_zpow_le_of_quantum hx h)
    rw [add_comm, two_zpow_add]
    norm_num
  have rounded := toEven_mono scaled
  rw [toEven_intCast] at rounded
  have quanta : (2 : ℝ) ^ 52 ≤ toEven (x / 2 ^ quantum x) := by exact_mod_cast rounded
  calc (2 : ℝ) ^ (quantum x + 52) = 2 ^ 52 * 2 ^ quantum x := by
        rw [add_comm, two_zpow_add]
        norm_num
    _ ≤ nearest x := mul_le_mul_of_nonneg_right quanta (two_zpow_pos _).le

theorem nearest_nonneg {x : ℝ} (hx : 0 ≤ x) : 0 ≤ nearest x := by
  have scaled : ((0 : ℤ) : ℝ) ≤ x / 2 ^ quantum x := by
    rw [Int.cast_zero]
    exact div_nonneg hx (two_zpow_pos _).le
  have rounded := toEven_mono scaled
  rw [toEven_intCast] at rounded
  have quanta : (0 : ℝ) ≤ toEven (x / 2 ^ quantum x) := by exact_mod_cast rounded
  exact mul_nonneg quanta (two_zpow_pos _).le

theorem nearest_nonpos {x : ℝ} (hx : x ≤ 0) : nearest x ≤ 0 := by
  have mirrored := nearest_nonneg (neg_nonneg.2 hx)
  rwa [nearest_neg, neg_nonneg] at mirrored

theorem nearest_mono_of_pos {x y : ℝ} (hx : 0 < x) (h : x ≤ y) : nearest x ≤ nearest y := by
  rcases (quantum_mono hx h).lt_or_eq with less | same
  · -- A power of two lies between the two numbers, and no rounding goes across it.
    have floor : -1074 ≤ quantum x := le_max_right _ _
    calc nearest x ≤ 2 ^ (quantum x + 53) := nearest_le_two_zpow x
      _ ≤ 2 ^ (quantum y + 52) := two_zpow_le (by omega)
      _ ≤ nearest y := two_zpow_le_nearest (hx.trans_le h) (by omega)
  · exact nearest_mono_of_quantum h same

theorem nearest_mono {x y : ℝ} (h : x ≤ y) : nearest x ≤ nearest y := by
  rcases lt_or_ge 0 x with hx | hx
  · exact nearest_mono_of_pos hx h
  · rcases le_or_gt 0 y with hy | hy
    · exact (nearest_nonpos hx).trans (nearest_nonneg hy)
    · have mirrored := nearest_mono_of_pos (neg_pos.2 hy) (neg_le_neg h)
      rwa [nearest_neg, nearest_neg, neg_le_neg_iff] at mirrored

theorem nearest_le {x y : ℝ} (hy : Fits y) (h : x ≤ y) : nearest x ≤ y := by
  have rounded := nearest_mono h
  rwa [nearest_of_fits hy] at rounded

theorem le_nearest {x y : ℝ} (hx : Fits x) (h : x ≤ y) : x ≤ nearest y := by
  have rounded := nearest_mono h
  rwa [nearest_of_fits hx] at rounded

/-! ## Whole numbers of quanta -/

/-- A whole number of quanta of some size. -/
def IsWhole (e : ℤ) (x : ℝ) : Prop :=
  ∃ n : ℤ, x = n * 2 ^ e

namespace IsWhole

variable {e : ℤ} {a b : ℝ}

theorem add (ha : IsWhole e a) (hb : IsWhole e b) : IsWhole e (a + b) := by
  obtain ⟨m, rfl⟩ := ha
  obtain ⟨n, rfl⟩ := hb
  exact ⟨m + n, by push_cast; ring⟩

theorem sub (ha : IsWhole e a) (hb : IsWhole e b) : IsWhole e (a - b) := by
  obtain ⟨m, rfl⟩ := ha
  obtain ⟨n, rfl⟩ := hb
  exact ⟨m - n, by push_cast; ring⟩

theorem natCast_mul (n : ℕ) (ha : IsWhole e a) : IsWhole e (n * a) := by
  obtain ⟨m, rfl⟩ := ha
  exact ⟨n * m, by push_cast; ring⟩

theorem le_abs (ha : IsWhole e a) (nonzero : a ≠ 0) : 2 ^ e ≤ |a| := by
  obtain ⟨m, rfl⟩ := ha
  have some : m ≠ 0 := by
    rintro rfl
    simp at nonzero
  have one : (1 : ℝ) ≤ |(m : ℝ)| := by exact_mod_cast Int.one_le_abs some
  rw [abs_mul, abs_of_pos (two_zpow_pos e)]
  exact le_mul_of_one_le_left (two_zpow_pos e).le one

/-- Rounding makes no smaller quanta: where it would have to, the number fits. -/
theorem nearest (least : -1074 ≤ e) (ha : IsWhole e a) : IsWhole e (nearest a) := by
  obtain ⟨m, rfl⟩ := ha
  rcases le_or_gt e (quantum (m * 2 ^ e)) with coarse | fine
  · obtain ⟨n, split⟩ : ∃ n : ℕ, quantum (m * 2 ^ e) = n + e :=
      ⟨(quantum (m * 2 ^ e) - e).toNat, by omega⟩
    refine ⟨toEven (m * 2 ^ e / 2 ^ quantum (m * 2 ^ e)) * 2 ^ n, ?_⟩
    rw [Double.nearest, split, two_zpow_add, zpow_natCast]
    push_cast
    ring
  · have digits : |m| < 2 ^ 53 := by
      have below := lt_two_zpow (m * 2 ^ e)
      have within : |(m : ℝ)| * 2 ^ e < 2 ^ (53 : ℤ) * 2 ^ e := by
        calc |(m : ℝ)| * 2 ^ e = |(m : ℝ) * 2 ^ e| := by
              rw [abs_mul, abs_of_pos (two_zpow_pos e)]
          _ < 2 ^ (quantum (m * 2 ^ e) + 53) := below
          _ ≤ 2 ^ (53 + e) := two_zpow_le (by omega)
          _ = 2 ^ (53 : ℤ) * 2 ^ e := two_zpow_add 53 e
      exact_mod_cast lt_of_mul_lt_mul_right within (two_zpow_pos e).le
    exact ⟨m, nearest_of_fits ⟨m, e, digits, least, rfl⟩⟩

end IsWhole

/-! ## Overflow -/

/-- The least magnitude that is too large. -/
noncomputable def overflow : ℝ :=
  2 ^ 1024

/-- A number, infinite where it is too large. -/
noncomputable def capped (x : ℝ) : EReal :=
  if overflow ≤ x then ⊤ else if x ≤ -overflow then ⊥ else x

theorem overflow_pos : 0 < overflow := by
  unfold overflow
  positivity

theorem capped_of_abs_lt {x : ℝ} (h : |x| < overflow) : capped x = x := by
  obtain ⟨low, high⟩ := abs_lt.1 h
  rw [capped, if_neg high.not_ge, if_neg low.not_ge]

theorem capped_of_le {x : ℝ} (h : overflow ≤ x) : capped x = ⊤ :=
  if_pos h

theorem capped_of_le_neg {x : ℝ} (h : x ≤ -overflow) : capped x = ⊥ := by
  have positive := overflow_pos
  rw [capped, if_neg (by linarith), if_pos h]

theorem capped_neg (x : ℝ) : capped (-x) = -capped x := by
  rcases lt_or_ge |x| overflow with small | large
  · rw [capped_of_abs_lt small, capped_of_abs_lt (by rwa [abs_neg]), EReal.coe_neg]
  · rcases le_abs.1 large with high | low
    · rw [capped_of_le high, capped_of_le_neg (neg_le_neg high), EReal.neg_top]
    · rw [capped_of_le low, capped_of_le_neg (by linarith), EReal.neg_bot]

/-- The double nearest to a number. What is infinite stays so. -/
noncomputable def round (x : EReal) : EReal :=
  if x = ⊤ then ⊤ else if x = ⊥ then ⊥ else capped (nearest x.toReal)

@[simp] theorem round_top : round ⊤ = ⊤ := if_pos rfl

@[simp] theorem round_bot : round ⊥ = ⊥ := by
  rw [round, if_neg bot_ne_top, if_pos rfl]

@[simp] theorem round_coe (x : ℝ) : round x = capped (nearest x) := by
  rw [round, if_neg (EReal.coe_ne_top x), if_neg (EReal.coe_ne_bot x), EReal.toReal_coe]

theorem capped_mono {x y : ℝ} (h : x ≤ y) : capped x ≤ capped y := by
  unfold capped
  split_ifs with hx hy hy' hx' hy hy' hy hy'
  · exact le_rfl
  · exact absurd (hx.trans h) hy
  · exact absurd (hx.trans h) hy
  · exact bot_le
  · exact bot_le
  · exact bot_le
  · exact le_top
  · exact absurd (h.trans hy') hx'
  · exact EReal.coe_le_coe_iff.2 h

theorem round_mono {x y : EReal} (h : x ≤ y) : round x ≤ round y := by
  induction x with
  | bot =>
    rw [round_bot]
    exact bot_le
  | top =>
    rw [top_le_iff.1 h]
  | coe x =>
    induction y with
    | bot => exact absurd (le_bot_iff.1 h) (EReal.coe_ne_bot x)
    | top =>
      rw [round_top]
      exact le_top
    | coe y =>
      rw [round_coe, round_coe]
      exact capped_mono (nearest_mono (EReal.coe_le_coe_iff.1 h))

end MarketMaker.Double
