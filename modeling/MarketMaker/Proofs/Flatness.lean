import MarketMaker.Performance.Metrics
import MarketMaker.Proofs.Double.Multiples
import MarketMaker.Proofs.Double.Scientific
import MarketMaker.Proofs.Double.Vanishing

/-!
# Runs without variation

Where every trade has the same profit, the deviation is made of what the running totals of the profit
leave of its multiples, each rounded (`Statistics.residue`). Where none of them leaves anything, the
deviation vanishes and with it the Sharpe ratio (`Performance.sharpe_of_cancels`). That is so for up to
five trades (`Statistics.cancels_of_le_five`) and as long as the multiples of the profit fit
(`Statistics.cancels_of_digits`), but not in general: of six copies of a tenth, the total and the
multiple differ by a rounding, and the mean in units of that is beyond measure. Unless the profit is
tiny or huge, a residue always shows in the ratio (`Performance.cancels_of_sharpe`): its square is no
smaller than that of the profit's quantum, which is far from underflow.
-/

namespace MarketMaker

open Double

namespace Statistics

variable {x squares : Float} {r : ℝ} {k n : ℕ}

/-- The sum of a number and some copies of it, one after the other. -/
def total (x : Float) : ℕ → Float
  | 0 => x
  | k + 1 => total x k + x

/-- What a multiple exceeds the running total by. -/
def residue (x : Float) (k : ℕ) : Float :=
  ofCount (k + 1) * x - total x k

/-- The running totals of so many copies leave no residues. -/
def Cancels (x : Float) (n : ℕ) : Prop :=
  ∀ k < n, 0 < k → Vanishes (residue x k)

instance (x : Float) (n : ℕ) : Decidable (Cancels x n) :=
  inferInstanceAs (Decidable (∀ k < n, 0 < k → Vanishes (residue x k)))

/-! ## The loop -/

/-- What one more copy adds to the squares. -/
def square (x : Float) (k : ℕ) : Float :=
  residue x k * residue x k / (ofCount (k + 1) * (ofCount (k + 1) - 1.0))

theorem differencesFrom_cons_total (xs : List Float) :
    differencesFrom (total x k) squares (k + 1) (x :: xs) =
      differencesFrom (total x (k + 1)) (squares + square x (k + 1)) (k + 2) xs := rfl

theorem vanishes_differencesFrom (h : ∀ j < k + n + 1, k < j → Vanishes (residue x j))
    (hs : Vanishes squares) :
    Vanishes (differencesFrom (total x k) squares (k + 1) (List.replicate n x)) := by
  induction n generalizing k squares with
  | zero => exact hs
  | succ n ih =>
    rw [List.replicate_succ, differencesFrom_cons_total]
    refine ih (fun j below above => h j (by omega) (by omega)) (hs.add ?_)
    exact ((h (k + 1) (by omega) (by omega)).mul_right _).div _

theorem vanishes_deviation (h : Cancels x (n + 1)) :
    Vanishes (deviation (List.replicate (n + 1) x)) := by
  have zero : Vanishes 0.0 := by decide +kernel
  have differences := vanishes_differencesFrom (k := 0) (n := n)
    (fun j below above => h j (by omega) above) zero
  exact (differences.div _).sqrt

/-! ## Where residues vanish -/

theorem denotes_total (hr : Denotes x r) (k : ℕ) : Denotes (total x k) (runningTotal r k) := by
  induction k with
  | zero => exact hr
  | succ k ih => exact ih.add hr fun opposed => not_opposed_of_real opposed.symm

theorem denotes_multiple (hr : Denotes x r) (few : k + 1 < 2 ^ 53) :
    Denotes (ofCount (k + 1) * x) (round ((k + 1) * r : ℝ)) := by
  have product := (denotes_toUInt64 few).mul hr not_noProduct_of_real
  rw [← EReal.coe_mul] at product
  exact_mod_cast product

theorem vanishes_residue (hr : Denotes x r) (few : k + 1 < 2 ^ 53) (h : ∀ j < k, Steady r j) :
    Vanishes (residue x k) := by
  have total := denotes_total hr k
  rw [runningTotal_eq hr.round_eq h] at total
  exact vanishes_sub (denotes_multiple hr few) total

/-- Five copies of a double add up to its multiples. -/
theorem cancels_of_le_five (finite : x.isFinite = true) (few : n ≤ 5) : Cancels x n := by
  obtain ⟨r, hr⟩ := isFinite_iff.1 finite
  intro k below _
  exact vanishes_residue hr (by omega) fun j less => steady_of_lt_four hr.fits (by omega)

theorem vanishes_total (h : Vanishes x) (k : ℕ) : Vanishes (total x k) := by
  induction k with
  | zero => exact h
  | succ k ih => exact ih.add h

/-- Copies of a whole number of quanta add up to its multiples as long as those fit. -/
theorem cancels_of_digits {m e : ℤ} (hr : Denotes x (m * 2 ^ e : ℝ)) (least : -1074 ≤ e)
    (digits : n * |m| < 2 ^ 53) : Cancels x n := by
  intro k below _
  rcases eq_or_ne m 0 with rfl | nonzero
  · have zero : Vanishes x := by
      intro a ha
      rw [ha.unique hr]
      simp
    exact (zero.mul_left _).sub (vanishes_total zero k)
  · have some := Int.one_le_abs nonzero
    have within (j : ℕ) (h : j < n) : ((j : ℤ) + 1) * |m| < 2 ^ 53 := by
      refine (mul_le_mul_of_nonneg_right ?_ (abs_nonneg m)).trans_lt digits
      exact_mod_cast h
    have few : ((k : ℤ) + 1) * 1 ≤ (k + 1) * |m| := mul_le_mul_of_nonneg_left some (by omega)
    have bounded := within k below
    refine vanishes_residue hr (by omega) fun j less => ?_
    exact steady_of_fits (fits_multiple least (within j (by omega)))

/-! ## Where a residue shows -/

/-- A double that is neither tiny nor huge. -/
def Sizable (x : Float) : Prop :=
  1e-100 ≤ x ∧ x ≤ 1e100 ∨ 1e-100 ≤ -x ∧ -x ≤ 1e100

instance (x : Float) : Decidable (Sizable x) :=
  inferInstanceAs (Decidable (_ ∨ _))

theorem Sizable.exists (h : Sizable x) :
    ∃ r : ℝ, Denotes x r ∧ 2 ^ (-333 : ℤ) ≤ |r| ∧ |r| ≤ 2 ^ (333 : ℤ) := by
  have magnitude {y : Float} (low : 1e-100 ≤ y) (high : y ≤ 1e100) :
      ∃ r : ℝ, Denotes y r ∧ 2 ^ (-333 : ℤ) ≤ r ∧ r ≤ 2 ^ (333 : ℤ) :=
    exists_between_twoPow (by norm_num) (by norm_num) (by norm_num)
      (Double.le_trans (by decide +kernel) low) (Double.le_trans high (by decide +kernel))
  rcases h with ⟨low, high⟩ | ⟨low, high⟩
  · obtain ⟨r, hr, least, most⟩ := magnitude low high
    refine ⟨r, hr, ?_⟩
    rw [abs_of_pos ((two_zpow_pos _).trans_le least)]
    exact ⟨least, most⟩
  · obtain ⟨r, hr, least, most⟩ := magnitude low high
    have negated := hr.of_neg
    rw [← EReal.coe_neg] at negated
    refine ⟨-r, negated, ?_⟩
    rw [abs_neg, abs_of_pos ((two_zpow_pos _).trans_le least)]
    exact ⟨least, most⟩

theorem Sizable.exists_spans (h : Sizable x) :
    ∃ (r : ℝ) (e : ℤ), Denotes x r ∧ -386 ≤ e ∧ Spans e 333 0 r := by
  obtain ⟨r, hr, low, high⟩ := h.exists
  obtain ⟨m, e, digits, _, rfl⟩ := hr.fits
  have digits : |(m : ℝ)| < 2 ^ (53 : ℤ) := by exact_mod_cast digits
  have large : (2 : ℝ) ^ (-333 : ℤ) < 2 ^ (53 + e) := by
    rw [abs_mul, abs_of_pos (two_zpow_pos e)] at low
    rw [two_zpow_add]
    exact low.trans_lt (mul_lt_mul_of_pos_right digits (two_zpow_pos e))
  have exponents := (zpow_lt_zpow_iff_right₀ one_lt_two).1 large
  exact ⟨_, e, hr, by omega, ⟨m, rfl⟩, by simpa using high⟩

/-- A residue is bounded, and it is not tiny unless it is zero: the quantum of the double is one of
every total and every multiple. -/
theorem Sizable.exists_residue (h : Sizable x) (few : k + 1 < 2 ^ 53) :
    ∃ d : ℝ, Denotes (residue x k) d ∧ |d| ≤ 2 ^ (387 : ℤ) ∧ (d ≠ 0 → 2 ^ (-386 : ℤ) ≤ |d|) := by
  obtain ⟨r, e, hr, fine, once⟩ := h.exists_spans
  have least : -1074 ≤ e := by omega
  obtain ⟨t, total, spans⟩ := exists_runningTotal least (by norm_num) (by norm_num) once few
  have times : Spans e 333 k ((k + 1) * r) := by
    refine ⟨?_, ?_⟩
    · exact_mod_cast once.whole.natCast_mul (k + 1)
    · rw [abs_mul, abs_of_nonneg (by positivity : (0 : ℝ) ≤ k + 1)]
      exact mul_le_mul_of_nonneg_left (by simpa using once.bound) (by positivity)
  obtain ⟨y, multiple, spans'⟩ := times.round least (by norm_num) (by norm_num) few
  have apart : Spans e 334 k (y - t) := by
    refine ⟨spans'.whole.sub spans.whole, ?_⟩
    have twice : (2 : ℝ) ^ (334 : ℤ) = 2 ^ (333 : ℤ) * 2 := zpow_add_one₀ two_ne_zero 333
    have sum := (abs_sub y t).trans (add_le_add spans'.bound spans.bound)
    rw [twice]
    linarith
  obtain ⟨d, difference, spans''⟩ := apart.round least (by norm_num) (by norm_num) few
  have value : Denotes (residue x k) (round ((y : EReal) - t)) :=
    (multiple ▸ denotes_multiple hr few).sub (total ▸ denotes_total hr k) not_opposed_of_real
  rw [← EReal.coe_sub, difference] at value
  refine ⟨d, value, ?_, fun nonzero => ?_⟩
  · have count : (k : ℝ) + 1 ≤ 2 ^ (53 : ℤ) := by exact_mod_cast few.le
    calc |d| ≤ (k + 1) * 2 ^ (334 : ℤ) := spans''.bound
      _ ≤ 2 ^ (53 : ℤ) * 2 ^ (334 : ℤ) := mul_le_mul_of_nonneg_right count (two_zpow_pos _).le
      _ = 2 ^ (387 : ℤ) := by rw [← two_zpow_add]; rfl
  · exact (two_zpow_le fine).trans (spans''.whole.le_abs nonzero)

/-- A count and the one before it, multiplied. -/
theorem exists_counts (positive : 0 < k) (few : k + 1 < 2 ^ 53) :
    ∃ c : ℝ, Denotes (ofCount (k + 1) * (ofCount (k + 1) - 1.0)) c ∧ 2 ^ (0 : ℤ) ≤ c ∧
      c ≤ 2 ^ (106 : ℤ) := by
  have count := denotes_toUInt64 few
  have before : Denotes (ofCount (k + 1) - 1.0) (k : ℝ) := by
    have whole := (denotes_toUInt64 (m := k) (by omega)).round_eq
    have difference := count.sub denotes_one not_opposed_of_real
    rwa [← EReal.coe_sub, Nat.cast_add, Nat.cast_one, add_sub_cancel_right, whole] at difference
  have product := count.mul before not_noProduct_of_real
  rw [← EReal.coe_mul] at product
  have one : (1 : ℝ) ≤ k := by exact_mod_cast positive
  have most : ((k + 1 : ℕ) : ℝ) ≤ 2 ^ (53 : ℤ) := by exact_mod_cast few.le
  have least : 2 ^ (0 : ℤ) ≤ ((k + 1 : ℕ) : ℝ) * k := by
    rw [zpow_zero]
    exact one_le_mul_of_one_le_of_one_le (by push_cast; linarith) one
  have bound : ((k + 1 : ℕ) : ℝ) * k ≤ 2 ^ (106 : ℤ) := by
    calc ((k + 1 : ℕ) : ℝ) * k ≤ 2 ^ (53 : ℤ) * 2 ^ (53 : ℤ) := by
          refine mul_le_mul most ?_ k.cast_nonneg (two_zpow_pos _).le
          push_cast at most
          linarith
      _ = 2 ^ (106 : ℤ) := by rw [← two_zpow_add]; rfl
  obtain ⟨c, value, low, high⟩ := round_between_powers (by norm_num) (by norm_num) least bound
  rw [value] at product
  exact ⟨c, product, low, high⟩

/-- The square of a residue, divided by the counts, is bounded too, and not tiny unless the residue
vanishes. -/
theorem Sizable.exists_square (h : Sizable x) (positive : 0 < k) (few : k + 1 < 2 ^ 53) :
    ∃ s : ℝ, Denotes (square x k) s ∧ 0 ≤ s ∧ s ≤ 2 ^ (774 : ℤ) ∧
      (¬Vanishes (residue x k) → 2 ^ (-878 : ℤ) ≤ s) := by
  obtain ⟨d, hd, high, low⟩ := h.exists_residue few
  obtain ⟨c, hc, one, most⟩ := exists_counts positive few
  rw [zpow_zero] at one
  have product := hd.mul hd not_noProduct_of_real
  rw [← EReal.coe_mul] at product
  rcases eq_or_ne d 0 with rfl | nonzero
  · rw [mul_zero, EReal.coe_zero, round_zero] at product
    have quotient := product.div hc (by linarith)
    rw [EReal.zero_div, round_zero] at quotient
    exact ⟨0, quotient, le_rfl, (two_zpow_pos _).le, fun some =>
      absurd (fun a ha => ha.unique hd) some⟩
  · have wide : d * d ≤ 2 ^ (774 : ℤ) := by
      calc d * d = |d| * |d| := (abs_mul_abs_self d).symm
        _ ≤ 2 ^ (387 : ℤ) * 2 ^ (387 : ℤ) :=
            mul_le_mul high high (abs_nonneg d) (two_zpow_pos _).le
        _ = 2 ^ (774 : ℤ) := by rw [← two_zpow_add]; rfl
    have apart : 2 ^ (-772 : ℤ) ≤ d * d := by
      calc (2 : ℝ) ^ (-772 : ℤ) = 2 ^ (-386 : ℤ) * 2 ^ (-386 : ℤ) := by rw [← two_zpow_add]; rfl
        _ ≤ |d| * |d| :=
            mul_le_mul (low nonzero) (low nonzero) (two_zpow_pos _).le (abs_nonneg d)
        _ = d * d := abs_mul_abs_self d
    obtain ⟨p, value, least, bound⟩ :=
      round_between_powers (by norm_num) (by norm_num) apart wide
    rw [value] at product
    have quotient := product.div hc (by linarith)
    rw [← EReal.coe_div] at quotient
    have atLeast : 2 ^ (-878 : ℤ) ≤ p / c := by
      rw [le_div_iff₀ (by linarith)]
      calc (2 : ℝ) ^ (-878 : ℤ) * c ≤ 2 ^ (-878 : ℤ) * 2 ^ (106 : ℤ) :=
            mul_le_mul_of_nonneg_left most (two_zpow_pos _).le
        _ = 2 ^ (-772 : ℤ) := by rw [← two_zpow_add]; rfl
        _ ≤ p := least
    have atMost : p / c ≤ 2 ^ (774 : ℤ) :=
      (div_le_self ((two_zpow_pos _).le.trans least) one).trans bound
    obtain ⟨s, value', slow, shigh⟩ :=
      round_between_powers (by norm_num) (by norm_num) atLeast atMost
    rw [value'] at quotient
    exact ⟨s, quotient, (two_zpow_pos _).le.trans slow, shigh, fun _ => slow⟩

/-- Squares gathered from so many residues, not zero where one was not. -/
structure Gathered (squares : Float) (count : ℕ) (apart : Prop) (v : ℝ) : Prop where
  denotes : Denotes squares v
  nonneg : 0 ≤ v
  bound : v ≤ count * 2 ^ (774 : ℤ)
  least : apart → 2 ^ (-878 : ℤ) ≤ v

theorem Gathered.add {apart : Prop} {v : ℝ} (g : Gathered squares k apart v) (h : Sizable x)
    (few : k + 2 < 2 ^ 53) :
    ∃ v' : ℝ, Gathered (squares + square x (k + 1)) (k + 1)
      (apart ∨ ¬Vanishes (residue x (k + 1))) v' := by
  obtain ⟨s, hs, nonneg, high, low⟩ := h.exists_square (Nat.succ_pos k) (by omega)
  have sum := g.denotes.add hs not_opposed_of_real
  rw [← EReal.coe_add] at sum
  have fits : Fits ((k + 1) * 2 ^ (774 : ℤ)) := fits_multiple_of_two_zpow (by norm_num) (by omega)
  have within : v + s ≤ (k + 1) * 2 ^ (774 : ℤ) := by
    have bound := g.bound
    linarith
  have below := multiple_lt_overflow (k := k) (E := 774) (by norm_num) (by omega)
  -- What the sum is no smaller than, before it is rounded and after.
  obtain ⟨l, fits', nonneg', under, least⟩ : ∃ l : ℝ, Fits l ∧ 0 ≤ l ∧ l ≤ v + s ∧
      (apart ∨ ¬Vanishes (residue x (k + 1)) → 2 ^ (-878 : ℤ) ≤ l) := by
    have before := g.nonneg
    by_cases shown : apart ∨ ¬Vanishes (residue x (k + 1))
    · refine ⟨2 ^ (-878 : ℤ), fits_two_zpow (by norm_num), (two_zpow_pos _).le, ?_, fun _ => le_rfl⟩
      rcases shown with earlier | now
      · have least := g.least earlier
        linarith
      · have least := low now
        linarith
    · exact ⟨0, fits_zero, le_rfl, add_nonneg before nonneg, fun there => absurd there shown⟩
  obtain ⟨v', value, above, most⟩ := round_between fits' fits nonneg' under within below
  rw [value] at sum
  exact ⟨v', sum, nonneg'.trans above, by exact_mod_cast most, fun there => (least there).trans above⟩

theorem Gathered.differencesFrom {apart : Prop} {v : ℝ} (g : Gathered squares k apart v)
    (h : Sizable x) (few : k + n + 1 < 2 ^ 53) :
    ∃ v' : ℝ, Gathered (differencesFrom (total x k) squares (k + 1) (List.replicate n x)) (k + n)
      (apart ∨ ∃ j < k + n + 1, k < j ∧ ¬Vanishes (residue x j)) v' := by
  induction n generalizing k squares apart v with
  | zero =>
    refine ⟨v, g.denotes, g.nonneg, g.bound, ?_⟩
    rintro (before | ⟨j, below, above, _⟩)
    · exact g.least before
    · omega
  | succ n ih =>
    rw [List.replicate_succ, differencesFrom_cons_total]
    obtain ⟨v₁, g₁⟩ := g.add h (by omega)
    obtain ⟨v₂, g₂⟩ := ih g₁ (by omega)
    have count : k + 1 + n = k + (n + 1) := by omega
    rw [count] at g₂
    refine ⟨v₂, g₂.denotes, g₂.nonneg, g₂.bound, fun there => g₂.least ?_⟩
    rcases there with before | ⟨j, below, above, shows⟩
    · exact .inl (.inl before)
    · rcases eq_or_ne j (k + 1) with rfl | later
      · exact .inl (.inr shows)
      · exact .inr ⟨j, below, by omega, shows⟩

/-- What was gathered from all residues but the first comes to a deviation. -/
theorem Gathered.exists_root {apart : Prop} {v : ℝ} (g : Gathered squares n apart v) (shown : apart)
    (few : n + 1 < 2 ^ 53) :
    ∃ s : ℝ, Denotes (squares / ofCount (n + 1)).sqrt s ∧ 0 < s ∧ s ≤ 2 ^ (387 : ℤ) := by
  have count := denotes_toUInt64 few
  have positive : (0 : ℝ) < ((n + 1 : ℕ) : ℝ) := by positivity
  have quotient := g.denotes.div count positive.ne'
  rw [← EReal.coe_div] at quotient
  have atLeast : 2 ^ (-932 : ℤ) ≤ v / ((n + 1 : ℕ) : ℝ) := by
    have most : ((n + 1 : ℕ) : ℝ) ≤ 2 ^ (54 : ℤ) := by exact_mod_cast few.le.trans (by norm_num)
    rw [le_div_iff₀ positive]
    calc (2 : ℝ) ^ (-932 : ℤ) * ((n + 1 : ℕ) : ℝ) ≤ 2 ^ (-932 : ℤ) * 2 ^ (54 : ℤ) :=
          mul_le_mul_of_nonneg_left most (two_zpow_pos _).le
      _ = 2 ^ (-878 : ℤ) := by rw [← two_zpow_add]; rfl
      _ ≤ v := g.least shown
  have atMost : v / ((n + 1 : ℕ) : ℝ) ≤ 2 ^ (774 : ℤ) := by
    rw [div_le_iff₀ positive, mul_comm]
    refine g.bound.trans (mul_le_mul_of_nonneg_right ?_ (two_zpow_pos _).le)
    push_cast
    linarith
  obtain ⟨q, value, low, high⟩ := round_between_powers (by norm_num) (by norm_num) atLeast atMost
  rw [value] at quotient
  have root := quotient.sqrt ((two_zpow_pos _).le.trans low)
  have rootLow : 2 ^ (-466 : ℤ) ≤ √q := by
    rw [Real.le_sqrt' (two_zpow_pos _), sq, ← two_zpow_add]
    exact low
  have rootHigh : √q ≤ 2 ^ (387 : ℤ) := by
    rw [Real.sqrt_le_left (two_zpow_pos _).le, sq, ← two_zpow_add]
    exact high
  obtain ⟨s, value', least, most⟩ :=
    round_between_powers (by norm_num) (by norm_num) rootLow rootHigh
  rw [value'] at root
  exact ⟨s, root, (two_zpow_pos _).trans_le least, most⟩

/-- A residue shows in the deviation. -/
theorem Sizable.exists_deviation (h : Sizable x) (few : n + 1 < 2 ^ 53)
    (remains : ¬Cancels x (n + 1)) :
    ∃ s : ℝ, Denotes (deviation (List.replicate (n + 1) x)) s ∧ 0 < s ∧ s ≤ 2 ^ (387 : ℤ) := by
  unfold Cancels at remains
  push Not at remains
  obtain ⟨j, below, positive, shown⟩ := remains
  have empty : Gathered 0.0 0 False 0 :=
    ⟨denotes_zero_literal, le_rfl, by simp, fun none => none.elim⟩
  obtain ⟨v, g⟩ := empty.differencesFrom (n := n) h (by omega)
  rw [Nat.zero_add n] at g
  rw [List.replicate_succ, deviation, List.length_replicate]
  exact g.exists_root (.inr ⟨j, by omega, positive, shown⟩) few

/-! ## The mean -/

theorem denotes_meanFrom {mean : Float} (hm : Denotes mean r) (hr : Denotes x r)
    (few : k + n < 2 ^ 53) : Denotes (meanFrom mean k (List.replicate n x)) r := by
  induction n generalizing mean k with
  | zero => exact hm
  | succ n ih =>
    rw [List.replicate_succ, meanFrom]
    refine ih ?_ (by omega)
    have none := hr.sub hm not_opposed_of_real
    rw [← EReal.coe_sub, sub_self, EReal.coe_zero, round_zero] at none
    have count := denotes_toUInt64 (m := k + 1) (by omega)
    have correction := none.div count (by positivity)
    rw [EReal.zero_div, round_zero] at correction
    have corrected := hm.add correction not_opposed_of_real
    rwa [add_zero, hr.round_eq] at corrected

/-- The mean of copies is the number itself. -/
theorem denotes_mean (hr : Denotes x r) (few : n + 1 < 2 ^ 53) :
    Denotes (mean (List.replicate (n + 1) x)) r := by
  rw [List.replicate_succ, mean, meanFrom]
  refine denotes_meanFrom ?_ hr (by omega)
  have difference := hr.sub denotes_zero_literal not_opposed_of_real
  rw [sub_zero, hr.round_eq] at difference
  have count : Denotes (ofCount (0 + 1)) (1 : ℝ) := by
    have one := denotes_toUInt64 (m := 1) (by norm_num)
    rwa [Nat.cast_one] at one
  have correction := difference.div count one_ne_zero
  rw [← EReal.coe_div, div_one, hr.round_eq] at correction
  have corrected := denotes_zero_literal.add correction fun opposed =>
    not_opposed_of_real opposed.symm
  rwa [zero_add (r : EReal), hr.round_eq] at corrected

end Statistics

namespace Performance

theorem sharpe_of_cancels {x : Float} {n : ℕ} (h : Statistics.Cancels x n) :
    sharpe (List.replicate n x) = 0.0 := by
  unfold sharpe
  split
  next => rfl
  next several =>
    rw [List.length_replicate, not_lt] at several
    obtain ⟨n, rfl⟩ : ∃ k, n = k + 1 := ⟨n - 1, by omega⟩
    exact if_neg (vanishes_iff.1 (Statistics.vanishes_deviation h)).2

theorem sharpe_eq_div {x : Float} {n : ℕ} (several : 1 ≤ n)
    (spread : 0.0 < Statistics.deviation (List.replicate (n + 1) x)) :
    sharpe (List.replicate (n + 1) x) =
      Statistics.mean (List.replicate (n + 1) x) / Statistics.deviation (List.replicate (n + 1) x) := by
  have enough : ¬(List.replicate (n + 1) x).length < 2 := by
    rw [List.length_replicate]
    omega
  rw [sharpe, if_neg enough]
  exact if_pos spread

/-- A residue shows in the ratio. -/
theorem cancels_of_sharpe {x : Float} {n : ℕ} (sizable : Statistics.Sizable x) (few : n < 2 ^ 53)
    (h : sharpe (List.replicate n x) = 0.0) : Statistics.Cancels x n := by
  by_contra remains
  obtain ⟨n, rfl⟩ : ∃ k, n = k + 1 := by
    rcases n with _ | k
    · exact absurd (fun k below => absurd below (Nat.not_lt_zero k)) remains
    · exact ⟨k, rfl⟩
  obtain ⟨s, hs, positive, bound⟩ := sizable.exists_deviation few remains
  have several : 1 ≤ n := by
    by_contra one
    exact remains fun k below positive => absurd positive (by omega)
  have spread := (lt_iff_of_denotes denotes_zero_literal hs).2 (EReal.coe_pos.2 positive)
  obtain ⟨r, hr, low, _⟩ := sizable.exists
  have ratio := (Statistics.denotes_mean hr few).div hs positive.ne'
  rw [← sharpe_eq_div several spread, h, ← EReal.coe_div] at ratio
  have large : 2 ^ (-1074 : ℤ) ≤ |r / s| := by
    rw [abs_div, abs_of_pos positive, le_div_iff₀ positive]
    calc (2 : ℝ) ^ (-1074 : ℤ) * s ≤ 2 ^ (-1074 : ℤ) * 2 ^ (387 : ℤ) :=
          mul_le_mul_of_nonneg_left bound (two_zpow_pos _).le
      _ = 2 ^ (-687 : ℤ) := by rw [← two_zpow_add]; rfl
      _ ≤ 2 ^ (-333 : ℤ) := two_zpow_le (by norm_num)
      _ ≤ |r| := low
  exact round_ne_zero large (ratio.unique denotes_zero_literal)

end Performance

/-- A sale of one unit at a tenth. -/
def Sample.tenth : Trade := ⟨1, "A", .sell, 1, 0.1, 0, 0.0⟩

namespace Metrics

open Statistics

theorem sharpe_of_level {trades : List Trade} {x : Float} (level : ∀ t ∈ trades, t.pnl = x)
    (some : trades ≠ []) (history : List PnlPoint) (activity : Activity) :
    (of trades history activity).sharpe = Performance.sharpe (List.replicate trades.length x) := by
  have pnls : trades.map Trade.pnl = List.replicate trades.length x := by
    rw [List.eq_replicate_iff]
    exact ⟨List.length_map _, by simpa using level⟩
  rw [of, if_neg (by simpa using some), ← pnls]

/-- The Sharpe ratio of trades with the same profit is zero where no running total leaves a residue,
which none does with up to five trades, nor as long as the multiples of the profit fit. For a profit that
is neither tiny nor huge, it is zero nowhere else. -/
theorem level_sharpe {trades : List Trade} {x : Float} (finite : x.isFinite = true)
    (level : ∀ t ∈ trades, t.pnl = x) (several : 2 ≤ trades.length) (history : List PnlPoint)
    (activity : Activity) :
    (Cancels x trades.length → (of trades history activity).sharpe = 0.0) ∧
      (trades.length ≤ 5 → (of trades history activity).sharpe = 0.0) ∧
      (∀ m e : ℤ, -1074 ≤ e → Denotes x (m * 2 ^ e : ℝ) → trades.length * |m| < 2 ^ 53 →
        (of trades history activity).sharpe = 0.0) ∧
      (Sizable x → trades.length < 2 ^ 53 →
        ((of trades history activity).sharpe = 0.0 ↔ Cancels x trades.length)) := by
  have some : trades ≠ [] := by
    rintro rfl
    exact absurd several (by decide)
  rw [sharpe_of_level level some]
  refine ⟨Performance.sharpe_of_cancels, ?_, ?_, ?_⟩
  · intro few
    exact Performance.sharpe_of_cancels (cancels_of_le_five finite few)
  · intro m e least hr digits
    exact Performance.sharpe_of_cancels (cancels_of_digits hr least digits)
  · intro sizable few
    exact ⟨Performance.cancels_of_sharpe sizable few, Performance.sharpe_of_cancels⟩

/-- Five such sales have no ratio, and six have one. -/
theorem level_sharpe_sample :
    (of (List.replicate 5 Sample.tenth) [] .none).sharpe = 0.0 ∧
      (of (List.replicate 6 Sample.tenth) [] .none).sharpe ≠ 0.0 := by
  have level (n : ℕ) : ∀ t ∈ List.replicate n Sample.tenth, t.pnl = 0.1 := by
    intro t member
    rw [List.eq_of_mem_replicate member]
    decide +kernel
  obtain ⟨-, few, -, -⟩ :=
    level_sharpe (by decide +kernel) (level 5) (by decide) [] .none
  obtain ⟨-, -, -, exact⟩ :=
    level_sharpe (by decide +kernel) (level 6) (by decide) [] .none
  refine ⟨few (by decide), ?_⟩
  rw [ne_eq, exact (by decide +kernel) (by decide)]
  decide +kernel

/-- The profits of six sales at a tenth are the same, and their ratio is not zero. -/
theorem sharpe_of_six_tenths :
    (∀ t ∈ List.replicate 6 Sample.tenth, t.pnl = 0.1) ∧
      (of (List.replicate 6 Sample.tenth) [] .none).sharpe ≠ 0.0 := by
  constructor
  · decide +kernel
  · decide +kernel

end Metrics

end MarketMaker
