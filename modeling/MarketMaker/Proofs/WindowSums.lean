import MarketMaker.Proofs.LatestReturns
import Mathlib.Algebra.BigOperators.Ring.List
import Mathlib.Algebra.Order.BigOperators.Group.List
import Mathlib.Analysis.Real.Sqrt
import Mathlib.Tactic.Ring

/-!
# Sums over a window

A window keeps two sums along with its returns, and brings them up to date by what comes and what goes.
Over exact numbers they are the sums of the returns kept, whatever came and went
(`ReturnWindow.summed_pushes`). From them comes the mean squared deviation of the returns from their
mean (`ReturnWindow.variance_eq`), which is never negative, and zero only where all returns are equal.
So the deviation that a window shows is that of its returns (`ReturnWindow.exact_deviation`).
-/

namespace MarketMaker

namespace Population

variable {α : Type}

/-- The mean of all of a population. -/
def mean [Field α] (xs : List α) : α :=
  xs.sum / xs.length

/-- The mean squared deviation of a population from its mean. -/
def meanSquare [Field α] (xs : List α) : α :=
  (xs.map fun x => (x - mean xs) ^ 2).sum / xs.length

/-- The mean square without the mean: expand the squares, and gather the terms. -/
theorem meanSquare_eq [Field α] [CharZero α] (xs : List α) :
    meanSquare xs = (xs.map fun x => x * x).sum / xs.length - mean xs * mean xs := by
  rcases eq_or_ne xs [] with rfl | some
  · simp [meanSquare, mean]
  have count : (xs.length : α) ≠ 0 := by simpa using some
  have total : xs.sum = xs.length * mean xs := by
    rw [mean, mul_div_cancel₀ _ count]
  have expand (x : α) :
      (x - mean xs) ^ 2 = x * x + (-(2 * mean xs) * x + mean xs * mean xs) := by ring
  have gathered : (xs.map fun x => (x - mean xs) ^ 2).sum =
      (xs.map fun x => x * x).sum - xs.length * (mean xs * mean xs) := by
    have linear : (xs.map fun x => -(2 * mean xs) * x).sum = -(2 * mean xs) * xs.sum := by
      rw [List.sum_map_mul_left, List.map_id']
    simp only [expand]
    rw [List.sum_map_add, List.sum_map_add, linear, List.map_const', List.sum_replicate, nsmul_eq_mul,
      total]
    ring
  rw [meanSquare, gathered, sub_div, mul_div_cancel_left₀ _ count]

section Order

variable [Field α] [LinearOrder α] [IsStrictOrderedRing α] {xs : List α}

theorem squares_nonneg (xs : List α) : ∀ square ∈ xs.map fun x => (x - mean xs) ^ 2, 0 ≤ square := by
  intro square inside
  obtain ⟨x, -, rfl⟩ := List.mem_map.1 inside
  exact sq_nonneg _

theorem meanSquare_nonneg (xs : List α) : 0 ≤ meanSquare xs :=
  div_nonneg (List.sum_nonneg (squares_nonneg xs)) (Nat.cast_nonneg _)

theorem mean_of_equal {x : α} (equal : ∀ y ∈ xs, y = x) (some : xs ≠ []) : mean xs = x := by
  have count : (xs.length : α) ≠ 0 := by simpa using some
  rw [mean, List.eq_replicate_of_mem equal, List.sum_replicate, List.length_replicate, nsmul_eq_mul,
    mul_div_cancel_left₀ _ count]

/-- Only a population of equals does not deviate. -/
theorem meanSquare_nonpos_iff : meanSquare xs ≤ 0 ↔ ∀ x ∈ xs, ∀ y ∈ xs, x = y := by
  rcases eq_or_ne xs [] with rfl | some
  · simp [meanSquare]
  have count : (xs.length : α) ≠ 0 := by simpa using some
  constructor
  · intro none
    have quotient : meanSquare xs = 0 := le_antisymm none (meanSquare_nonneg xs)
    have zero := (div_eq_zero_iff.1 quotient).resolve_right count
    have atMean : ∀ x ∈ xs, x = mean xs := by
      intro x member
      have square := List.all_zero_of_le_zero_le_of_sum_eq_zero (squares_nonneg xs) zero
        (List.mem_map_of_mem member)
      exact sub_eq_zero.1 ((pow_eq_zero_iff two_ne_zero).1 square)
    intro x memberx y membery
    rw [atMean x memberx, atMean y membery]
  · intro equal
    have still : ∀ square ∈ xs.map fun x => (x - mean xs) ^ 2, square = 0 := by
      intro square inside
      obtain ⟨x, member, rfl⟩ := List.mem_map.1 inside
      rw [mean_of_equal (fun y other => equal y other x member) some, sub_self, zero_pow two_ne_zero]
    rw [meanSquare, List.sum_eq_zero still, zero_div]

end Order

end Population

namespace ReturnWindow

open Population

variable {α : Type}

/-! ## The sums -/

/-- The figures kept along are the sums of the returns kept and of their squares. -/
structure Summed [Zero α] [Add α] [Mul α] (w : ReturnWindow α) : Prop where
  sum : w.sum = w.returns.sum
  squares : w.squares = (w.returns.map fun r => r * r).sum

section Exact

variable [Field α] {w : ReturnWindow α}

theorem summed_empty (size : Nat) : Summed (empty size : ReturnWindow α) :=
  ⟨rfl, rfl⟩

theorem Summed.dropOldest (h : w.Summed) : w.dropOldest.Summed := by
  unfold ReturnWindow.dropOldest
  cases popped : w.kept.pop? with
  | none => exact h
  | some taken =>
    obtain ⟨old, rest⟩ := taken
    have kept : w.returns = old :: rest.toList := Queue.toList_of_pop? popped
    have sum := h.sum
    have squares := h.squares
    rw [kept] at sum squares
    constructor
    · change w.sum - old = rest.toList.sum
      rw [sum, List.sum_cons, add_sub_cancel_left]
    · change w.squares - old * old = (rest.toList.map fun r => r * r).sum
      rw [squares, List.map_cons, List.sum_cons, add_sub_cancel_left]

theorem Summed.append (h : w.Summed) (r : α) : (w.append r).Summed := by
  constructor
  · rw [returns_append, List.sum_append, List.sum_singleton, ← h.sum]
    rfl
  · rw [returns_append, List.map_append, List.sum_append, List.map_singleton, List.sum_singleton,
      ← h.squares]
    rfl

theorem Summed.push (h : w.Summed) (r : α) : (w.push r).Summed := by
  unfold ReturnWindow.push
  split
  · exact h.dropOldest.append r
  · exact h.append r

end Exact

/-- A new window that has taken some returns. -/
def pushes [OfNat α 0] [Add α] [Sub α] [Mul α] (size : Nat) (returns : List α) : ReturnWindow α :=
  returns.foldl push (empty size)

/-- **The sums are those of the returns kept**, after any returns. -/
theorem summed_pushes [Field α] (size : Nat) (returns : List α) : (pushes size returns).Summed := by
  induction returns using List.reverseRecOn with
  | nil => exact summed_empty size
  | append_singleton returns r ih =>
    rw [pushes, List.foldl_concat]
    exact ih.push r

/-- Of all returns the latest are kept. -/
theorem returns_pushes [OfNat α 0] [Add α] [Sub α] [Mul α] (size : Nat) (returns : List α) :
    (pushes size returns).size = size ∧
      (pushes size returns).returns = returns.rtake (max size 1) := by
  induction returns using List.reverseRecOn with
  | nil => exact ⟨rfl, (List.rtake_nil _).symm⟩
  | append_singleton returns r ih =>
    obtain ⟨sized, kept⟩ := ih
    have next : pushes size (returns ++ [r]) = (pushes size returns).push r := List.foldl_concat ..
    rw [next, size_push, returns_push, rtake_concat, sized, kept]
    exact ⟨rfl, rfl⟩

/-! ## The deviation -/

theorem variance_eq [Field α] [CharZero α] {w : ReturnWindow α} (h : w.Summed) :
    w.variance w.returns.length = meanSquare w.returns := by
  rw [meanSquare_eq, variance, h.sum, h.squares]
  rfl

/-- The deviation that a window shows, over any numbers that have an order and roots. -/
def deviation? [OfNat α 0] [Sub α] [Mul α] [Div α] [LE α] [DecidableLE α] (count : Nat → α)
    (root : α → α) (w : ReturnWindow α) : Option α :=
  if w.kept.size < 2 then none
  else
    let v := w.variance (count w.kept.size)
    some (if v ≤ 0 then 0 else root v)

section Shown

variable [OfNat α 0] [Sub α] [Mul α] [Div α] [LE α] [DecidableLE α] (count : ℕ → α) (root : α → α)

theorem deviation?_eq_none_iff (w : ReturnWindow α) :
    w.deviation? count root = none ↔ w.returns.length < 2 := by
  rw [length_returns, deviation?]
  split
  next few => exact iff_of_true rfl few
  next enough => exact iff_of_false (Option.some_ne_none _) enough

/-- With enough returns a root is shown, or zero in its place. -/
theorem exists_deviation? (w : ReturnWindow α) (enough : 2 ≤ w.returns.length) :
    ∃ d, w.deviation? count root = some d ∧
      (w.variance (count w.returns.length) ≤ 0 ∧ d = 0 ∨
        ¬w.variance (count w.returns.length) ≤ 0 ∧ d = root (w.variance (count w.returns.length))) := by
  rw [length_returns] at enough ⊢
  rw [deviation?, if_neg (by omega)]
  refine ⟨_, rfl, ?_⟩
  split
  next zero => exact .inl ⟨zero, rfl⟩
  next positive => exact .inr ⟨positive, rfl⟩

end Shown

/-- Over doubles it is the figure for volatility. -/
theorem volatility?_eq_deviation? (w : ReturnWindow Float) :
    w.volatility? = w.deviation? Double.ofCount Float.sqrt :=
  rfl

/-- What is shown for two returns or more is the root of their mean square, if roots are roots of
positive numbers. The clamp leaves the zero alone that it puts in place of a root. -/
theorem exists_root [Field α] [LinearOrder α] [IsStrictOrderedRing α] {root : α → α}
    (isRoot : ∀ v, 0 < v → 0 ≤ root v ∧ root v ^ 2 = v) {w : ReturnWindow α} (summed : w.Summed)
    (enough : 2 ≤ w.returns.length) :
    ∃ d, w.deviation? Nat.cast root = some d ∧ 0 ≤ d ∧ d ^ 2 = meanSquare w.returns := by
  obtain ⟨d, shown, clamped⟩ := w.exists_deviation? Nat.cast root enough
  rw [variance_eq summed] at clamped
  refine ⟨d, shown, ?_⟩
  rcases clamped with ⟨zero, rfl⟩ | ⟨positive, rfl⟩
  · have none : meanSquare w.returns = 0 := le_antisymm zero (meanSquare_nonneg _)
    rw [none]
    exact ⟨le_rfl, zero_pow two_ne_zero⟩
  · exact isRoot _ (lt_of_not_ge positive)

/-- **The deviation is that of the returns kept.** Over exact numbers a window keeps the latest of the
returns that it took, their sum and the sum of their squares. The variance is the mean squared
deviation of these returns from their mean, which is never negative, and not positive only where all
returns are equal. With fewer than two returns there is no deviation; with more it is the root of that
mean square, wherever there are roots. The figure for volatility is the same deviation, over doubles. -/
theorem exact_deviation [Field α] [LinearOrder α] [IsStrictOrderedRing α] (size : ℕ)
    (returns : List α) :
    let w := pushes size returns
    w.returns = returns.rtake (max size 1) ∧
      w.sum = w.returns.sum ∧
      w.squares = (w.returns.map fun r => r * r).sum ∧
      w.variance w.returns.length = meanSquare w.returns ∧
      0 ≤ w.variance w.returns.length ∧
      (w.variance w.returns.length ≤ 0 ↔ ∀ r ∈ w.returns, ∀ s ∈ w.returns, r = s) ∧
      (∀ root : α → α,
        (w.deviation? Nat.cast root = none ↔ w.returns.length < 2) ∧
        ((∀ v, 0 < v → 0 ≤ root v ∧ root v ^ 2 = v) → 2 ≤ w.returns.length →
          ∃ d, w.deviation? Nat.cast root = some d ∧ 0 ≤ d ∧ d ^ 2 = meanSquare w.returns)) ∧
      ∀ w : ReturnWindow Float, w.volatility? = w.deviation? Double.ofCount Float.sqrt := by
  intro w
  have summed : w.Summed := summed_pushes size returns
  have variance := variance_eq summed
  exact ⟨(returns_pushes size returns).2, summed.sum, summed.squares, variance,
    variance ▸ meanSquare_nonneg _, variance ▸ meanSquare_nonpos_iff,
    fun root => ⟨w.deviation?_eq_none_iff _ _, fun isRoot enough => exists_root isRoot summed enough⟩,
    volatility?_eq_deviation?⟩

/-- A window of two lets the first of three returns go, and shows the deviation of the others. -/
theorem exact_deviation_sample :
    let w : ReturnWindow ℝ := pushes 2 [5, 1, 3]
    (∀ v : ℝ, 0 < v → 0 ≤ √v ∧ √v ^ 2 = v) ∧ w.returns = [1, 3] ∧ w.sum = 4 ∧ w.squares = 10 ∧
      w.variance 2 = 1 ∧ w.deviation? Nat.cast Real.sqrt = some 1 := by
  intro w
  have isRoot (v : ℝ) (positive : 0 < v) : 0 ≤ √v ∧ √v ^ 2 = v :=
    ⟨Real.sqrt_nonneg v, Real.sq_sqrt positive.le⟩
  obtain ⟨kept, sum, squares, variance, -, -, deviates, -⟩ := exact_deviation 2 [5, 1, (3 : ℝ)]
  have shown := (deviates Real.sqrt).2 isRoot
  have latest : w.returns = [1, 3] := kept
  have square : meanSquare ([1, 3] : List ℝ) = 1 := by
    norm_num [meanSquare, mean]
  change w.sum = _ at sum
  change w.squares = _ at squares
  change w.variance (w.returns.length : ℝ) = meanSquare w.returns at variance
  change 2 ≤ w.returns.length → ∃ d, w.deviation? Nat.cast Real.sqrt = some d ∧ 0 ≤ d ∧
    d ^ 2 = meanSquare w.returns at shown
  rw [latest] at sum squares variance shown
  rw [square] at variance shown
  obtain ⟨d, figure, nonneg, root⟩ := shown le_rfl
  have one : d = 1 := (pow_eq_one_iff_of_nonneg nonneg two_ne_zero).1 root
  refine ⟨isRoot, latest, ?_, ?_, ?_, one ▸ figure⟩
  · rw [sum]
    norm_num
  · rw [squares]
    norm_num
  · exact_mod_cast variance

end ReturnWindow

end MarketMaker
