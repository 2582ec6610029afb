import MarketMaker.Proofs.Double.Comparison

/-!
# Extremes, differences and products

Of two numbers, `larger` and `smaller` pick one that no other exceeds or goes below, and so does the
fold of either over a list (`Picks.foldl`). A difference of finite doubles grows with what is
subtracted from and shrinks with what is subtracted (`difference_le_difference`); it is zero, and not
minus zero, where a double is subtracted from itself (`difference_self`). A finite multiple of a double
that is not negative grows with the factor, also where it overflows (`product_le_product_left`).
-/

namespace MarketMaker.Double

open Float.Model (UnpackedFloat)

variable {x y z : Float}

/-! ## Larger and smaller -/

/-- The larger is the first only where the second is less. -/
theorem larger_cases (x : Float) (number : y.isNaN = false) :
    (y < x ∧ larger x y = x) ∨ (¬y < x ∧ larger x y = y) := by
  unfold larger
  rw [number, Bool.or_false]
  by_cases less : y < x
  · exact .inl ⟨less, if_pos (decide_eq_true less)⟩
  · exact .inr ⟨less, if_neg (by simpa using less)⟩

theorem smaller_cases (x : Float) (number : y.isNaN = false) :
    (x < y ∧ smaller x y = x) ∨ (¬x < y ∧ smaller x y = y) := by
  unfold smaller
  rw [number, Bool.or_false]
  by_cases less : x < y
  · exact .inl ⟨less, if_pos (decide_eq_true less)⟩
  · exact .inr ⟨less, if_neg (by simpa using less)⟩

theorem le_of_less (h : x < y) : x ≤ y := by
  obtain ⟨a, b, ha, hb, less⟩ := exists_of_lt h
  exact (le_iff_of_denotes ha hb).2 less.le

theorem le_of_not_less (hx : x.isNaN = false) (hy : y.isNaN = false) (h : ¬y < x) : x ≤ y := by
  by_contra above
  exact h (lt_of_not_le hx hy above)

theorem larger_of_le (h : x ≤ y) : larger x y = y := by
  rcases larger_cases x (numbers_of_le h).2 with ⟨less, _⟩ | ⟨_, second⟩
  · exact absurd less (not_lt_of_le h)
  · exact second

/-- A number in the second place is not above the larger, whatever is in the first. -/
theorem le_larger (x : Float) (number : y.isNaN = false) : y ≤ larger x y := by
  rcases larger_cases x number with ⟨less, picked⟩ | ⟨_, picked⟩
  · rw [picked]
    exact le_of_less less
  · rw [picked]
    exact le_self number

theorem smaller_of_le (h : y ≤ x) : smaller x y = y := by
  rcases smaller_cases x (numbers_of_le h).1 with ⟨less, _⟩ | ⟨_, second⟩
  · exact absurd less (not_lt_of_le h)
  · exact second

/-- What picks one of two numbers, such that either stands in a relation to what is picked. -/
structure Picks (R : Float → Float → Prop) (pick : Float → Float → Float) : Prop where
  refl : ∀ x, x.isNaN = false → R x x
  trans : ∀ x y z, R x y → R y z → R x z
  one : ∀ x y, y.isNaN = false → pick x y = x ∨ pick x y = y
  left : ∀ x y, x.isNaN = false → y.isNaN = false → R x (pick x y)
  right : ∀ x y, x.isNaN = false → y.isNaN = false → R y (pick x y)

theorem picks_larger : Picks (· ≤ ·) larger where
  refl _ := le_self
  trans _ _ _ := le_trans
  one x y hy := (larger_cases x hy).imp And.right And.right
  left x y hx hy := by
    rcases larger_cases x hy with ⟨_, picked⟩ | ⟨least, picked⟩
    · rw [picked]
      exact le_self hx
    · rw [picked]
      exact le_of_not_less hx hy least
  right x y _ hy := le_larger x hy

theorem picks_smaller : Picks (· ≥ ·) smaller where
  refl _ := le_self
  trans _ _ _ h h' := le_trans h' h
  one x y hy := (smaller_cases x hy).imp And.right And.right
  left x y hx hy := by
    rcases smaller_cases x hy with ⟨_, picked⟩ | ⟨most, picked⟩
    · rw [picked]
      exact le_self hx
    · rw [picked]
      exact le_of_not_less hy hx most
  right x y _ hy := by
    rcases smaller_cases x hy with ⟨less, picked⟩ | ⟨_, picked⟩
    · rw [picked]
      exact le_of_less less
    · rw [picked]
      exact le_self hy

namespace Picks

variable {R : Float → Float → Prop} {pick : Float → Float → Float}

theorem isNaN (p : Picks R pick) (hx : x.isNaN = false) (hy : y.isNaN = false) :
    (pick x y).isNaN = false := by
  rcases p.one x y hy with picked | picked
  · rwa [picked]
  · rwa [picked]

/-- What is picked out of a list is one of it, and everything in it stands in the relation to that. -/
theorem foldl (p : Picks R pick) {x : Float} (hx : x.isNaN = false) {xs : List Float}
    (numbers : ∀ y ∈ xs, y.isNaN = false) :
    xs.foldl pick x ∈ x :: xs ∧ ∀ y ∈ x :: xs, R y (xs.foldl pick x) := by
  induction xs generalizing x with
  | nil =>
    refine ⟨List.mem_cons_self, ?_⟩
    intro y member
    rw [List.mem_singleton.1 member]
    exact p.refl x hx
  | cons z zs ih =>
    obtain ⟨hz, rest⟩ := List.forall_mem_cons.1 numbers
    obtain ⟨member, best⟩ := ih (p.isNaN hx hz) rest
    have picked := best _ List.mem_cons_self
    rw [List.foldl_cons]
    constructor
    · rcases List.mem_cons.1 member with first | later
      · rw [first]
        rcases p.one x z hz with left | right
        · rw [left]
          exact List.mem_cons_self
        · rw [right]
          exact List.mem_cons_of_mem _ List.mem_cons_self
      · exact List.mem_cons_of_mem _ (List.mem_cons_of_mem _ later)
    · intro y there
      rcases List.mem_cons.1 there with rfl | later
      · exact p.trans _ _ _ (p.left y z hx hz) picked
      · rcases List.mem_cons.1 later with rfl | last
        · exact p.trans _ _ _ (p.right x y hx hz) picked
        · exact best y (List.mem_cons_of_mem _ last)

end Picks

/-! ## Differences of finite doubles -/

theorem denotes_sub_of_isFinite (hx : x.isFinite = true) (hy : y.isFinite = true) :
    ∃ r s : ℝ, Denotes x r ∧ Denotes y s ∧ Denotes (x - y) (round ((r : EReal) - s)) := by
  obtain ⟨r, hr⟩ := isFinite_iff.1 hx
  obtain ⟨s, hs⟩ := isFinite_iff.1 hy
  exact ⟨r, s, hr, hs, hr.sub hs not_opposed_of_real⟩

theorem isNaN_difference (hx : x.isFinite = true) (hy : y.isFinite = true) :
    (x - y).isNaN = false := by
  obtain ⟨_, _, _, _, difference⟩ := denotes_sub_of_isFinite hx hy
  exact difference.isNaN

theorem difference_le_difference {x' y' : Float} (hx : x.isFinite = true)
    (hx' : x'.isFinite = true) (hy : y.isFinite = true) (hy' : y'.isFinite = true) (h : x ≤ x')
    (h' : y' ≤ y) : x - y ≤ x' - y' := by
  obtain ⟨r, s, hr, hs, less⟩ := denotes_sub_of_isFinite hx hy
  obtain ⟨r', s', hr', hs', more⟩ := denotes_sub_of_isFinite hx' hy'
  rw [le_iff_of_denotes hr hr'] at h
  rw [le_iff_of_denotes hs' hs] at h'
  rw [le_iff_of_denotes less more]
  exact round_mono (EReal.sub_le_sub h h')

/-- A difference does not vanish by rounding. -/
theorem difference_nonpos_iff (hx : x.isFinite = true) (hy : y.isFinite = true) :
    x - y ≤ 0.0 ↔ x ≤ y := by
  obtain ⟨r, s, hr, hs, difference⟩ := denotes_sub_of_isFinite hx hy
  rw [le_iff_of_denotes difference denotes_zero_literal, le_iff_of_denotes hr hs]
  exact round_sub_nonpos_iff hr hs

theorem difference_pos (hx : x.isFinite = true) (hy : y.isFinite = true) (h : y < x) :
    0.0 < x - y := by
  apply lt_of_not_le (isNaN_difference hx hy) (by decide +kernel)
  rw [difference_nonpos_iff hx hy]
  exact fun le => not_lt_of_le le h

theorem unpacked_sub_self {u : UnpackedFloat} (finite : u.isFinite = true) :
    UnpackedFloat.sub .binary64 u u = .zero .positive := by
  cases u with
  | notANumber => exact absurd finite Bool.false_ne_true
  | infinity s => exact absurd finite Bool.false_ne_true
  | zero s => cases s <;> rfl
  | finite s m e positive =>
    simp only [UnpackedFloat.sub, Int.sub_self]
    rfl

/-- Nothing is left of a double less itself, with the sign plus. -/
theorem difference_self (finite : x.isFinite = true) : x - x = 0.0 := by
  change Float.ofModel (.pack (UnpackedFloat.sub .binary64 _ _)) = 0.0
  rw [unpacked_sub_self finite]
  decide +kernel

/-! ## Products of finite doubles -/

theorem isFinite_of_le (hx : 0.0 ≤ x) (h : x ≤ y) (hy : y.isFinite = true) : x.isFinite = true := by
  obtain ⟨s, hs⟩ := isFinite_iff.1 hy
  obtain ⟨r, _, _, hr⟩ := exists_of_le_finite hx h hs
  exact isFinite_iff.2 ⟨r, hr⟩

theorem product_le_product_left (nonneg : 0.0 ≤ x) (hx : x.isFinite = true) (hy : y.isFinite = true)
    (hz : z.isFinite = true) (h : y ≤ z) : x * y ≤ x * z := by
  obtain ⟨r, hr⟩ := isFinite_iff.1 hx
  obtain ⟨s, hs⟩ := isFinite_iff.1 hy
  obtain ⟨t, ht⟩ := isFinite_iff.1 hz
  have positive := (le_iff_of_denotes denotes_zero_literal hr).1 nonneg
  have less := (le_iff_of_denotes hs ht).1 h
  rw [le_iff_of_denotes (hr.mul hs not_noProduct_of_real) (hr.mul ht not_noProduct_of_real)]
  exact round_mono (mul_le_mul_of_nonneg_left less positive)

/-- A product with one is that number again. -/
theorem denotes_mul_one {r : ℝ} (hr : Denotes x r) : Denotes (x * 1.0) r := by
  have product := hr.mul denotes_one not_noProduct_of_real
  rwa [EReal.coe_one, mul_one, hr.round_eq] at product

theorem le_product_of_one_le (nonneg : 0.0 ≤ x) (hx : x.isFinite = true) (hy : y.isFinite = true)
    (h : 1.0 ≤ y) : x ≤ x * y := by
  obtain ⟨r, hr⟩ := isFinite_iff.1 hx
  have once : x ≤ x * 1.0 := (le_iff_of_denotes hr (denotes_mul_one hr)).2 le_rfl
  exact le_trans once (product_le_product_left nonneg hx (by decide +kernel) hy h)

theorem product_le_of_le_one (nonneg : 0.0 ≤ x) (hx : x.isFinite = true) (hy : y.isFinite = true)
    (h : y ≤ 1.0) : x * y ≤ x := by
  obtain ⟨r, hr⟩ := isFinite_iff.1 hx
  have once : x * 1.0 ≤ x := (le_iff_of_denotes (denotes_mul_one hr) hr).2 le_rfl
  exact le_trans (product_le_product_left nonneg hx hy (by decide +kernel) h) once

end MarketMaker.Double
