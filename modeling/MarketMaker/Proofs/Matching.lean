import MarketMaker.Execution.Fill
import MarketMaker.Proofs.Double.Monotone

/-!
# How orders match

Purchases and sales match by the same rule, read from either side of the book. A limit order that
reaches the touch fills there, one that comes within the tolerance of it fills at its own limit, and
no other fills (`Fill.match?_limit`). The two sides differ in what they take for a touch
(`Side.Takes`): a purchase wants it positive and finite, a sale only not at most zero.
-/

namespace MarketMaker

open Double

namespace Side

/-- A price is no worse than another: a purchase wants it low, a sale high. -/
def NoWorse : Side → Float → Float → Prop
  | .buy, p, q => p ≤ q
  | .sell, p, q => q ≤ p

/-- What orders of a side take for a touch. -/
def Takes : Side → Float → Prop
  | .buy, touch => 0.0 < touch ∧ touch.isFinite = true
  | .sell, touch => ¬touch ≤ 0.0

instance (side : Side) (p q : Float) : Decidable (side.NoWorse p q) :=
  match side with
  | .buy => inferInstanceAs (Decidable (p ≤ q))
  | .sell => inferInstanceAs (Decidable (q ≤ p))

instance (side : Side) (touch : Float) : Decidable (side.Takes touch) :=
  match side with
  | .buy => inferInstanceAs (Decidable (0.0 < touch ∧ touch.isFinite = true))
  | .sell => inferInstanceAs (Decidable ¬touch ≤ 0.0)

/-- The limit furthest from a touch that is still within the tolerance. -/
def edge (tolerance touch : Float) : Side → Float
  | .buy => touch * (1.0 - tolerance)
  | .sell => touch * (1.0 + tolerance)

variable {side : Side} {p q r touch tolerance wider : Float}

theorem noWorse_self (side : Side) (number : p.isNaN = false) : side.NoWorse p p := by
  cases side with
  | buy => exact le_self number
  | sell => exact le_self number

theorem NoWorse.trans (h : side.NoWorse p q) (h' : side.NoWorse q r) : side.NoWorse p r := by
  cases side with
  | buy => exact Double.le_trans h h'
  | sell => exact Double.le_trans h' h

/-- Of two numbers one is no worse than the other. -/
theorem noWorse_of_not (hp : p.isNaN = false) (hq : q.isNaN = false) (h : ¬side.NoWorse p q) :
    side.NoWorse q p := by
  cases side with
  | buy => exact le_of_less (lt_of_not_le hp hq h)
  | sell => exact le_of_less (lt_of_not_le hq hp h)

/-- A finite touch is taken where it is positive. -/
theorem takes_iff (side : Side) (finite : touch.isFinite = true) :
    side.Takes touch ↔ 0.0 < touch := by
  cases side with
  | buy => exact and_iff_left finite
  | sell =>
    constructor
    · exact lt_of_not_le (isNaN_of_isFinite finite) (by decide +kernel)
    · exact fun positive below => not_lt_of_le below positive

/-! ## The tolerance -/

theorem isFinite_one_sub (nonneg : 0.0 ≤ tolerance) (below : tolerance < 1.0) :
    (1.0 - tolerance).isFinite = true := by
  have finite := isFinite_of_le nonneg (le_of_less below) (by decide +kernel)
  have low : 1.0 - 1.0 ≤ 1.0 - tolerance :=
    difference_le_difference (by decide +kernel) (by decide +kernel) (by decide +kernel) finite
      (by decide +kernel) (le_of_less below)
  have high : 1.0 - tolerance ≤ 1.0 - 0.0 :=
    difference_le_difference (by decide +kernel) (by decide +kernel) finite (by decide +kernel)
      (by decide +kernel) nonneg
  exact isFinite_of_le (Double.le_trans (by decide +kernel) low) high (by decide +kernel)

theorem isFinite_one_add (nonneg : 0.0 ≤ tolerance) (below : tolerance < 1.0) :
    (1.0 + tolerance).isFinite = true := by
  have low : 1.0 + 0.0 ≤ 1.0 + tolerance :=
    sum_le_sum (by decide +kernel) (by decide +kernel) (by decide +kernel) nonneg
  have high : 1.0 + tolerance ≤ 1.0 + 1.0 :=
    sum_le_sum (by decide +kernel) (by decide +kernel) nonneg (le_of_less below)
  exact isFinite_of_le (Double.le_trans (by decide +kernel) low) high (by decide +kernel)

/-- With more tolerance the edge is further out. -/
theorem noWorse_edge_edge (side : Side) (finite : touch.isFinite = true) (positive : 0.0 < touch)
    (nonneg : 0.0 ≤ tolerance) (more : tolerance ≤ wider) (below : wider < 1.0) :
    side.NoWorse (side.edge wider touch) (side.edge tolerance touch) := by
  have narrow := lt_of_le_of_lt more below
  have nonneg' := Double.le_trans nonneg more
  have finitet := isFinite_of_le nonneg (le_of_less narrow) (by decide +kernel)
  have finitew := isFinite_of_le nonneg' (le_of_less below) (by decide +kernel)
  cases side with
  | buy =>
    have factors : 1.0 - wider ≤ 1.0 - tolerance :=
      difference_le_difference (by decide +kernel) (by decide +kernel) finitew finitet
        (by decide +kernel) more
    exact product_le_product_left (le_of_less positive) finite (isFinite_one_sub nonneg' below)
      (isFinite_one_sub nonneg narrow) factors
  | sell =>
    have factors : 1.0 + tolerance ≤ 1.0 + wider :=
      sum_le_sum (by decide +kernel) (by decide +kernel) nonneg more
    exact product_le_product_left (le_of_less positive) finite (isFinite_one_add nonneg narrow)
      (isFinite_one_add nonneg' below) factors

/-- Without tolerance the edge is the touch. -/
theorem noWorse_touch_edge (side : Side) (finite : touch.isFinite = true) (positive : 0.0 < touch)
    (nonneg : 0.0 ≤ tolerance) (none : tolerance ≤ 0.0) :
    side.NoWorse touch (side.edge tolerance touch) := by
  have below : tolerance < 1.0 := lt_of_le_of_lt none (by decide +kernel)
  have finitet := isFinite_of_le nonneg (le_of_less below) (by decide +kernel)
  cases side with
  | buy =>
    have factor : 1.0 - 0.0 ≤ 1.0 - tolerance :=
      difference_le_difference (by decide +kernel) (by decide +kernel) (by decide +kernel) finitet
        (by decide +kernel) none
    exact le_product_of_one_le (le_of_less positive) finite (isFinite_one_sub nonneg below)
      (Double.le_trans (by decide +kernel) factor)
  | sell =>
    have factor : 1.0 + tolerance ≤ 1.0 + 0.0 :=
      sum_le_sum (by decide +kernel) (by decide +kernel) nonneg none
    exact product_le_of_le_one (le_of_less positive) finite (isFinite_one_add nonneg below)
      (Double.le_trans factor (by decide +kernel))

end Side

/-! ## The match -/

namespace Fill

variable {tolerance : Float} {book : TopOfBook} {o : Order} {fill : Fill}

/-- One rule for both sides. -/
theorem match?_eq (tolerance : Float) (o : Order) (book : TopOfBook) :
    match? tolerance o book =
      if o.side.Takes (book.touch o.side) then
        match o.kind with
        | .market => some ⟨book.touch o.side, .market⟩
        | .limit =>
          if o.side.NoWorse (book.touch o.side) o.price then some ⟨book.touch o.side, .crossed⟩
          else if o.side.NoWorse (o.side.edge tolerance (book.touch o.side)) o.price then
            some ⟨o.price, .relaxed⟩
          else none
      else none := by
  unfold match?
  cases o.side with
  | buy =>
    change buy? tolerance o book.ask.price =
      if 0.0 < book.ask.price ∧ book.ask.price.isFinite = true then _ else none
    unfold buy?
    by_cases there : 0.0 < book.ask.price ∧ book.ask.price.isFinite = true
    · rw [if_pos there, if_neg (by simp [there])]
      cases o.kind with
      | market => rfl
      | limit =>
        by_cases reached : book.ask.price ≤ o.price
        · simp only [Side.NoWorse, TopOfBook.touch, ge_iff_le, reached, if_true,
            smaller_of_le reached]
        · simp only [Side.NoWorse, TopOfBook.touch, ge_iff_le, reached, if_false]
          rfl
    · rw [if_neg there, if_pos (by simpa [imp_iff_not_or] using there)]
  | sell =>
    change sell? tolerance o book.bid.price = if ¬book.bid.price ≤ 0.0 then _ else none
    unfold sell?
    by_cases absent : book.bid.price ≤ 0.0
    · rw [if_pos absent, if_neg (not_not.2 absent)]
    · rw [if_neg absent, if_pos absent]
      cases o.kind with
      | market => rfl
      | limit =>
        by_cases reached : o.price ≤ book.bid.price
        · simp only [Side.NoWorse, TopOfBook.touch, reached, if_true, larger_of_le reached]
        · simp only [Side.NoWorse, TopOfBook.touch, reached, if_false]
          rfl

/-- A market order fills at any touch. -/
theorem match?_market (kind : o.kind = .market) :
    match? tolerance o book = some fill ↔
      o.side.Takes (book.touch o.side) ∧ fill = ⟨book.touch o.side, .market⟩ := by
  rw [match?_eq, kind]
  by_cases there : o.side.Takes (book.touch o.side)
  · simp [there, eq_comm]
  · simp [there]

/-- A limit order fills at the touch if it reaches it, else at its limit if that is within the
tolerance. -/
theorem match?_limit (kind : o.kind = .limit) :
    match? tolerance o book = some fill ↔
      o.side.Takes (book.touch o.side) ∧
        ((o.side.NoWorse (book.touch o.side) o.price ∧ fill = ⟨book.touch o.side, .crossed⟩) ∨
          (¬o.side.NoWorse (book.touch o.side) o.price ∧
            o.side.NoWorse (o.side.edge tolerance (book.touch o.side)) o.price ∧
            fill = ⟨o.price, .relaxed⟩)) := by
  rw [match?_eq, kind]
  by_cases there : o.side.Takes (book.touch o.side)
  · by_cases reached : o.side.NoWorse (book.touch o.side) o.price
    · simp [there, reached, eq_comm]
    · simp [there, reached, eq_comm]
  · simp [there]

end Fill

end MarketMaker
