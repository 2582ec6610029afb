import MarketMaker.Proofs.Double.Monotone
import MarketMaker.Proofs.Figures

/-!
# Wins and losses

What the figures on wins and losses are of the trades: how many there are, the longest block of
neighbours that are all wins or all losses, and the largest of each (`Metrics.wins_and_losses`). A
block is counted while it goes on, so what the count knows is the longest block at the end of what it
has seen, beside the longest anywhere (`longest_longestFrom`). A trade that is neither won nor lost,
because its profit is zero or no number, ends a block of either kind.
-/

namespace MarketMaker

open Double

/-! ## Blocks of neighbours -/

/-- How long the longest part of some kind is whose elements all have a property. -/
structure Longest {α : Type} (part : List α → List α → Prop) (P : α → Prop) (xs : List α)
    (n : Nat) : Prop where
  attained : ∃ block, part block xs ∧ (∀ x ∈ block, P x) ∧ block.length = n
  most : ∀ block, part block xs → (∀ x ∈ block, P x) → block.length ≤ n

section Blocks

variable {α β : Type} {P : α → Prop} {xs : List α} {x : α} {n best : Nat}

theorem longest_end_nil : Longest (· <:+ ·) P [] 0 where
  attained := ⟨[], List.suffix_refl _, by simp, rfl⟩
  most := by
    intro block part _
    rw [List.suffix_nil.1 part, List.length_nil]

theorem longest_nil : Longest (· <:+: ·) P [] 0 where
  attained := ⟨[], List.infix_refl _, by simp, rfl⟩
  most := by
    intro block part _
    rw [List.infix_nil.1 part, List.length_nil]

/-- The block at the end goes on. -/
theorem Longest.end_concat (h : Longest (· <:+ ·) P xs n) (passes : P x) :
    Longest (· <:+ ·) P (xs ++ [x]) (n + 1) where
  attained := by
    obtain ⟨block, ends, all, length⟩ := h.attained
    refine ⟨block ++ [x], List.suffix_concat_iff.2 (.inr ⟨block, rfl, ends⟩), ?_, by simp [length]⟩
    exact List.forall_mem_append.2 ⟨all, List.forall_mem_singleton.2 passes⟩
  most := by
    intro block ends all
    rcases List.suffix_concat_iff.1 ends with rfl | ⟨before, rfl, ends'⟩
    · exact Nat.zero_le _
    · rw [List.length_append, List.length_singleton]
      exact Nat.succ_le_succ (h.most before ends' (List.forall_mem_append.1 all).1)

/-- What does not pass ends every block. -/
theorem longest_end_of_not (fails : ¬P x) : Longest (· <:+ ·) P (xs ++ [x]) 0 where
  attained := ⟨[], List.nil_suffix, by simp, rfl⟩
  most := by
    intro block ends all
    rcases List.suffix_concat_iff.1 ends with rfl | ⟨before, rfl, _⟩
    · exact Nat.le_refl _
    · exact absurd (all x (by simp)) fails

/-- A block of more elements is one of those before or one at the end. -/
theorem Longest.concat (h : Longest (· <:+: ·) P xs best)
    (ending : Longest (· <:+ ·) P (xs ++ [x]) n) :
    Longest (· <:+: ·) P (xs ++ [x]) (max best n) where
  attained := by
    rcases Nat.le_total best n with shorter | longer
    · obtain ⟨block, ends, all, length⟩ := ending.attained
      exact ⟨block, ends.isInfix, all, by rw [length, Nat.max_eq_right shorter]⟩
    · obtain ⟨block, part, all, length⟩ := h.attained
      have within : block <:+: xs ++ [x] := List.infix_concat_iff.2 (.inr part)
      exact ⟨block, within, all, by rw [length, Nat.max_eq_left longer]⟩
  most := by
    intro block part all
    rcases List.infix_concat_iff.1 part with ends | before
    · exact Nat.le_trans (ending.most block ends all) (Nat.le_max_right _ _)
    · exact Nat.le_trans (h.most block before all) (Nat.le_max_left _ _)

theorem Longest.of_map {f : β → α} {ys : List β} (h : Longest (· <:+: ·) P (ys.map f) n) :
    Longest (· <:+: ·) (fun y => P (f y)) ys n where
  attained := by
    obtain ⟨_, part, all, length⟩ := h.attained
    obtain ⟨block, within, rfl⟩ := List.infix_map_iff.1 part
    exact ⟨block, within, List.forall_mem_map.1 all, by rw [← length, List.length_map]⟩
  most := by
    intro block part all
    have mapped := h.most (block.map f) (part.map f) (List.forall_mem_map.2 all)
    rwa [List.length_map] at mapped

/-- A block has no more elements than pass altogether. -/
theorem Longest.le_countP [DecidablePred P] (h : Longest (· <:+: ·) P xs n) :
    n ≤ xs.countP fun x => P x := by
  obtain ⟨block, part, all, rfl⟩ := h.attained
  have counted : block.countP (fun x => P x) = block.length :=
    List.countP_eq_length.2 fun x member => decide_eq_true (all x member)
  rw [← counted]
  exact part.sublist.countP_le

end Blocks

namespace Performance

/-- Of the block that goes on and the longest so far, the count makes the longest of all. -/
theorem longest_longestFrom {test : Float → Bool} {xs ys : List Float} {current best : Nat}
    (ending : Longest (· <:+ ·) (test · = true) xs current)
    (h : Longest (· <:+: ·) (test · = true) xs best) :
    Longest (· <:+: ·) (test · = true) (xs ++ ys) (longestFrom test current best ys) := by
  induction ys generalizing xs current best with
  | nil => rwa [List.append_nil]
  | cons y ys ih =>
    rw [List.append_cons, longestFrom]
    by_cases passes : test y = true
    · rw [if_pos passes]
      have goesOn := ending.end_concat passes
      exact ih goesOn (h.concat goesOn)
    · rw [if_neg passes]
      have ended : Longest (· <:+ ·) (test · = true) (xs ++ [y]) 0 := longest_end_of_not passes
      have kept := h.concat ended
      rw [Nat.max_zero] at kept
      exact ih ended kept

theorem longest_longest (test : Float → Bool) (xs : List Float) :
    Longest (· <:+: ·) (test · = true) xs (longest test xs) :=
  longest_longestFrom longest_end_nil longest_nil

end Performance

/-! ## The largest of a kind -/

/-- The first by some order among the numbers that have a property, zero if none has it. -/
structure IsFirst (R : Float → Float → Prop) (P : Float → Prop) (xs : List Float) (x : Float) :
    Prop where
  none : (∀ y ∈ xs, ¬P y) → x = 0.0
  some : (∃ y ∈ xs, P y) → x ∈ xs ∧ P x
  first : ∀ y ∈ xs, P y → R y x

theorem isFirst_foldl {R : Float → Float → Prop} {pick : Float → Float → Float} (p : Picks R pick)
    {test : Float → Bool} (number : ∀ x, test x = true → x.isNaN = false)
    (beyond : ∀ x, test x = true → ¬R x 0.0) (xs : List Float) :
    IsFirst R (test · = true) xs ((xs.filter test).foldl pick 0.0) := by
  have numbers : ∀ y ∈ xs.filter test, y.isNaN = false := fun y member =>
    number y (List.mem_filter.1 member).2
  obtain ⟨member, best⟩ := p.foldl (x := 0.0) (by decide +kernel) numbers
  constructor
  case none =>
    intro none
    have empty : xs.filter test = [] := List.filter_eq_nil_iff.2 none
    rw [empty]
    rfl
  case some =>
    rintro ⟨y, there, passes⟩
    rcases List.mem_cons.1 member with zero | picked
    · have below := best y (List.mem_cons_of_mem _ (List.mem_filter.2 ⟨there, passes⟩))
      rw [zero] at below
      exact absurd below (beyond y passes)
    · exact List.mem_filter.1 picked
  case first =>
    intro y there passes
    exact best y (List.mem_cons_of_mem _ (List.mem_filter.2 ⟨there, passes⟩))

namespace Performance

theorem isWin_iff (x : Float) : isWin x = true ↔ 0.0 < x := decide_eq_true_iff

theorem isLoss_iff (x : Float) : isLoss x = true ↔ x < 0.0 := decide_eq_true_iff

theorem isFirst_largestWin (pnls : List Float) :
    IsFirst (· ≤ ·) (0.0 < ·) pnls (largestWin pnls) := by
  have number : ∀ x, isWin x = true → x.isNaN = false := by
    intro x won
    exact (numbers_of_lt ((isWin_iff x).1 won)).2
  have beyond : ∀ x, isWin x = true → ¬x ≤ 0.0 := by
    intro x won below
    exact not_lt_of_le below ((isWin_iff x).1 won)
  have found : IsFirst (· ≤ ·) (isWin · = true) pnls (largestWin pnls) :=
    isFirst_foldl picks_larger number beyond pnls
  simpa only [isWin_iff] using found

theorem isFirst_largestLoss (pnls : List Float) :
    IsFirst (· ≥ ·) (· < 0.0) pnls (largestLoss pnls) := by
  have number : ∀ x, isLoss x = true → x.isNaN = false := by
    intro x lost
    exact (numbers_of_lt ((isLoss_iff x).1 lost)).1
  have beyond : ∀ x, isLoss x = true → ¬x ≥ 0.0 := by
    intro x lost above
    exact not_lt_of_le above ((isLoss_iff x).1 lost)
  have found : IsFirst (· ≥ ·) (isLoss · = true) pnls (largestLoss pnls) :=
    isFirst_foldl picks_smaller number beyond pnls
  simpa only [isLoss_iff] using found

/-- No profit is both won and lost. -/
theorem countP_isWin_add_countP_isLoss (pnls : List Float) :
    pnls.countP isWin + pnls.countP isLoss ≤ pnls.length := by
  have others : pnls.countP isLoss ≤ pnls.countP fun x => ¬isWin x = true := by
    refine List.countP_mono_left fun x _ lost => decide_eq_true fun won => ?_
    exact not_lt_of_le (le_of_less ((isWin_iff x).1 won)) ((isLoss_iff x).1 lost)
  rw [List.length_eq_countP_add_countP (p := isWin)]
  omega

end Performance

/-! ## The figures -/

namespace Metrics

/-- What the figures on wins and losses are of the trades. -/
structure TellsWins (m : Metrics) (trades : List Trade) : Prop where
  count : m.trades = trades.length
  wins : m.wins = trades.countP fun t => 0.0 < t.pnl
  losses : m.losses = trades.countP fun t => t.pnl < 0.0
  atMost : m.wins + m.losses ≤ m.trades
  longestWins : Longest (· <:+: ·) (fun t => 0.0 < t.pnl) trades m.longestWins
  longestLosses : Longest (· <:+: ·) (fun t => t.pnl < 0.0) trades m.longestLosses
  winsInRow : m.longestWins ≤ m.wins
  lossesInRow : m.longestLosses ≤ m.losses
  largestWin : IsFirst (· ≤ ·) (0.0 < ·) (trades.map Trade.pnl) m.largestWin
  largestLoss : IsFirst (· ≥ ·) (· < 0.0) (trades.map Trade.pnl) m.largestLoss
  volume : (trades.map fun t => t.quantity.toNat).sum < UInt64.size →
    m.volume.toNat = (trades.map fun t => t.quantity.toNat).sum
  totalPnl : m.totalPnl = (trades.map Trade.pnl).foldl (· + ·) 0.0
  totalSlippage : m.totalSlippage = (trades.map Trade.slippageCost).foldl (· + ·) 0.0

/-- **The figures on wins and losses are what they are called.** Whatever the prices, also where
one is no number, wins and losses are counted by the sign of the profit, the longest streaks are the
longest blocks of neighbours that are all won or all lost, the largest win and the largest loss are
those furthest from zero, or zero without any, the volume is the sum of the quantities as long as that
is in range, and the totals are sums from first to last. -/
theorem wins_and_losses {trades : List Trade} (traded : trades ≠ []) (history : List PnlPoint)
    (activity : Activity) : (Metrics.of trades history activity).TellsWins trades := by
  have nonempty : trades.isEmpty = false := by simpa using traded
  have inRange := @toNat_volume trades 0
  rw [UInt64.toNat_zero, Nat.zero_add] at inRange
  have winning := Performance.longest_longest Performance.isWin (trades.map Trade.pnl)
  have losing := Performance.longest_longest Performance.isLoss (trades.map Trade.pnl)
  have outcomes := Performance.countP_isWin_add_countP_isLoss (trades.map Trade.pnl)
  rw [List.length_map] at outcomes
  simp only [Performance.isWin_iff] at winning
  simp only [Performance.isLoss_iff] at losing
  unfold Metrics.of
  rw [nonempty]
  exact {
    count := rfl
    wins := List.countP_map
    losses := List.countP_map
    atMost := outcomes
    longestWins := winning.of_map
    longestLosses := losing.of_map
    winsInRow := winning.le_countP
    lossesInRow := losing.le_countP
    largestWin := Performance.isFirst_largestWin _
    largestLoss := Performance.isFirst_largestLoss _
    volume := inRange
    totalPnl := rfl
    totalSlippage := rfl }

end Metrics

namespace Sample

/-- A trade at a price. -/
def trade (side : Side) (quantity : UInt64) (price : Float) : Trade :=
  ⟨1, "A", side, quantity, price, 1, 0.0⟩

/-- Two sales, a purchase, a sale, a sale at no number and another one. -/
def streaky : List Trade :=
  [trade .sell 10 1.0, trade .sell 10 2.0, trade .buy 5 3.0, trade .sell 1 4.0,
    trade .sell 10 (0.0 / 0.0), trade .sell 1 1.0]

end Sample

namespace Metrics

/-- The first two sales are the longest streak: the sale at no number ends one, uncounted. -/
theorem wins_and_losses_sample :
    Sample.streaky ≠ [] ∧ ∃ m, Metrics.of Sample.streaky [] .none = m ∧ m.TellsWins Sample.streaky ∧
      m.wins = 4 ∧ m.losses = 1 ∧ m.longestWins = 2 ∧ m.longestLosses = 1 ∧ m.largestWin = 20.0 ∧
      m.largestLoss = -15.0 ∧ m.volume = 37 := by
  have traded : Sample.streaky ≠ [] := by simp [Sample.streaky]
  exact ⟨traded, _, rfl, wins_and_losses traded [] .none, by decide +kernel⟩

end Metrics

end MarketMaker
