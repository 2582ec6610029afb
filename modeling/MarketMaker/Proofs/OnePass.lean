import MarketMaker.Proofs.Streaks

/-!
# The figures in one pass

The metrics of a run are given figure by figure, each as what all trades come to. Here one loop over the
trades works them all out side by side (`Outcomes.ofTrades`): counts are words, streaks are short words,
and a win ends the streak of losses as a loss ends that of wins. What the loop knows after each trade is
`Outcomes.Tells`, and so the figures are the same (`Metrics.inOnePass_eq`) unless there are more trades
than the words of the streaks can count.
-/

namespace MarketMaker

open Double

/-! ## The loop -/

/-- What the trades so far have come to. -/
structure Outcomes where
  totalPnl : Float
  totalSlippage : Float
  volume : UInt64
  wins : UInt64
  losses : UInt64
  largestWin : Float
  largestLoss : Float
  /-- The wins in a row that end with the latest trade. -/
  winStreak : UInt32
  /-- The losses in a row that end with the latest trade. -/
  lossStreak : UInt32
  longestWins : UInt32
  longestLosses : UInt32

namespace Outcomes

/-- No trades yet. -/
def empty : Outcomes := ⟨0.0, 0.0, 0, 0, 0, 0.0, 0.0, 0, 0, 0, 0⟩

/-- Adds up what every trade has. -/
def addFill (s : Outcomes) (t : Trade) : Outcomes :=
  { s with
    totalPnl := s.totalPnl + t.pnl
    totalSlippage := s.totalSlippage + t.slippageCost
    volume := s.volume + t.quantity }

/-- Counts a win, which goes on with the streak of wins and ends that of losses. -/
def addWin (s : Outcomes) (pnl : Float) : Outcomes :=
  { s with
    wins := s.wins + 1
    largestWin := larger s.largestWin pnl
    winStreak := s.winStreak + 1
    lossStreak := 0
    longestWins := max s.longestWins (s.winStreak + 1) }

/-- Counts a loss, which goes on with the streak of losses and ends that of wins. -/
def addLoss (s : Outcomes) (pnl : Float) : Outcomes :=
  { s with
    losses := s.losses + 1
    largestLoss := smaller s.largestLoss pnl
    winStreak := 0
    lossStreak := s.lossStreak + 1
    longestLosses := max s.longestLosses (s.lossStreak + 1) }

/-- Ends both streaks. -/
def endStreaks (s : Outcomes) : Outcomes :=
  { s with winStreak := 0, lossStreak := 0 }

/-- Takes a trade. -/
def add (s : Outcomes) (t : Trade) : Outcomes :=
  if t.pnl > 0.0 then (s.addFill t).addWin t.pnl
  else if t.pnl < 0.0 then (s.addFill t).addLoss t.pnl
  else (s.addFill t).endStreaks

/-- What trades come to, from first to last. -/
def ofTrades (trades : List Trade) : Outcomes :=
  trades.foldl add empty

end Outcomes

/-- The metrics from one pass over the trades. -/
def Metrics.inOnePass (trades : List Trade) (history : List PnlPoint) (activity : Activity) : Metrics :=
  if trades.isEmpty then zero
  else
    let outcomes := Outcomes.ofTrades trades
    let count := UInt64.ofNat trades.length
    let n := count.toFloat
    { trades := count.toNat
      wins := outcomes.wins.toNat
      losses := outcomes.losses.toNat
      hitRate := outcomes.wins.toFloat / n
      totalPnl := outcomes.totalPnl
      realizedPnl := outcomes.totalPnl
      unrealizedPnl := activity.unrealized
      meanPnl := outcomes.totalPnl / n
      maxDrawdown := Performance.maxDrawdown history
      sharpe := Performance.sharpe (trades.map Trade.pnl)
      totalSlippage := outcomes.totalSlippage
      meanSlippage := outcomes.totalSlippage / n
      volume := outcomes.volume
      largestWin := outcomes.largestWin
      largestLoss := outcomes.largestLoss
      longestWins := outcomes.longestWins.toNat
      longestLosses := outcomes.longestLosses.toNat
      throughput := Latency.perSecond activity.orders activity.elapsed
      latencyMillis := activity.latencyMillis }

/-! ## Streaks in words -/

theorem Longest.unique {α : Type} {part : List α → List α → Prop} {P : α → Prop} {xs : List α}
    {m n : ℕ} (h : Longest part P xs m) (h' : Longest part P xs n) : m = n := by
  obtain ⟨block, isPart, all, rfl⟩ := h.attained
  obtain ⟨block', isPart', all', rfl⟩ := h'.attained
  exact Nat.le_antisymm (h'.most block isPart all) (h.most block' isPart' all')

namespace Performance

/-- Words for the block of neighbours that ends with the last profit and for the longest block. -/
structure Streak (test : Float → Bool) (pnls : List Float) (current best : UInt32) : Prop where
  current : Longest (· <:+ ·) (test · = true) pnls current.toNat
  best : Longest (· <:+: ·) (test · = true) pnls best.toNat

section Streaks

variable {test : Float → Bool} {pnls : List Float} {x : Float} {current best : UInt32}

theorem streak_nil : Streak test [] 0 0 := ⟨longest_end_nil, longest_nil⟩

theorem room_before (room : (pnls ++ [x]).length < UInt32.size) : pnls.length < UInt32.size := by
  rw [List.length_append, List.length_singleton] at room
  exact Nat.lt_of_succ_lt room

/-- A streak goes on in its word as long as this has room for all profits. -/
theorem Streak.goOn (h : Streak test pnls current best) (passes : test x = true)
    (room : (pnls ++ [x]).length < UInt32.size) :
    Streak test (pnls ++ [x]) (current + 1) (max best (current + 1)) := by
  obtain ⟨block, ends, -, length⟩ := h.current.attained
  have within : current.toNat ≤ pnls.length := by
    rw [← length]
    exact ends.length_le
  rw [List.length_append, List.length_singleton] at room
  have next : (current + 1).toNat = current.toNat + 1 := by
    rw [UInt32.toNat_add]
    exact Nat.mod_eq_of_lt (Nat.lt_of_le_of_lt (Nat.succ_le_succ within) room)
  have larger : (max best (current + 1)).toNat = max best.toNat (current.toNat + 1) := by
    rw [← next]
    change (if best ≤ current + 1 then current + 1 else best).toNat = _
    rw [Nat.max_def, apply_ite UInt32.toNat]
    simp only [UInt32.le_iff_toNat_le]
  have goesOn := h.current.end_concat passes
  exact ⟨by rwa [next], by rw [larger]; exact h.best.concat goesOn⟩

theorem Streak.stop (h : Streak test pnls current best) (fails : test x = false) :
    Streak test (pnls ++ [x]) 0 best := by
  have ended : Longest (· <:+ ·) (test · = true) (pnls ++ [x]) 0 :=
    longest_end_of_not (Bool.eq_false_iff.1 fails)
  have kept := h.best.concat ended
  rw [Nat.max_zero] at kept
  exact ⟨ended, kept⟩

theorem Streak.best_eq (h : Streak test pnls current best) : best.toNat = longest test pnls :=
  h.best.unique (longest_longest test pnls)

end Streaks

/-! ## Profits that are one more -/

variable {pnls : List Float} {x : Float}

theorem isLoss_of_isWin (won : isWin x = true) : isLoss x = false := by
  refine Bool.eq_false_iff.2 fun lost => ?_
  exact not_lt_of_le (le_of_less ((isWin_iff x).1 won)) ((isLoss_iff x).1 lost)

theorem largestWin_concat (pnls : List Float) (x : Float) : largestWin (pnls ++ [x]) =
    if isWin x then larger (largestWin pnls) x else largestWin pnls := by
  rw [largestWin, List.filter_append, List.foldl_append]
  cases won : isWin x <;> simp [won, largestWin]

theorem largestLoss_concat (pnls : List Float) (x : Float) : largestLoss (pnls ++ [x]) =
    if isLoss x then smaller (largestLoss pnls) x else largestLoss pnls := by
  rw [largestLoss, List.filter_append, List.foldl_append]
  cases lost : isLoss x <;> simp [lost, largestLoss]

theorem ofNat_countP_concat (test : Float → Bool) (pnls : List Float) (x : Float) :
    UInt64.ofNat ((pnls ++ [x]).countP test) =
      if test x then .ofNat (pnls.countP test) + 1 else .ofNat (pnls.countP test) := by
  rw [List.countP_append, List.countP_singleton]
  cases test x
  · rfl
  · exact UInt64.ofNat_add _ 1

end Performance

/-! ## What the loop knows -/

namespace Outcomes

open Performance

/-- What outcomes say of the profits of trades. The streaks are told as long as their words have room. -/
structure TellsPnls (s : Outcomes) (pnls : List Float) : Prop where
  wins : s.wins = .ofNat (pnls.countP isWin)
  losses : s.losses = .ofNat (pnls.countP isLoss)
  largestWin : s.largestWin = Performance.largestWin pnls
  largestLoss : s.largestLoss = Performance.largestLoss pnls
  winStreak : pnls.length < UInt32.size → Streak isWin pnls s.winStreak s.longestWins
  lossStreak : pnls.length < UInt32.size → Streak isLoss pnls s.lossStreak s.longestLosses

/-- What outcomes say of trades. -/
structure Tells (s : Outcomes) (trades : List Trade) : Prop where
  totalPnl : s.totalPnl = sum (trades.map Trade.pnl)
  totalSlippage : s.totalSlippage = sum (trades.map Trade.slippageCost)
  volume : s.volume = trades.foldl (fun v t => v + t.quantity) 0
  pnls : s.TellsPnls (trades.map Trade.pnl)

section Steps

variable {s : Outcomes} {pnls : List Float} {x : Float}

theorem TellsPnls.addWin (h : s.TellsPnls pnls) (won : isWin x = true) :
    (s.addWin x).TellsPnls (pnls ++ [x]) := by
  have notLost := isLoss_of_isWin won
  constructor
  case wins => rw [ofNat_countP_concat, if_pos won, ← h.wins]; rfl
  case losses => rw [ofNat_countP_concat, notLost, ← h.losses]; rfl
  case largestWin => rw [largestWin_concat, if_pos won, ← h.largestWin]; rfl
  case largestLoss => rw [largestLoss_concat, notLost, ← h.largestLoss]; rfl
  case winStreak => exact fun room => (h.winStreak (room_before room)).goOn won room
  case lossStreak => exact fun room => (h.lossStreak (room_before room)).stop notLost

theorem TellsPnls.addLoss (h : s.TellsPnls pnls) (notWon : isWin x = false) (lost : isLoss x = true) :
    (s.addLoss x).TellsPnls (pnls ++ [x]) := by
  constructor
  case wins => rw [ofNat_countP_concat, notWon, ← h.wins]; rfl
  case losses => rw [ofNat_countP_concat, if_pos lost, ← h.losses]; rfl
  case largestWin => rw [largestWin_concat, notWon, ← h.largestWin]; rfl
  case largestLoss => rw [largestLoss_concat, if_pos lost, ← h.largestLoss]; rfl
  case winStreak => exact fun room => (h.winStreak (room_before room)).stop notWon
  case lossStreak => exact fun room => (h.lossStreak (room_before room)).goOn lost room

theorem TellsPnls.endStreaks (h : s.TellsPnls pnls) (notWon : isWin x = false)
    (notLost : isLoss x = false) : s.endStreaks.TellsPnls (pnls ++ [x]) := by
  constructor
  case wins => rw [ofNat_countP_concat, notWon, ← h.wins]; rfl
  case losses => rw [ofNat_countP_concat, notLost, ← h.losses]; rfl
  case largestWin => rw [largestWin_concat, notWon, ← h.largestWin]; rfl
  case largestLoss => rw [largestLoss_concat, notLost, ← h.largestLoss]; rfl
  case winStreak => exact fun room => (h.winStreak (room_before room)).stop notWon
  case lossStreak => exact fun room => (h.lossStreak (room_before room)).stop notLost

end Steps

variable {s : Outcomes} {trades : List Trade}

theorem tells_empty : empty.Tells [] where
  totalPnl := rfl
  totalSlippage := rfl
  volume := rfl
  pnls := ⟨rfl, rfl, rfl, rfl, fun _ => streak_nil, fun _ => streak_nil⟩

theorem Tells.add (h : s.Tells trades) (t : Trade) : (s.add t).Tells (trades ++ [t]) := by
  have fill : (s.addFill t).TellsPnls (trades.map Trade.pnl) := { h.pnls with }
  have pnls : (s.add t).TellsPnls (trades.map Trade.pnl ++ [t.pnl]) := by
    unfold Outcomes.add
    split
    next won => exact fill.addWin (decide_eq_true won)
    next notWon =>
      split
      next lost => exact fill.addLoss (decide_eq_false notWon) (decide_eq_true lost)
      next notLost => exact fill.endStreaks (decide_eq_false notWon) (decide_eq_false notLost)
  have sums : (s.add t).totalPnl = s.totalPnl + t.pnl ∧
      (s.add t).totalSlippage = s.totalSlippage + t.slippageCost ∧
      (s.add t).volume = s.volume + t.quantity := by
    unfold Outcomes.add
    split
    · exact ⟨rfl, rfl, rfl⟩
    · split <;> exact ⟨rfl, rfl, rfl⟩
  obtain ⟨total, slippage, volume⟩ := sums
  constructor
  case totalPnl => rw [total, h.totalPnl, List.map_append, List.map_singleton, sum_append_singleton]
  case totalSlippage =>
    rw [slippage, h.totalSlippage, List.map_append, List.map_singleton, sum_append_singleton]
  case volume => rw [volume, h.volume, List.foldl_append]; rfl
  case pnls => rwa [List.map_append]

theorem tells_ofTrades (trades : List Trade) : (ofTrades trades).Tells trades := by
  induction trades using List.reverseRecOn with
  | nil => exact tells_empty
  | append_singleton trades t ih =>
    rw [ofTrades, List.foldl_append]
    exact ih.add t

end Outcomes

/-! ## The same figures -/

/-- One pass works out the metrics, unless a streak could leave the range of its word. -/
theorem Metrics.inOnePass_eq {trades : List Trade} (few : trades.length < UInt32.size)
    (history : List PnlPoint) (activity : Activity) :
    Metrics.inOnePass trades history activity = Metrics.of trades history activity := by
  have tells := Outcomes.tells_ofTrades trades
  have short : (trades.map Trade.pnl).length < UInt32.size := by rwa [List.length_map]
  have inRange : trades.length < UInt64.size := Nat.lt_trans few (by decide)
  have counts : ∀ test, (UInt64.ofNat ((trades.map Trade.pnl).countP test)).toNat =
      (trades.map Trade.pnl).countP test := by
    intro test
    refine UInt64.toNat_ofNat_of_lt' (Nat.lt_of_le_of_lt List.countP_le_length ?_)
    rwa [List.length_map]
  have wins := (tells.pnls.winStreak short).best_eq
  have losses := (tells.pnls.lossStreak short).best_eq
  unfold Metrics.inOnePass Metrics.of
  split
  next => rfl
  next =>
    dsimp only
    rw [wins, losses, tells.pnls.wins, tells.pnls.losses, counts, counts, tells.totalPnl,
      tells.totalSlippage, tells.volume, tells.pnls.largestWin, tells.pnls.largestLoss,
      UInt64.toNat_ofNat_of_lt' inRange]
    rfl

end MarketMaker
