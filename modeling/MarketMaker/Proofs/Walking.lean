import MarketMaker.Feed.RandomWalk
import MarketMaker.Random.Draw
import MarketMaker.Proofs.Double.Monotone
import Mathlib.Data.List.Range
import Mathlib.Logic.Function.Iterate

/-!
# The course of a random feed

After some ticks of a random feed it is known whose turn it is, and in which round: the ticks are
counted off symbol by symbol (`Walk.stands_after`). So there are as many as rounds and symbols make,
and none after them; each has its symbol, its time, sizes in range and a price that is not below the
floor. What is drawn is the same however many rounds there are, so a feed of fewer rounds is the
beginning of one of more (`WalkSettings.feed_in_turns`). All this holds whatever the source of random
numbers, of which nothing is used but that its sizes are in range.
-/

namespace MarketMaker

namespace Feed

namespace Walk

variable {γ : Type} [Random.Generator γ] {w : Walk γ} {s : WalkSettings} {t : Tick} {k : ℕ}

/-! ## One tick -/

/-- The price of the symbol whose turn it is, once it has taken its next step. -/
def nextPrice (w : Walk γ) : Float :=
  stepped w.settings (w.prices.getD w.turn 0.0) (Random.Generator.normal w.source).1

/-- The size of the next bid, and the source behind it. -/
def bidDraw (w : Walk γ) : Random.Size × γ :=
  Random.Generator.size (Random.Generator.normal w.source).2

/-- The size of the next ask, and the source behind it. -/
def askDraw (w : Walk γ) : Random.Size × γ :=
  Random.Generator.size w.bidDraw.2

/-- The quote around the next price. -/
def quote (w : Walk γ) : Tick where
  symbol := w.settings.symbols.getD w.turn ""
  bid := w.nextPrice - w.nextPrice * w.settings.spread / 2.0
  ask := w.nextPrice + w.nextPrice * w.settings.spread / 2.0
  bidSize := w.bidDraw.1.1
  askSize := w.askDraw.1.1
  timestamp := timeOf w.settings w.round

/-- The feed with the next price in place, before the turn is passed on. -/
def quoted (w : Walk γ) : Walk γ :=
  { w with source := w.askDraw.2, prices := w.prices.setIfInBounds w.turn w.nextPrice }

/-- A price never falls below a floor that is a number. -/
theorem floor_le_nextPrice (w : Walk γ) (number : w.settings.floor.isNaN = false) :
    w.settings.floor ≤ w.nextPrice :=
  Double.le_larger _ number

/-- What a feed does for a tick. -/
theorem next?_of_lt (more : w.round < w.settings.rounds.toNat) :
    w.next? = some (w.quote, w.quoted.passTurn) := by
  unfold next?
  rw [if_pos more]
  split
  next normal source drawn =>
  split
  next bidSize source' first =>
  split
  next askSize source'' second =>
  have price : w.nextPrice = stepped w.settings (w.prices.getD w.turn 0.0) normal := by
    rw [nextPrice, drawn]
  have bid : w.bidDraw = (bidSize, source') := by rw [bidDraw, drawn, first]
  have ask : w.askDraw = (askSize, source'') := by rw [askDraw, bid, second]
  unfold quote quoted
  rw [price, bid, ask]

theorem next?_of_le (done : w.settings.rounds.toNat ≤ w.round) : w.next? = none :=
  if_neg (Nat.not_lt.2 done)

/-- There is a next tick until all rounds are over. -/
theorem next?_eq_none_iff : w.next? = none ↔ w.settings.rounds.toNat ≤ w.round := by
  rcases Nat.lt_or_ge w.round w.settings.rounds.toNat with more | done
  · exact iff_of_false (by rw [next?_of_lt more]; exact Option.some_ne_none _) (Nat.not_le.2 more)
  · exact iff_of_true (next?_of_le done) done

omit [Random.Generator γ] in
theorem prices_passTurn (w : Walk γ) : w.passTurn.prices = w.prices := by
  unfold passTurn
  split
  · rfl
  · rfl

/-! ## One tick after the other -/

/-- The feed after its next tick; one that is at its end stays as it is. -/
def onward (w : Walk γ) : Walk γ :=
  (w.next?.map Prod.snd).getD w

/-- The feed after it was asked for some ticks. -/
def after (w : Walk γ) (k : ℕ) : Walk γ :=
  onward^[k] w

/-- What a feed answers that was asked for some ticks before. -/
def answer? (w : Walk γ) (k : ℕ) : Option Tick :=
  (w.after k).next?.map Prod.fst

theorem onward_of_lt (more : w.round < w.settings.rounds.toNat) : w.onward = w.quoted.passTurn := by
  rw [onward, next?_of_lt more]
  rfl

theorem onward_of_le (done : w.settings.rounds.toNat ≤ w.round) : w.onward = w := by
  rw [onward, next?_of_le done]
  rfl

theorem after_succ (w : Walk γ) (k : ℕ) : w.after (k + 1) = (w.after k).onward :=
  Function.iterate_succ_apply' onward k w

theorem answer?_succ (w : Walk γ) (k : ℕ) : w.answer? (k + 1) = w.onward.answer? k := by
  rw [answer?, after, Function.iterate_succ_apply]
  rfl

/-- A feed at its end answers no more. -/
theorem answer?_of_le (done : w.settings.rounds.toNat ≤ w.round) (k : ℕ) : w.answer? k = none := by
  rw [answer?, after, Function.iterate_fixed (onward_of_le done), next?_of_le done]
  rfl

/-! ## Where a feed stands -/

/-- Where the feed of some settings stands after some ticks: rounds and turns count them off. -/
structure Stands (s : WalkSettings) (k : ℕ) (w : Walk γ) : Prop where
  settings : w.settings = s
  round : w.round = k / s.symbols.length
  turn : w.turn = k % s.symbols.length
  prices : w.prices.size = s.symbols.length

theorem stands_start (s : WalkSettings) : Stands s 0 (start γ s) :=
  ⟨rfl, (Nat.zero_div _).symm, (Nat.zero_mod _).symm, by simp [start]⟩

theorem Stands.quoted (h : Stands s k w) : Stands s k w.quoted := by
  unfold Walk.quoted
  exact ⟨h.settings, h.round, h.turn, Array.size_setIfInBounds.trans h.prices⟩

omit [Random.Generator γ] in
/-- The turn is passed on by one, and after the last symbol with the round. -/
theorem Stands.passTurn (h : Stands s k w) (some : 0 < s.symbols.length) :
    Stands s (k + 1) w.passTurn := by
  have split := Nat.mod_add_div k s.symbols.length
  have inside := Nat.mod_lt k some
  unfold Walk.passTurn
  rw [h.settings, h.turn]
  split
  next last =>
    obtain ⟨round, turn⟩ := (Nat.div_mod_unique (a := k + 1) (d := k / s.symbols.length + 1)
      (c := 0) some).2 ⟨by rw [Nat.mul_add]; omega, some⟩
    exact ⟨rfl, by rw [round, h.round], turn.symm, h.prices⟩
  next others =>
    obtain ⟨round, turn⟩ := (Nat.div_mod_unique (a := k + 1) (d := k / s.symbols.length)
      (c := k % s.symbols.length + 1) some).2 ⟨by omega, by omega⟩
    exact ⟨rfl, by rw [round, h.round], turn.symm, h.prices⟩

omit [Random.Generator γ] in
/-- Rounds are over once each symbol has had its ticks. -/
theorem Stands.rounds_le_iff (h : Stands s k w) (some : 0 < s.symbols.length) :
    w.settings.rounds.toNat ≤ w.round ↔ s.rounds.toNat * s.symbols.length ≤ k := by
  rw [h.settings, h.round, Nat.le_div_iff_mul_le some]

omit [Random.Generator γ] in
theorem Stands.lt_rounds (h : Stands s k w) (some : 0 < s.symbols.length)
    (more : k < s.rounds.toNat * s.symbols.length) : w.round < w.settings.rounds.toNat :=
  Nat.not_le.1 fun done => Nat.not_le.2 more ((h.rounds_le_iff some).1 done)

variable (γ) in
/-- **Ticks are counted off symbol by symbol**, until all rounds are over. -/
theorem stands_after (some : 0 < s.symbols.length) {k : ℕ}
    (within : k ≤ s.rounds.toNat * s.symbols.length) : Stands s k ((start γ s).after k) := by
  induction k with
  | zero => exact stands_start s
  | succ k ih =>
    have stands := ih (Nat.le_of_succ_le within)
    rw [after_succ, onward_of_lt (stands.lt_rounds some within)]
    exact stands.quoted.passTurn some

/-- There is an answer to as many requests as there are ticks, and none to later ones. -/
theorem answer?_eq_none_iff (some : 0 < s.symbols.length) :
    (start γ s).answer? k = none ↔ s.rounds.toNat * s.symbols.length ≤ k := by
  rcases Nat.lt_or_ge k (s.rounds.toNat * s.symbols.length) with more | done
  · have stands := stands_after γ some more.le
    rw [answer?, Option.map_eq_none_iff, next?_eq_none_iff, stands.rounds_le_iff some]
  · have stands := stands_after γ some (Nat.le_refl (s.rounds.toNat * s.symbols.length))
    obtain ⟨j, rfl⟩ := Nat.exists_eq_add_of_le done
    refine iff_of_true ?_ done
    have none := answer?_of_le ((stands.rounds_le_iff some).2 le_rfl) j
    rw [answer?, after, Nat.add_comm, Function.iterate_add_apply]
    exact none

theorem answer?_of_lt (some : 0 < s.symbols.length)
    (more : k < s.rounds.toNat * s.symbols.length) :
    (start γ s).answer? k = Option.some ((start γ s).after k).quote ∧
      (start γ s).after (k + 1) = ((start γ s).after k).quoted.passTurn := by
  have lt := (stands_after γ some more.le).lt_rounds some more
  rw [answer?, next?_of_lt lt, after_succ, onward_of_lt lt]
  exact ⟨rfl, rfl⟩

theorem lt_of_answer? (some : 0 < s.symbols.length)
    (answered : (start γ s).answer? k = Option.some t) : k < s.rounds.toNat * s.symbols.length := by
  by_contra done
  rw [(answer?_eq_none_iff some).2 (Nat.not_lt.1 done)] at answered
  exact absurd answered (by simp)

/-- Each answer is of the symbol whose turn it is. -/
theorem symbol_of_answer? (some : 0 < s.symbols.length)
    (answered : (start γ s).answer? k = Option.some t) :
    s.symbols[k % s.symbols.length]? = Option.some t.symbol := by
  have more := lt_of_answer? some answered
  have stands := stands_after γ some more.le
  have inside : k % s.symbols.length < s.symbols.length := Nat.mod_lt k some
  obtain rfl := Option.some.inj ((answer?_of_lt some more).1.symm.trans answered)
  rw [quote, stands.settings, stands.turn, List.getD_eq_getElem?_getD,
    List.getElem?_eq_getElem inside]
  rfl

/-! ## The ticks as a list -/

theorem take_zero (w : Walk γ) : w.take 0 = [] := rfl

theorem toList_collect (found : Array Tick) (n : ℕ) (w : Walk γ) :
    (collect found n w).toList = found.toList ++ w.take n := by
  induction n generalizing found w with
  | zero => simp [collect, take_zero]
  | succ n ih =>
    unfold take
    rw [collect, collect]
    cases w.next? with
    | none => simp
    | some made => simp [ih]

theorem take_succ_of_lt (more : w.round < w.settings.rounds.toNat) (n : ℕ) :
    w.take (n + 1) = w.quote :: w.onward.take n := by
  rw [take, collect, next?_of_lt more, onward_of_lt more]
  exact toList_collect _ n _

theorem take_of_le (done : w.settings.rounds.toNat ≤ w.round) (n : ℕ) : w.take n = [] := by
  cases n with
  | zero => rfl
  | succ n =>
    rw [take, collect, next?_of_le done]

/-- What is taken of a feed are its answers. -/
theorem getElem?_take (w : Walk γ) (n k : ℕ) :
    (w.take n)[k]? = if k < n then w.answer? k else none := by
  induction n generalizing w k with
  | zero => rfl
  | succ n ih =>
    rcases Nat.lt_or_ge w.round w.settings.rounds.toNat with more | done
    · rw [take_succ_of_lt more]
      cases k with
      | zero =>
        rw [List.getElem?_cons_zero, if_pos (Nat.succ_pos n), answer?, after, Function.iterate_zero,
          id, next?_of_lt more]
        rfl
      | succ k =>
        rw [List.getElem?_cons_succ, ih, answer?_succ]
        simp only [Nat.add_lt_add_iff_right]
    · rw [take_of_le done, answer?_of_le done]
      simp

/-- All ticks of a feed are its answers, in their order. -/
theorem getElem?_take_all (some : 0 < s.symbols.length) (k : ℕ) :
    ((start γ s).take (s.rounds.toNat * s.symbols.length))[k]? = (start γ s).answer? k := by
  rw [getElem?_take]
  split
  next => rfl
  next done => exact ((answer?_eq_none_iff some).2 (Nat.not_lt.1 done)).symm

/-! ## Times -/

/-- The time of a round is the exact one, if that is a word. -/
theorem toInt_timeOf {s : WalkSettings} {round : ℕ}
    (low : Int64.minValue.toInt ≤ s.start.toInt + round * s.step.toInt)
    (high : s.start.toInt + round * s.step.toInt ≤ Int64.maxValue.toInt) :
    (timeOf s round).toInt = s.start.toInt + round * s.step.toInt := by
  have number : round.toUInt64.toInt64.toInt = (round : ℤ).bmod (2 ^ 64) := by
    rw [Nat.toUInt64_eq, UInt64.toInt64_ofNat', Int64.toInt_ofNat']
    rfl
  have most := Int64.toInt_maxValue
  rw [timeOf, Int64.toInt_add, Int64.toInt_mul, number, Int.bmod_mul_bmod, Int.add_bmod_bmod]
  apply Int.bmod_eq_of_le
  · exact low
  · omega

/-! ## Fewer rounds -/

/-- The feed with another number of rounds. -/
def withRounds (w : Walk γ) (rounds : UInt64) : Walk γ :=
  { w with settings := { w.settings with rounds } }

theorem quote_withRounds (w : Walk γ) (rounds : UInt64) : (w.withRounds rounds).quote = w.quote :=
  rfl

theorem nextPrice_withRounds (w : Walk γ) (rounds : UInt64) :
    (w.withRounds rounds).nextPrice = w.nextPrice :=
  rfl

theorem askDraw_withRounds (w : Walk γ) (rounds : UInt64) :
    (w.withRounds rounds).askDraw = w.askDraw :=
  rfl

theorem quoted_withRounds (w : Walk γ) (rounds : UInt64) :
    (w.withRounds rounds).quoted = w.quoted.withRounds rounds := by
  rw [quoted, askDraw_withRounds, nextPrice_withRounds]
  unfold quoted withRounds
  rfl

omit [Random.Generator γ] in
theorem passTurn_withRounds (w : Walk γ) (rounds : UInt64) :
    (w.withRounds rounds).passTurn = w.passTurn.withRounds rounds := by
  unfold passTurn withRounds
  dsimp only
  split
  · rfl
  · rfl

/-- As long as there are ticks, they do not hang on how many rounds there will be. -/
theorem after_withRounds {rounds : UInt64} (some : 0 < s.symbols.length) (fewer : s.rounds ≤ rounds)
    {k : ℕ} (within : k ≤ s.rounds.toNat * s.symbols.length) :
    (start γ { s with rounds }).after k = ((start γ s).after k).withRounds rounds := by
  induction k with
  | zero => rfl
  | succ k ih =>
    have kept := ih (Nat.le_of_succ_le within)
    have longer : s.rounds.toNat * s.symbols.length ≤ rounds.toNat * s.symbols.length :=
      Nat.mul_le_mul_right _ (UInt64.le_iff_toNat_le.1 fewer)
    rw [(answer?_of_lt (s := { s with rounds }) some (within.trans longer)).2,
      (answer?_of_lt some within).2, kept, quoted_withRounds, passTurn_withRounds]

theorem answer?_withRounds {rounds : UInt64} (some : 0 < s.symbols.length) (fewer : s.rounds ≤ rounds)
    (h : (start γ s).answer? k = Option.some t) :
    (start γ { s with rounds }).answer? k = Option.some t := by
  have more := lt_of_answer? some h
  have longer : s.rounds.toNat * s.symbols.length ≤ rounds.toNat * s.symbols.length :=
    Nat.mul_le_mul_right _ (UInt64.le_iff_toNat_le.1 fewer)
  rw [(answer?_of_lt (s := { s with rounds }) some (more.trans_le longer)).1,
    after_withRounds some fewer more.le, quote_withRounds, ← h, (answer?_of_lt some more).1]

/-- **A feed of fewer rounds is the beginning of one of more.** -/
theorem take_withRounds {rounds : UInt64} (some : 0 < s.symbols.length) (fewer : s.rounds ≤ rounds) :
    (start γ s).take (s.rounds.toNat * s.symbols.length) <+:
      (start γ { s with rounds }).take (rounds.toNat * s.symbols.length) := by
  refine List.prefix_iff_getElem?.2 fun i inside => ?_
  rw [getElem?_take_all (s := { s with rounds }) some]
  apply answer?_withRounds some fewer
  rw [← getElem?_take_all some, List.getElem?_eq_getElem inside]

/-! ## What is promised of a tick -/

/-- The tick that a feed answers after some others: its symbol and its time by the count of them, sizes
in range, and a quote around the symbol's own price, which is not below the floor. The prices of other
symbols stay. -/
structure InTurn (s : WalkSettings) (w : Walk γ) (k : ℕ) (t : Tick) : Prop where
  symbol : s.symbols[k % s.symbols.length]? = some t.symbol
  timestamp : t.timestamp.toInt = s.start.toInt + (k / s.symbols.length : ℕ) * s.step.toInt
  bidSize : Random.IsSize t.bidSize
  askSize : Random.IsSize t.askSize
  price : ∃ price, (w.after (k + 1)).prices[k % s.symbols.length]? = some price ∧
    t.bid = price - price * s.spread / 2.0 ∧ t.ask = price + price * s.spread / 2.0 ∧
    (s.floor.isNaN = false → s.floor ≤ price)
  others : ∀ j ≠ k % s.symbols.length, (w.after (k + 1)).prices[j]? = (w.after k).prices[j]?

end Walk

open Walk

namespace WalkSettings

variable {γ : Type} [Random.Generator γ] {s : WalkSettings} {w : Walk γ}

theorem walk_eq_ok_iff : s.walk = .ok w ↔ s.check = .ok () ∧ w = .start γ s := by
  unfold walk
  cases s.check with
  | error fault => simp [Except.map]
  | ok u => simp [Except.map, eq_comm]

theorem symbols_pos_of_check (h : s.check = .ok ()) : 0 < s.symbols.length := by
  rw [List.length_pos_iff]
  intro none
  rw [check, none] at h
  exact absurd h (by simp)

theorem ticks_eq_ok_iff {ticks : List Tick} : s.ticks γ = .ok ticks ↔
    s.check = .ok () ∧ ticks = (Walk.start γ s).take (s.rounds.toNat * s.symbols.length) := by
  unfold WalkSettings.ticks walk
  cases s.check with
  | error fault => simp [Except.map]
  | ok u => simp [Except.map, eq_comm]

/-- The ticks of a feed are of its symbols. -/
theorem symbol_of_mem_ticks {ticks : List Tick} (h : s.ticks γ = .ok ticks) :
    ∀ t ∈ ticks, t.symbol ∈ s.symbols := by
  obtain ⟨valid, rfl⟩ := ticks_eq_ok_iff.1 h
  have some := symbols_pos_of_check valid
  intro t member
  obtain ⟨k, found⟩ := List.mem_iff_getElem?.1 member
  rw [getElem?_take_all some] at found
  exact List.mem_of_getElem? (symbol_of_answer? some found)

/-- No count and no time of a feed is out of the range of its words. -/
structure InRange (s : WalkSettings) : Prop where
  count : s.rounds.toNat * s.symbols.length < UInt64.size
  times : ∀ round < s.rounds.toNat,
    Int64.minValue.toInt ≤ s.start.toInt + round * s.step.toInt ∧
      s.start.toInt + round * s.step.toInt ≤ Int64.maxValue.toInt

theorem InRange.toNat_total (h : s.InRange) :
    s.total.toNat = s.rounds.toNat * s.symbols.length := by
  rw [total, UInt64.toNat_mul, Nat.toUInt64_eq, UInt64.toNat_ofNat', Nat.mul_mod_mod]
  exact Nat.mod_eq_of_lt h.count

/-- A feed that was started keeps its promise for every tick. -/
theorem InRange.inTurn (h : s.InRange) (some : 0 < s.symbols.length) {k : ℕ} {t : Tick}
    (answered : (Walk.start γ s).answer? k = Option.some t) : InTurn s (Walk.start γ s) k t := by
  have symbol := symbol_of_answer? some answered
  have more := lt_of_answer? some answered
  obtain ⟨quote, next⟩ := answer?_of_lt (γ := γ) some more
  obtain rfl := Option.some.inj (quote.symm.trans answered)
  have stands := stands_after γ some more.le
  have inside : k % s.symbols.length < s.symbols.length := Nat.mod_lt k some
  have prices : ((Walk.start γ s).after (k + 1)).prices =
      ((Walk.start γ s).after k).prices.setIfInBounds (k % s.symbols.length)
        ((Walk.start γ s).after k).nextPrice := by
    rw [next, prices_passTurn, ← stands.turn]
    rfl
  obtain ⟨low, high⟩ := h.times (k / s.symbols.length) ((Nat.div_lt_iff_lt_mul some).2 more)
  refine ⟨symbol, ?timestamp, (Walk.bidDraw _).1.2, (Walk.askDraw _).1.2, ?price, ?others⟩
  case timestamp =>
    rw [Walk.quote, stands.settings, stands.round]
    exact toInt_timeOf low high
  case price =>
    refine ⟨((Walk.start γ s).after k).nextPrice, ?_, ?_, ?_, ?_⟩
    · rw [prices]
      exact Array.getElem?_setIfInBounds_self_of_lt (by rw [stands.prices]; exact inside)
    · rw [Walk.quote, stands.settings]
    · rw [Walk.quote, stands.settings]
    · intro number
      have floor := floor_le_nextPrice ((Walk.start γ s).after k)
      rw [stands.settings] at floor
      exact floor number
  case others =>
    intro j other
    rw [prices]
    exact Array.getElem?_setIfInBounds_ne other.symm

/-- The time does not go back from tick to tick, if it does not from round to round. -/
theorem InRange.pairwise (h : s.InRange) (some : 0 < s.symbols.length) (forth : 0 ≤ s.step)
    {ticks : List Tick} (answers : ∀ k, ticks[k]? = (Walk.start γ s).answer? k) :
    ticks.Pairwise fun t u => t.timestamp ≤ u.timestamp := by
  have time {k : ℕ} (inside : k < ticks.length) :
      ticks[k].timestamp.toInt = s.start.toInt + (k / s.symbols.length : ℕ) * s.step.toInt := by
    refine (h.inTurn (γ := γ) some ?_).timestamp
    rw [← answers, List.getElem?_eq_getElem inside]
  rw [List.pairwise_iff_getElem]
  intro i j hi hj before
  rw [Int64.le_iff_toInt_le, time hi, time hj]
  have rounds : i / s.symbols.length ≤ j / s.symbols.length := Nat.div_le_div_right before.le
  have step : 0 ≤ s.step.toInt := Int64.le_iff_toInt_le.1 forth
  exact Int.add_le_add_left (Int.mul_le_mul_of_nonneg_right (Int.ofNat_le.2 rounds) step) _

/-- **A random feed takes turns.** Whatever its source of random numbers, a feed that was started, with
every count and time in range, has as many ticks as its total says and none ever after; each is in its
turn. The feed of fewer rounds is the beginning of it. -/
theorem feed_in_turns {w : Walk γ} (started : s.walk = .ok w) (inRange : s.InRange) :
    s.total.toNat = s.rounds.toNat * s.symbols.length ∧
    (∀ k, w.answer? k = none ↔ s.total.toNat ≤ k) ∧
    (∀ k t, w.answer? k = some t → InTurn s w k t) ∧
    ∃ ticks, s.ticks γ = .ok ticks ∧ ticks.length = s.total.toNat ∧
      (∀ k, ticks[k]? = w.answer? k) ∧
      (0 ≤ s.step → ticks.Pairwise fun t u => t.timestamp ≤ u.timestamp) ∧
      ∀ rounds ≤ s.rounds, ∃ fewer, { s with rounds }.ticks γ = .ok fewer ∧ fewer <+: ticks := by
  obtain ⟨valid, rfl⟩ := walk_eq_ok_iff.1 started
  have some := symbols_pos_of_check valid
  have total := inRange.toNat_total
  have answers := getElem?_take_all (γ := γ) (s := s) some
  have fewer (rounds : UInt64) (le : rounds ≤ s.rounds) :
      ∃ fewer, { s with rounds }.ticks γ = .ok fewer ∧
        fewer <+: (Walk.start γ s).take (s.rounds.toNat * s.symbols.length) :=
    ⟨_, ticks_eq_ok_iff.2 ⟨valid, rfl⟩,
      take_withRounds (s := { s with rounds }) some le⟩
  refine ⟨total, fun k => ?_, fun k t => inRange.inTurn some, _, ticks_eq_ok_iff.2 ⟨valid, rfl⟩, ?_,
    answers, fun forth => inRange.pairwise some forth answers, fewer⟩
  · rw [total]
    exact answer?_eq_none_iff some
  · apply le_antisymm
    · rw [← List.getElem?_eq_none_iff, answers, answer?_eq_none_iff some, total]
    · rw [total, ← answer?_eq_none_iff (γ := γ) some, ← answers, List.getElem?_eq_none_iff]

/-- Two symbols in three rounds, a second apart. -/
def Sample.threeRounds : WalkSettings where
  symbols := ["A", "B"]
  rounds := 3
  start := -1000000000
  step := 1000000000

theorem feed_in_turns_sample :
    let s := Sample.threeRounds
    let w := Walk.start Random.KeyStream s
    s.walk = .ok w ∧ s.InRange ∧ s.total.toNat = 6 ∧ (∃ t, w.answer? 5 = some t) ∧
      w.answer? 6 = none ∧
      ∃ ticks, s.ticks Random.KeyStream = .ok ticks ∧ ticks.length = 6 ∧
        (∀ t, ticks[3]? = some t → t.symbol = "B" ∧ t.timestamp = 0 ∧ Random.IsSize t.bidSize) ∧
        ticks.Pairwise (fun t u => t.timestamp ≤ u.timestamp) ∧
        ∃ fewer, { s with rounds := 1 }.ticks Random.KeyStream = .ok fewer ∧ fewer <+: ticks := by
  intro s w
  have valid : s.check = .ok () := by decide +kernel
  have started : s.walk = .ok w := walk_eq_ok_iff.2 ⟨valid, rfl⟩
  have inRange : s.InRange := ⟨by decide, by decide⟩
  obtain ⟨total, ended, turns, ticks, all, length, answers, forth, fewer⟩ :=
    feed_in_turns started inRange
  have six : s.total.toNat = 6 := total
  refine ⟨started, inRange, six, ?_, (ended 6).2 six.le, ticks, all, length.trans six, ?_,
    forth (by decide), fewer 1 (by decide)⟩
  · rw [← Option.ne_none_iff_exists', Ne, ended, six]
    decide
  · intro t third
    have turn := turns 3 t ((answers 3).symm.trans third)
    have second : Sample.threeRounds.symbols[3 % 2]? = some "B" := by decide
    have symbol : some "B" = some t.symbol := second.symm.trans turn.symbol
    have time : t.timestamp.toInt = (0 : Int64).toInt := turn.timestamp.trans (by decide)
    exact ⟨(Option.some.inj symbol).symm, Int64.toInt_inj.1 time, turn.bidSize⟩

end WalkSettings
end Feed
end MarketMaker
