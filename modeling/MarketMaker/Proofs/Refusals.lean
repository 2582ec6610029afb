import MarketMaker.Proofs.Prices
import MarketMaker.Proofs.Timing

/-!
# Quotes that are refused

A quoter makes limit orders for whole lots. Its orders to buy are at finite prices above zero, since
others are not quoted. Its orders to sell are held to no such bound: where the skew lowers the inner
ask by all of it, or raises it beyond what is finite, the order is at no price and is refused
(`Quoter.askPrice_le_zero_iff`). So the orders refused in a run are its sales at no price, and no
others (`Session.refusals_counted`).
-/

namespace MarketMaker

open Double

instance (x : Float) : Decidable (IsPrice x) :=
  inferInstanceAs (Decidable (_ ∧ _))

/-- Quotes do not lean towards the target: there is no room for a position, or no spread. -/
def QuoterSettings.IsLevel (s : QuoterSettings) : Prop :=
  s.isSkewed = false ∨ s.spread ≤ 0.0

/-! ## Quotes -/

namespace Quoter

/-- What settings that pass their check give a quoter. -/
structure Sound (q : Quoter) : Prop where
  lot : q.lotSize ≠ 0
  improvement : IsPrice q.priceImprovement
  spread : isNonNegative q.settings.spread = true

/-- An order that a quoter made, with all that it says. -/
structure Quoted (q : Quoter) (t : Tick) (o : Order) : Prop where
  market : t.hasMarket = true
  symbol : o.symbol = q.symbol
  kind : o.kind = .limit
  quantity : o.quantity = q.lotSize
  wanted : o.side = .buy ∧ q.quotesBid t = true ∧ o.price = q.bidPrice t ∨
    o.side = .sell ∧ q.quotesAsk t = true ∧ o.price = q.askPrice t

theorem Quoted.bid {q : Quoter} {t : Tick} {o : Order} (quoted : q.Quoted t o)
    (buy : o.side = .buy) : q.quotesBid t = true ∧ o.price = q.bidPrice t := by
  rcases quoted.wanted with ⟨_, wanted, price⟩ | ⟨sell, _, _⟩
  · exact ⟨wanted, price⟩
  · exact absurd (buy.symm.trans sell) (by decide)

theorem Quoted.ask {q : Quoter} {t : Tick} {o : Order} (quoted : q.Quoted t o)
    (sell : o.side = .sell) : q.quotesAsk t = true ∧ o.price = q.askPrice t := by
  rcases quoted.wanted with ⟨buy, _, _⟩ | ⟨_, wanted, price⟩
  · exact absurd (sell.symm.trans buy) (by decide)
  · exact ⟨wanted, price⟩

theorem mem_make {q : Quoter} {wanted : Bool} {side : Side} {price : Float} {now : Int64} {o : Order}
    (h : o ∈ (q.make wanted side price now).1) :
    wanted = true ∧ o = q.count.order side price now := by
  cases wanted with
  | false => exact absurd h List.not_mem_nil
  | true => exact ⟨rfl, List.mem_singleton.1 h⟩

theorem make_snd (q : Quoter) (wanted : Bool) (side : Side) (price : Float) (now : Int64) :
    ∃ n, (q.make wanted side price now).2 = { q with made := n } := by
  cases wanted with
  | false => exact ⟨_, rfl⟩
  | true => exact ⟨_, rfl⟩

theorem quoted_of_mem {q : Quoter} {t : Tick} {now : Int64} {o : Order}
    (h : o ∈ (q.quote t now).1) : q.Quoted t o := by
  unfold quote at h
  split at h
  next market =>
    rcases List.mem_append.1 h with bid | ask
    · obtain ⟨wanted, rfl⟩ := mem_make bid
      exact ⟨market, rfl, rfl, rfl, .inl ⟨rfl, wanted, rfl⟩⟩
    · -- The order to buy was counted before, which an order to sell shows in its id alone.
      obtain ⟨n, counted⟩ := q.make_snd (q.quotesBid t) .buy (q.bidPrice t) now
      obtain ⟨wanted, rfl⟩ := mem_make ask
      rw [counted]
      exact ⟨market, rfl, rfl, rfl, .inr ⟨rfl, wanted, rfl⟩⟩
  next => exact absurd h List.not_mem_nil

variable {q : Quoter} {t : Tick}

theorem isPrice_bidPrice (h : q.quotesBid t = true) : IsPrice (q.bidPrice t) := by
  simp only [quotesBid, Bool.and_eq_true, decide_eq_true_eq] at h
  obtain ⟨⟨_, below⟩, positive⟩ := h
  obtain ⟨a, b, ha, _, less⟩ := exists_of_lt below
  have above := (lt_iff_of_denotes denotes_zero_literal ha).1 positive
  cases a with
  | bot => exact absurd above not_lt_bot
  | coe r => exact ⟨isFinite_iff.2 ⟨r, ha⟩, positive⟩
  | top => exact absurd less not_top_lt

theorem bidPrice_lt_askPrice (h : q.quotesAsk t = true) : q.bidPrice t < q.askPrice t := by
  simp only [quotesAsk, Bool.and_eq_true, decide_eq_true_eq] at h
  exact h.2

/-- A sale is quoted at nothing or less where the skew takes all of the inner ask. -/
theorem askPrice_le_zero_iff (h : q.bidPrice t < q.askPrice t) :
    q.askPrice t ≤ 0.0 ↔ t.ask - q.priceImprovement ≤ q.skewShift t := by
  obtain ⟨_, c, _, hc, _⟩ := exists_of_lt h
  obtain ⟨a, b, ha, hb, rfl⟩ := exists_of_denotes_sub hc
  rw [le_iff_of_denotes hc denotes_zero_literal, le_iff_of_denotes ha hb,
    round_sub_nonpos_iff ha hb]

/-- Where the skew does not lower quotes, a sale is above zero. -/
theorem askPrice_pos (sound : q.Sound) (market : t.hasMarket = true)
    (h : q.bidPrice t < q.askPrice t) (raised : q.skewShift t ≤ 0.0) : 0.0 < q.askPrice t := by
  simp only [Tick.hasMarket, Bool.and_eq_true, decide_eq_true_eq] at market
  have inner : NonNegative (t.bid + q.priceImprovement) :=
    NonNegative.add (.of_lt market.1) (.of_lt sound.improvement.2)
  exact lt_of_le_of_lt ((inner.sub raised).zero_le (numbers_of_lt h).1) h

/-- Where the skew does not raise quotes, a sale is at a finite price. -/
theorem isFinite_askPrice (sound : q.Sound) (finite : t.isFinite = true)
    (h : q.bidPrice t < q.askPrice t) (lowered : 0.0 ≤ q.skewShift t) :
    (q.askPrice t).isFinite = true := by
  obtain ⟨r, hr⟩ := isFinite_iff.1 (Bool.and_eq_true_iff.1 finite).2
  obtain ⟨_, c, _, hc, less⟩ := exists_of_lt h
  obtain ⟨a, _, ha, _, _⟩ := exists_of_denotes_sub hc
  have inner : a ≤ r := le_of_denotes_sub ha hr (.of_lt sound.improvement.2)
  have below : c ≤ r := (le_of_denotes_sub hc ha (.of_le lowered)).trans inner
  cases c with
  | bot => exact absurd less not_lt_bot
  | coe p => exact isFinite_iff.2 ⟨p, hc⟩
  | top => exact absurd (top_le_iff.1 below) (EReal.coe_ne_top r)

/-- Quotes that do not lean are shifted by nothing. -/
theorem skewShift_of_isLevel (sound : q.Sound) (level : q.settings.IsLevel) {c : EReal}
    (hc : Denotes (q.skewShift t) c) : c = 0 := by
  obtain ⟨_, _, ha, _, _, rfl⟩ := exists_of_denotes_mul hc
  obtain ⟨_, _, hk, hw, _, rfl⟩ := exists_of_denotes_mul ha
  rcases level with unskewed | narrow
  · have none : q.skew = 0.0 := by simp [skew, unskewed]
    rw [none] at hk
    simp [hk.unique denotes_zero_literal]
  · obtain ⟨_, _, hv, _, _, rfl⟩ := exists_of_denotes_mul hw
    obtain ⟨r, positive, ten⟩ := Slippage.exists_ten_thousand
    obtain ⟨s, hs, rfl⟩ := exists_of_denotes_div ten positive.ne' hv
    have nonneg : 0 ≤ s :=
      NonNegative.of_le (Slippage.exists_of_isNonNegative sound.spread).2 s hs
    obtain rfl : s = 0 := ((le_iff_of_denotes hs denotes_zero_literal).1 narrow).antisymm nonneg
    simp [EReal.zero_div]

/-- A sale at no price: the skew takes all of the inner ask, or raises it beyond what is finite. -/
theorem isPrice_askPrice_iff (h : q.bidPrice t < q.askPrice t) :
    IsPrice (q.askPrice t) ↔
      q.skewShift t < t.ask - q.priceImprovement ∧ (q.askPrice t).isFinite = true := by
  have nothing := askPrice_le_zero_iff h
  obtain ⟨_, _, _, hc, _⟩ := exists_of_lt h
  obtain ⟨_, _, ha, hb, _⟩ := exists_of_denotes_sub hc
  constructor
  · rintro ⟨finite, positive⟩
    refine ⟨lt_of_not_le ha.isNaN hb.isNaN fun all => ?_, finite⟩
    exact not_lt_of_le (nothing.2 all) positive
  · rintro ⟨some, finite⟩
    exact isPrice_of_not_le finite fun nonpos => not_lt_of_le (nothing.1 nonpos) some

/-- An order to buy is at a price. -/
theorem Quoted.isPrice_of_buy {o : Order} (quoted : q.Quoted t o) (side : o.side = .buy) :
    IsPrice o.price := by
  obtain ⟨wanted, price⟩ := quoted.bid side
  rw [price]
  exact isPrice_bidPrice wanted

/-- Where quotes do not lean, every order is at a price. -/
theorem Quoted.isPrice_of_isLevel {o : Order} (quoted : q.Quoted t o) (sound : q.Sound)
    (level : q.settings.IsLevel) (finite : t.isFinite = true) : IsPrice o.price := by
  rcases quoted.wanted with ⟨buy, _, _⟩ | ⟨_, wanted, price⟩
  · exact quoted.isPrice_of_buy buy
  · have above := bidPrice_lt_askPrice wanted
    obtain ⟨_, _, _, hc, _⟩ := exists_of_lt above
    obtain ⟨_, _, _, hb, _⟩ := exists_of_denotes_sub hc
    obtain rfl := skewShift_of_isLevel sound level hb
    rw [price]
    constructor
    · refine isFinite_askPrice sound finite above ?_
      exact (le_iff_of_denotes denotes_zero_literal hb).2 le_rfl
    · refine askPrice_pos sound quoted.market above ?_
      exact (le_iff_of_denotes hb denotes_zero_literal).2 le_rfl

end Quoter

/-! ## Answers to ticks -/

namespace Replay

/-- Every desk is that of one of some quoters. -/
def Staffed (quoters : List Quoter) (r : Replay) : Prop :=
  ∀ symbol d, r.desk? symbol = some d → d.quoter.reset ∈ quoters ∧ d.quoter.symbol = symbol

theorem staffed_new {settings : Settings} {r : Replay}
    (h : Replay.new settings.engine settings.quoters = .ok r) :
    r.Staffed (settings.quoters.map settings.quoter) := by
  refine induct_new h ?_ ?_
  · intro symbol d hd
    exact absurd hd (by simp [desk?, empty, Table.find?_empty])
  · intro q member r r' staffed added symbol d hd
    rw [desk?_addQuoter added] at hd
    split at hd
    next same =>
      obtain rfl := Option.some.inj hd
      exact ⟨List.mem_map.2 ⟨q, member, rfl⟩, same.symm⟩
    next => exact staffed symbol d hd

theorem kept_staffed (quoters : List Quoter) : Kept Operation.IsDriven (Staffed quoters) := by
  apply Kept.of_trading
  case same =>
    intro r r' same h symbol d hd
    rw [desk?, ← same.desks] at hd
    exact h symbol d hd
  case quote =>
    intro r t d hd h symbol d' hd'
    rw [desk?_setDesk] at hd'
    split at hd'
    next same =>
      obtain rfl := Option.some.inj hd'
      have made : ((d.observe t).quote t).2.quoter.reset = d.quoter.reset := Quoter.quote_reset ..
      rw [made, Quoter.symbol_eq_of_reset made, same]
      exact h t.symbol d hd
    next => exact h symbol d' hd'
  case book =>
    intro r o now d t hd ht h symbol d' hd'
    rw [desk?_book] at hd'
    split at hd'
    next same =>
      obtain rfl := Option.some.inj hd'
      rw [same, (Desk.tradeOf_of_trade? ht).symbol]
      exact h o.symbol d hd
    next => exact h symbol d' hd'
  case addQuoter => exact fun _ driven => driven.elim
  case reset =>
    intro r h symbol d hd
    rw [desk?_reset] at hd
    obtain ⟨d₀, hd₀, rfl⟩ := Option.map_eq_some_iff.1 hd
    exact h symbol d₀ hd₀

/-- The orders with which a tick is answered. -/
def answers (r : Replay) (t : Tick) : List Order :=
  match r.desk? t.symbol with
  | none => []
  | some d => if t.isFinite then ((d.observe t).quote t).1 else []

/-- The orders with which ticks are answered that are taken one after the other. -/
def answersAll : Replay → List Tick → List Order
  | _, [] => []
  | r, t :: ts => r.answers t ++ (r.take t .zero).answersAll ts

theorem answers_of_not_finite {r : Replay} {t : Tick} (h : t.isFinite = false) :
    r.answers t = [] := by
  unfold answers
  rw [h]
  cases r.desk? t.symbol <;> rfl

theorem counts_new {settings : EngineSettings} {quoters : List QuoterSettings} {r : Replay}
    (h : Replay.new settings quoters = .ok r) : r.ordersProcessed = 0 ∧ r.ordersRejected = 0 := by
  refine induct_new (P := fun r => r.ordersProcessed = 0 ∧ r.ordersRejected = 0) h ⟨rfl, rfl⟩ ?_
  rintro q _ r r' counts added
  obtain ⟨_, rfl⟩ := addQuoter_ok added
  exact counts

/-- So many more orders were tried and so many more refused. -/
structure Tallied (r r' : Replay) (orders : List Order) : Prop where
  processed : r'.ordersProcessed =
    r.ordersProcessed + .ofNat (orders.countP fun o => IsPrice o.price)
  rejected : r'.ordersRejected =
    r.ordersRejected + .ofNat (orders.countP fun o => ¬IsPrice o.price)

namespace Tallied

variable {r r' r'' : Replay} {orders more : List Order}

theorem none (processed : r'.ordersProcessed = r.ordersProcessed)
    (rejected : r'.ordersRejected = r.ordersRejected) : Tallied r r' [] :=
  ⟨by simp [processed], by simp [rejected]⟩

theorem trans (h : Tallied r r' orders) (h' : Tallied r' r'' more) :
    Tallied r r'' (orders ++ more) where
  processed := by
    rw [h'.processed, h.processed, List.countP_append, UInt64.ofNat_add, UInt64.add_assoc]
  rejected := by
    rw [h'.rejected, h.rejected, List.countP_append, UInt64.ofNat_add, UInt64.add_assoc]

end Tallied

variable {r : Replay} {q : Quoter} {t : Tick}

/-- Of what a quoter makes, an order at no price is refused, and no other. -/
theorem refusal?_isSome_iff_of_quoted {o : Order} (sound : q.Sound) (quoted : q.Quoted t o)
    (known : r.quotes q.symbol = true) : (r.refusal? o).isSome ↔ ¬IsPrice o.price := by
  have lot : o.quantity ≠ 0 := by
    rw [quoted.quantity]
    exact sound.lot
  have desk : r.desk? o.symbol ≠ Option.none := by
    rw [quoted.symbol]
    intro unknown
    rw [quotes_eq_isSome, unknown] at known
    exact absurd known (by decide)
  rw [refusal?_isSome_iff]
  simp only [lot, desk, quoted.kind, false_or, or_false, true_and]
  rfl

theorem tallied_submit {o : Order} (sound : q.Sound) (quoted : q.Quoted t o)
    (known : r.quotes q.symbol = true) (now : Int64) : Tallied r (r.submit o now).2 [o] := by
  have refused := refusal?_isSome_iff_of_quoted sound quoted known
  rcases r.submit_cases o now with ⟨_, fault, hs⟩ | ⟨_, fine, _, _, hs⟩ | ⟨_, _, fine, _, _, hs⟩
  · have bad : ¬IsPrice o.price := by
      rw [← refused, fault]
      rfl
    rw [hs]
    exact ⟨by simp [bad, reject], by simp [bad, reject]⟩
  · have good : IsPrice o.price := by
      rw [fine] at refused
      exact not_not.1 fun bad => absurd (refused.2 bad) (by decide)
    rw [hs]
    exact ⟨by simp [good, count], by simp [good, count]⟩
  · have good : IsPrice o.price := by
      rw [fine] at refused
      exact not_not.1 fun bad => absurd (refused.2 bad) (by decide)
    rw [hs]
    exact ⟨by simp [good, count, book], by simp [good, count, book]⟩

theorem tallied_submitAll {orders : List Order} (sound : q.Sound)
    (quoted : ∀ o ∈ orders, q.Quoted t o) (known : r.quotes q.symbol = true) (now : Int64) :
    Tallied r (r.submitAll orders now) orders := by
  induction orders generalizing r with
  | nil => exact .none rfl rfl
  | cons o os ih =>
    have still : (r.submit o now).2.quotes q.symbol = true :=
      (kept_quotes q.symbol true).submit o now (.inl rfl) r known
    exact (tallied_submit sound (quoted o List.mem_cons_self) known now).trans
      (ih (fun o' member => quoted o' (List.mem_cons_of_mem _ member)) still)

/-- The quoters of sound settings, whatever they did. -/
theorem Staffed.sound {quoters : List Quoter} (h : r.Staffed quoters)
    (sound : ∀ q ∈ quoters, q.Sound) {symbol : String} {d : Desk} (hd : r.desk? symbol = some d) :
    d.quoter.Sound := by
  have made := sound _ (h symbol d hd).1
  exact ⟨made.lot, made.improvement, made.spread⟩

theorem tallied_respond {quoters : List Quoter} (h : r.Staffed quoters)
    (sound : ∀ q ∈ quoters, q.Sound) {d : Desk} (hd : r.desk? t.symbol = some d) :
    Tallied r (r.respond t) ((d.observe t).quote t).1 := by
  have quoted : ∀ o ∈ ((d.observe t).quote t).1, d.quoter.Quoted t o :=
    fun _ => Quoter.quoted_of_mem
  have known : (r.setDesk t.symbol ((d.observe t).quote t).2).quotes d.quoter.symbol = true := by
    rw [quotes_eq_isSome, desk?_setDesk, if_pos (h t.symbol d hd).2]
    rfl
  have tally := tallied_submitAll (h.sound sound hd) quoted known t.timestamp
  rw [respond_of_desk hd]
  exact ⟨tally.processed, tally.rejected⟩

theorem tallied_take {quoters : List Quoter} (h : r.Staffed quoters)
    (sound : ∀ q ∈ quoters, q.Sound) (t : Tick) (took : Duration) :
    Tallied r (r.take t took) (r.answers t) := by
  cases finite : t.isFinite with
  | false =>
    rw [take_of_not_finite took finite, answers_of_not_finite finite]
    exact .none rfl rfl
  | true =>
    rw [take_of_finite took finite]
    simp only [answers, finite, if_true]
    change Tallied r (if r.quotes t.symbol then _ else _) _
    cases hd : r.desk? t.symbol with
    | none =>
      rw [quotes_eq_isSome, hd]
      exact .none rfl rfl
    | some d =>
      rw [quotes_eq_isSome, hd, Option.isSome_some, if_pos rfl]
      have tally := tallied_respond (r := { r with ticksProcessed := r.ticksProcessed + 1 })
        ((kept_staffed quoters).accept r h) sound hd
      exact ⟨tally.processed, tally.rejected⟩

/-- Runs refuse the orders at no price. -/
theorem tallied_takeAll {quoters : List Quoter} (h : r.Staffed quoters)
    (sound : ∀ q ∈ quoters, q.Sound) (ticks : List Tick) :
    Tallied r (r.takeAll ticks) (r.answersAll ticks) := by
  induction ticks generalizing r with
  | nil => exact .none rfl rfl
  | cons t ts ih =>
    have taken := (kept_staffed quoters).take t .zero h
    exact (tallied_take h sound t .zero).trans (ih taken)

theorem staffed_takeAll {quoters : List Quoter} (h : r.Staffed quoters) (ticks : List Tick) :
    (r.takeAll ticks).Staffed quoters := by
  induction ticks generalizing r with
  | nil => exact h
  | cons t ts ih => exact ih ((kept_staffed quoters).take t .zero h)

/-- An order that answers ticks was made by a desk at one of them. -/
theorem exists_of_mem_answersAll {ticks : List Tick} {o : Order} (h : o ∈ r.answersAll ticks) :
    ∃ before t d, t.isFinite = true ∧ (r.takeAll before).desk? t.symbol = some d ∧
      d.quoter.Quoted t o := by
  induction ticks generalizing r with
  | nil => exact absurd h List.not_mem_nil
  | cons t ts ih =>
    rcases List.mem_append.1 h with first | later
    · unfold answers at first
      cases hd : r.desk? t.symbol with
      | none => simp [hd] at first
      | some d =>
        simp only [hd] at first
        split at first
        next finite => exact ⟨[], t, d, finite, hd, Quoter.quoted_of_mem first⟩
        next => exact absurd first List.not_mem_nil
    · obtain ⟨before, t', d, finite, hd, quoted⟩ := ih later
      exact ⟨t :: before, t', d, finite, hd, quoted⟩

end Replay

/-! ## Runs -/

/-- Takes ticks. -/
def Operation.IsTicking : Operation → Prop
  | tick _ => True
  | run _ _ => True
  | _ => False

/-- The ticks that an operation takes, unless a budget keeps it from some. -/
def Operation.ticks : Operation → List Tick
  | tick t => [t]
  | run ticks _ => ticks
  | _ => []

/-- The quoters of settings that pass their check. -/
theorem Settings.sound_of_check {settings : Settings} (h : settings.check = .ok ()) :
    ∀ q ∈ settings.quoters.map settings.quoter, q.Sound := by
  intro q member
  obtain ⟨p, known, rfl⟩ := List.mem_map.1 member
  have engine := settings.engine_meaningful h
  exact ⟨(UInt64.pos_iff_ne_zero).1 engine.lotSize, engine.priceImprovement,
    (settings.quoters_meaningful h p known).spread⟩

namespace Session

open Replay

variable {σ : Type} [Cache.Store σ]

theorem exists_sameButTimes_perform {op : Operation} (ticking : op.IsTicking) (s : Session σ)
    (w : Readings) :
    ∃ taken, taken <+: op.ticks ∧ (op.IsUntimed → taken = op.ticks) ∧
      SameButTimes (s.perform op w).1.replay (s.replay.takeAll taken) := by
  cases op with
  | tick t =>
    refine ⟨[t], List.prefix_rfl, fun _ => rfl, ?_⟩
    change SameButTimes ((s.takeTick t : StateM Readings _) w).1.replay _
    rw [replay_takeTick]
    exact sameButTimes_take (.refl _) t _ _
  | run ticks budget =>
    obtain ⟨taken, within, whole, same⟩ :=
      exists_sameButTimes_takeTicks budget w.first ticks s w.later
    exact ⟨taken, within, whole, (sameButTimes_elapse _ _).trans same⟩
  | _ => exact ticking.elim

/-- Operations that take ticks take them one by one, in whatever time, less those that a budget cuts
off. -/
theorem exists_sameButTimes_after {ops : List Operation} (ticking : ∀ op ∈ ops, op.IsTicking)
    (s : Session σ) (w : Readings) :
    ∃ taken, taken.Sublist (ops.flatMap Operation.ticks) ∧
      ((∀ op ∈ ops, op.IsUntimed) → taken = ops.flatMap Operation.ticks) ∧
      SameButTimes (s.after ops w).replay (s.replay.takeAll taken) := by
  induction ops generalizing s w with
  | nil => exact ⟨[], .refl _, fun _ => rfl, .refl _⟩
  | cons op ops ih =>
    obtain ⟨first, within, whole, same⟩ :=
      exists_sameButTimes_perform (ticking op List.mem_cons_self) s w
    obtain ⟨rest, within', whole', same'⟩ :=
      ih (fun op' member => ticking op' (List.mem_cons_of_mem _ member)) (s.perform op w).1
        (s.perform op w).2
    refine ⟨first ++ rest, within.sublist.append within', ?_, ?_⟩
    · intro untimed
      rw [whole (untimed op List.mem_cons_self),
        whole' fun op' member => untimed op' (List.mem_cons_of_mem _ member), List.flatMap_cons]
    · rw [takeAll, List.foldl_append]
      exact same'.trans (sameButTimes_takeAll same rest)

/-- **What is refused in a run are sales at no price.** Ticks and runs of ticks take their ticks one by
one, less those that a budget cuts off, and of the orders with which desks answer them those at no
price are refused and the others tried. Every such order is a limit order for a lot, and an order to
buy is at a finite price above zero. An order to sell is at none where the skew takes all of the
inner ask or raises it beyond what is finite; it is above zero where quotes are not lowered, and
finite where they are not raised. Where no quoter leans, nothing is refused. -/
theorem refusals_counted {settings : Settings} {cache : σ} {s : Session σ}
    (started : start settings cache = .ok s) {ops : List Operation}
    (ticking : ∀ op ∈ ops, op.IsTicking) (w : Readings) :
    (∃ taken, taken.Sublist (ops.flatMap Operation.ticks) ∧
      ((∀ op ∈ ops, op.IsUntimed) → taken = ops.flatMap Operation.ticks) ∧
      SameButTimes (s.after ops w).replay (s.replay.takeAll taken) ∧
      (s.after ops w).replay.ordersRejected =
        .ofNat ((s.replay.answersAll taken).countP fun o => ¬IsPrice o.price) ∧
      (s.after ops w).replay.ordersProcessed =
        .ofNat ((s.replay.answersAll taken).countP fun o => IsPrice o.price)) ∧
    (∀ ticks, ∀ o ∈ s.replay.answersAll ticks, o.kind = .limit ∧
      o.quantity = settings.engine.lotSize ∧ o.quantity ≠ 0 ∧ (o.side = .buy → IsPrice o.price)) ∧
    (∀ before t d, (s.replay.takeAll before).desk? t.symbol = some d → t.isFinite = true →
      t.hasMarket = true → d.quoter.quotesAsk t = true →
      (IsPrice (d.quoter.askPrice t) ↔
        d.quoter.skewShift t < t.ask - d.quoter.priceImprovement ∧
          (d.quoter.askPrice t).isFinite = true) ∧
      (d.quoter.skewShift t ≤ 0.0 → 0.0 < d.quoter.askPrice t) ∧
      (0.0 ≤ d.quoter.skewShift t → (d.quoter.askPrice t).isFinite = true)) ∧
    ((∀ q ∈ settings.quoters, q.IsLevel) → (s.after ops w).replay.ordersRejected = 0) := by
  obtain ⟨checked, made⟩ := start_ok started
  have sound := settings.sound_of_check checked
  have staffed := staffed_new made
  obtain ⟨processed, rejected⟩ := counts_new made
  obtain ⟨taken, within, whole, same⟩ := exists_sameButTimes_after ticking s w
  have tally := tallied_takeAll staffed sound taken
  have refused : (s.after ops w).replay.ordersRejected =
      .ofNat ((s.replay.answersAll taken).countP fun o => ¬IsPrice o.price) := by
    rw [← same.same]
    exact tally.rejected.trans (by rw [rejected, UInt64.zero_add])
  have tried : (s.after ops w).replay.ordersProcessed =
      .ofNat ((s.replay.answersAll taken).countP fun o => IsPrice o.price) := by
    rw [← same.same]
    exact tally.processed.trans (by rw [processed, UInt64.zero_add])
  refine ⟨⟨taken, within, whole, same, refused, tried⟩, ?_, ?_, ?_⟩
  · intro ticks o member
    obtain ⟨before, t, d, _, hd, quoted⟩ := exists_of_mem_answersAll member
    obtain ⟨p, _, as⟩ := List.mem_map.1 (staffed_takeAll staffed before t.symbol d hd).1
    have own := (staffed_takeAll staffed before).sound sound hd
    refine ⟨quoted.kind, ?_, ?_, quoted.isPrice_of_buy⟩
    · rw [quoted.quantity]
      exact (congrArg Quoter.lotSize as).symm
    · rw [quoted.quantity]
      exact own.lot
  · intro before t d hd finite market wanted
    have own := (staffed_takeAll staffed before).sound sound hd
    have above := Quoter.bidPrice_lt_askPrice wanted
    exact ⟨Quoter.isPrice_askPrice_iff above, Quoter.askPrice_pos own market above,
      Quoter.isFinite_askPrice own finite above⟩
  · intro level
    rw [refused, List.countP_eq_zero.2]
    · rfl
    · intro o member
      obtain ⟨before, t, d, finite, hd, quoted⟩ := exists_of_mem_answersAll member
      obtain ⟨p, known, as⟩ := List.mem_map.1 (staffed_takeAll staffed before t.symbol d hd).1
      have own := (staffed_takeAll staffed before).sound sound hd
      have straight : d.quoter.settings.IsLevel := congrArg Quoter.settings as ▸ level p known
      simpa using quoted.isPrice_of_isLevel own straight finite

end Session

namespace Sample

/-- A target so far away that the skew is ten million, at some spread. -/
def leaningSettings (spread : Float) : Settings :=
  { quoters := [{ symbol := "AAPL", spread, maxPosition := 100, inventoryTarget := -1000000000 }] }

theorem leaning_isSome : (Session.start (leaningSettings 2.0) Cache.Absent.mk).toOption.isSome := by
  decide +kernel

def leaningSession : Session Cache.Absent :=
  (Session.start (leaningSettings 2.0) Cache.Absent.mk).toOption.get leaning_isSome

theorem leaningStarted :
    Session.start (leaningSettings 2.0) Cache.Absent.mk = .ok leaningSession :=
  ok_of_toOption (Option.some_get leaning_isSome).symm

theorem level_isSome : (Session.start (leaningSettings 0.0) Cache.Absent.mk).toOption.isSome := by
  decide +kernel

def levelSession : Session Cache.Absent :=
  (Session.start (leaningSettings 0.0) Cache.Absent.mk).toOption.get level_isSome

theorem levelStarted :
    Session.start (leaningSettings 0.0) Cache.Absent.mk = .ok levelSession :=
  ok_of_toOption (Option.some_get level_isSome).symm

/-- The same tick by itself and in a run. -/
def leaningTicks : List Operation :=
  [.tick (tick "AAPL"), .run [tick "AAPL"] none]

end Sample

namespace Session

open Replay

/-- Sales at a negative price are refused in two operations. Without a spread the same ticks are
answered with orders that trade. -/
theorem refusals_counted_sample :
    (∀ op ∈ Sample.leaningTicks, op.IsTicking) ∧
    (Sample.leaningSession.replay.answersAll [Sample.tick "AAPL", Sample.tick "AAPL"]).length = 2 ∧
    (Sample.leaningSession.after Sample.leaningTicks Sample.clock).replay.ordersRejected =
      .ofNat ((Sample.leaningSession.replay.answersAll
        [Sample.tick "AAPL", Sample.tick "AAPL"]).countP fun o => ¬IsPrice o.price) ∧
    (Sample.levelSession.after Sample.leaningTicks Sample.clock).replay.trades.size = 4 ∧
    (Sample.levelSession.after Sample.leaningTicks Sample.clock).replay.ordersRejected = 0 := by
  have ticking : ∀ op ∈ Sample.leaningTicks, op.IsTicking := by
    simp [Sample.leaningTicks, Operation.IsTicking]
  have untimed : ∀ op ∈ Sample.leaningTicks, op.IsUntimed := by
    simp [Sample.leaningTicks, Operation.IsUntimed]
  have level : ∀ q ∈ (Sample.leaningSettings 0.0).quoters, q.IsLevel := by
    intro q member
    obtain rfl := List.mem_singleton.1 member
    exact .inr (by decide +kernel)
  obtain ⟨⟨taken, _, whole, _, refused, _⟩, _, _, _⟩ :=
    refusals_counted Sample.leaningStarted ticking Sample.clock
  obtain rfl := whole untimed
  obtain ⟨_, _, _, silent⟩ := refusals_counted Sample.levelStarted ticking Sample.clock
  exact ⟨ticking, by decide +kernel, refused, by decide +kernel, silent level⟩

/-- A configured quoter makes an order to sell at a negative price, and it is refused. -/
theorem sale_refused :
    Session.start (Sample.leaningSettings 2.0) Cache.Absent.mk = .ok Sample.leaningSession ∧
    (∃ o ∈ Sample.leaningSession.replay.answers (Sample.tick "AAPL"),
      o.side = .sell ∧ o.price < 0.0) ∧
    (Sample.leaningSession.after [.tick (Sample.tick "AAPL")] Sample.clock).replay.ordersRejected =
      1 := by
  have made : ((Sample.leaningSession.replay.answers (Sample.tick "AAPL")).head?).map
      (fun o => (o.side, decide (o.price < 0.0))) = some (.sell, true) := by
    decide +kernel
  obtain ⟨o, first, found⟩ := Option.map_eq_some_iff.1 made
  simp only [Prod.mk.injEq, decide_eq_true_eq] at found
  exact ⟨Sample.leaningStarted, ⟨o, List.mem_of_mem_head? first, found⟩, by decide +kernel⟩

end Session

end MarketMaker
