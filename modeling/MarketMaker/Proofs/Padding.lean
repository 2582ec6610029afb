import MarketMaker.Proofs.Double.Order
import MarketMaker.Proofs.Separation
import MarketMaker.Proofs.Timing

/-!
# Ticks that move nothing

A tick is moot if its prices are not finite, if nobody quotes its symbol, or if it shows no market.
The last kind does overwrite a book, but a book is looked at only between two ticks of its symbol, and
the next of them overwrites it again. So what runs come to (`Replay.outcome`) does not change where
moot ticks are put in, or where a run is cut in pieces (`Session.run_padded`).
-/

namespace MarketMaker

/-- A list with further elements of some kind put in anywhere. -/
inductive Padded {α : Type} (extra : α → Prop) : List α → List α → Prop
  | nil : Padded extra [] []
  | keep (a : α) {as bs : List α} (rest : Padded extra as bs) : Padded extra (a :: as) (a :: bs)
  | insert (a : α) {as bs : List α} (further : extra a) (rest : Padded extra as bs) :
      Padded extra as (a :: bs)

/-- A tick that moves nothing, where some symbols are quoted. -/
def Tick.IsMoot (quoted : String → Bool) (t : Tick) : Prop :=
  t.isFinite = false ∨ quoted t.symbol = false ∨
    t.isFinite = true ∧ (t.bid ≤ 0.0 ∨ t.ask ≤ 0.0)

theorem Tick.hasMarket_of_le {t : Tick} (h : t.bid ≤ 0.0 ∨ t.ask ≤ 0.0) : t.hasMarket = false := by
  rcases h with h | h
  · simp [hasMarket, Double.not_lt_of_le h]
  · simp [hasMarket, Double.not_lt_of_le h]

namespace Sample

/-- Runs in which one tick trades. The others are moot: no number for a bid, a symbol that nobody
quotes, and a bid of zero, which stands in the book where one run ends. -/
def pieces : List (List Tick) :=
  [[{ tick "B" with bid := 0.0 / 0.0 }, tick "E"], [], [{ tick "B" with bid := 0.0 }], [tick "B"]]

end Sample

/-! ## Desks without their books -/

namespace Desk

/-- The desk with an empty book. -/
def clearBook (d : Desk) : Desk :=
  { d with book := .empty d.book.symbol }

/-- A tick overwrites all that a book holds. -/
theorem observe_congr {d d' : Desk} (h : d.clearBook = d'.clearBook) (t : Tick) :
    d.observe t = d'.observe t := by
  obtain ⟨⟨symbol, latest⟩, quoter, volatility⟩ := d
  obtain ⟨⟨symbol', latest'⟩, quoter', volatility'⟩ := d'
  obtain ⟨rfl, rfl, rfl⟩ : symbol = symbol' ∧ quoter = quoter' ∧ volatility = volatility' := by
    simpa [clearBook, TopOfBook.empty] using h
  rfl

/-- A tick without a market changes a book alone. -/
theorem clearBook_observe {d : Desk} {t : Tick} (h : t.hasMarket = false) :
    (d.observe t).clearBook = d.clearBook := by
  have shown : (d.book.update t).hasMarket = false := by
    change (t.hasMarket && t.ask.isFinite) = false
    rw [h, Bool.false_and]
  simp only [observe, shown, Bool.false_eq_true, if_false]
  rfl

theorem quote_of_no_market {d : Desk} {t : Tick} (h : t.hasMarket = false) :
    d.quote t = ([], d) := by
  rw [quote, d.quoter.quote_of_no_market h]

end Desk

namespace Replay

/-! ## What a replay comes to -/

/-- The replay without what its books show, the times it measured and its count of ticks. -/
def outcome (r : Replay) : Replay :=
  { r with
    desks := r.desks.map fun _ d => d.clearBook
    latency := .empty
    elapsed := .zero
    ticksProcessed := 0 }

theorem desk?_outcome (r : Replay) (symbol : String) :
    r.outcome.desk? symbol = (r.desk? symbol).map Desk.clearBook :=
  Table.find?_map ..

theorem quotes_outcome (r : Replay) (symbol : String) :
    r.outcome.quotes symbol = r.quotes symbol :=
  Table.contains_map ..

theorem outcome_book (r : Replay) (d : Desk) (t : Trade) :
    (r.book d t).outcome = r.outcome.book d.clearBook t := by
  have desks : (r.desks.insert t.symbol (d.onTrade t)).map (fun _ d => d.clearBook) =
      (r.desks.map fun _ d => d.clearBook).insert t.symbol (d.clearBook.onTrade t) :=
    Table.map_insert ..
  simp only [outcome, book, desks]

theorem outcome_setDesk (r : Replay) (symbol : String) (d : Desk) :
    (r.setDesk symbol d).outcome = r.outcome.setDesk symbol d.clearBook := by
  simp only [outcome, setDesk, Table.map_insert]

/-- A desk put in the place of one with another book does not show in the outcome. -/
theorem outcome_setDesk_of_clearBook {r : Replay} {symbol : String} {d d' : Desk}
    (hd : r.desk? symbol = some d) (same : d'.clearBook = d.clearBook) :
    (r.setDesk symbol d').outcome = r.outcome := by
  have desks : (r.desks.insert symbol d').map (fun _ d => d.clearBook) =
      r.desks.map fun _ d => d.clearBook := Table.map_insert_of_find? hd same
  simp only [outcome, setDesk, desks]

theorem SameButTimes.outcome {r r' : Replay} (h : SameButTimes r r') : r.outcome = r'.outcome := by
  rw [← h.same]
  rfl

/-- Two replays come to the same, and show the same book of one symbol. -/
structure SameAt (symbol : String) (r r' : Replay) : Prop where
  outcome : r.outcome = r'.outcome
  desk : r.desk? symbol = r'.desk? symbol

theorem sameAt_submit {r r' : Replay} {o : Order} (h : SameAt o.symbol r r') (now : Int64) :
    SameAt o.symbol (r.submit o now).2 (r'.submit o now).2 := by
  have fault : r'.refusal? o = r.refusal? o := by rw [refusal?, ← h.desk, ← refusal?]
  have settings : r'.settings = r.settings := (congrArg Replay.settings h.outcome).symm
  cases refused : r.refusal? o with
  | some _ =>
    rw [submit_of_refused refused, submit_of_refused (fault.trans refused)]
    exact ⟨congrArg reject h.outcome, h.desk⟩
  | none =>
    obtain ⟨d, hd⟩ := desk_of_accepted refused
    have hd' : r'.desk? o.symbol = some d := by rw [← h.desk, hd]
    rw [submit_of_accepted refused hd, submit_of_accepted (fault.trans refused) hd', settings]
    have counted : (r.count o (d.valuePrice o)).outcome = (r'.count o (d.valuePrice o)).outcome :=
      congrArg (fun r => count r o (d.valuePrice o)) h.outcome
    cases ht : d.trade? r.settings o now with
    | none => exact ⟨counted, h.desk⟩
    | some t =>
      have symbol := (Desk.tradeOf_of_trade? ht).symbol
      constructor
      · simp only [outcome_book, counted]
      · simp only [desk?_book, symbol, if_true]

theorem sameAt_submitAll {orders : List Order} {symbol : String}
    (own : ∀ o ∈ orders, o.symbol = symbol) (now : Int64) {r r' : Replay}
    (h : SameAt symbol r r') :
    SameAt symbol (r.submitAll orders now) (r'.submitAll orders now) := by
  induction orders generalizing r r' with
  | nil => exact h
  | cons o os ih =>
    obtain rfl := own o List.mem_cons_self
    exact ih (fun o' member => own o' (List.mem_cons_of_mem _ member)) (sameAt_submit h now)

/-! ## Ticks that are taken on both sides -/

/-- Where two replays come to the same, so do their answers to a tick, whatever their books showed. -/
theorem outcome_respond {r r' : Replay} (named : r.Named) (h : r.outcome = r'.outcome) (t : Tick) :
    (r.respond t).outcome = (r'.respond t).outcome := by
  have desks : (r.desk? t.symbol).map Desk.clearBook = (r'.desk? t.symbol).map Desk.clearBook := by
    rw [← desk?_outcome, ← desk?_outcome, h]
  cases hd : r.desk? t.symbol with
  | none =>
    have hd' : r'.desk? t.symbol = none := by simpa [hd] using desks.symm
    rw [respond_of_none hd, respond_of_none hd', h]
  | some d =>
    obtain ⟨d', hd', cleared⟩ : ∃ d', r'.desk? t.symbol = some d' ∧ d'.clearBook = d.clearBook := by
      simpa [hd] using desks.symm
    rw [respond_of_desk hd, respond_of_desk hd', Desk.observe_congr cleared]
    have noted : SameAt t.symbol (r.setDesk t.symbol ((d.observe t).quote t).2)
        (r'.setDesk t.symbol ((d.observe t).quote t).2) := by
      constructor
      · rw [outcome_setDesk, outcome_setDesk, h]
      · rw [desk?_setDesk, desk?_setDesk]
        simp only [if_true]
    exact (sameAt_submitAll (fun o => named.symbol_of_mem hd) _ noted).outcome

theorem outcome_take {r r' : Replay} (named : r.Named) (h : r.outcome = r'.outcome) (t : Tick)
    (took took' : Duration) : (r.take t took).outcome = (r'.take t took').outcome := by
  cases hf : t.isFinite with
  | false => rw [take_of_not_finite took hf, take_of_not_finite took' hf, h]
  | true =>
    rw [take_of_finite took hf, take_of_finite took' hf]
    have accepted : Replay.outcome { r with ticksProcessed := r.ticksProcessed + 1 } =
        Replay.outcome { r' with ticksProcessed := r'.ticksProcessed + 1 } := h
    have quoted : r'.quotes t.symbol = r.quotes t.symbol := by
      rw [← quotes_outcome, ← h, quotes_outcome]
    change Replay.outcome (if r.quotes t.symbol then _ else _) =
      Replay.outcome (if r'.quotes t.symbol then _ else _)
    rw [quoted]
    split
    · exact outcome_respond (kept_named.accept r named) accepted t
    · exact accepted

/-! ## Ticks that are put in -/

theorem outcome_respond_of_no_market {t : Tick} (h : t.hasMarket = false) (r : Replay) :
    (r.respond t).outcome = r.outcome := by
  cases hd : r.desk? t.symbol with
  | none => rw [respond_of_none hd]
  | some d =>
    rw [respond_of_desk hd, Desk.quote_of_no_market h]
    exact outcome_setDesk_of_clearBook hd (Desk.clearBook_observe h)

theorem outcome_take_of_moot {r : Replay} {t : Tick} (moot : t.IsMoot r.quotes) (took : Duration) :
    (r.take t took).outcome = r.outcome := by
  rcases moot with infinite | unquoted | ⟨finite, no_market⟩
  · rw [take_of_not_finite took infinite]
  · cases hf : t.isFinite with
    | false => rw [take_of_not_finite took hf]
    | true =>
      rw [take_of_finite took hf]
      change Replay.outcome (if r.quotes t.symbol then _ else _) = _
      rw [unquoted]
      rfl
  · rw [take_of_finite took finite]
    change Replay.outcome (if r.quotes t.symbol then _ else _) = _
    split
    · exact outcome_respond_of_no_market (Tick.hasMarket_of_le no_market) _
    · rfl

theorem quotes_take (r : Replay) (t : Tick) (took : Duration) :
    (r.take t took).quotes = r.quotes := by
  funext symbol
  have kept := (kept_quotes symbol (r.quotes symbol)).take (r := r) t took
  exact kept rfl

/-- Moot ticks make no difference, wherever they are put in. -/
theorem outcome_takeAll {r r' : Replay} (named : r.Named) (h : r.outcome = r'.outcome)
    {ticks padded : List Tick} (inserted : Padded (Tick.IsMoot r'.quotes) ticks padded) :
    (r.takeAll ticks).outcome = (r'.takeAll padded).outcome := by
  generalize known : r'.quotes = quoted at inserted
  induction inserted generalizing r r' with
  | nil => exact h
  | keep t _ ih =>
    exact ih (kept_named.take t _ named) (outcome_take named h t _ _)
      ((quotes_take r' t _).trans known)
  | insert t moot _ ih =>
    have unmoved : (r'.take t .zero).outcome = r'.outcome := outcome_take_of_moot (known ▸ moot) _
    exact ih named (h.trans unmoved.symm) ((quotes_take r' t _).trans known)

/-! ## The count of ticks -/

theorem ticksProcessed_submit (r : Replay) (o : Order) (now : Int64) :
    (r.submit o now).2.ticksProcessed = r.ticksProcessed := by
  rcases r.submit_cases o now with ⟨_, _, hs⟩ | ⟨_, _, _, _, hs⟩ | ⟨_, _, _, _, _, hs⟩
  · rw [hs]
    rfl
  · rw [hs]
    rfl
  · rw [hs]
    rfl

theorem ticksProcessed_respond (r : Replay) (t : Tick) :
    (r.respond t).ticksProcessed = r.ticksProcessed := by
  cases hd : r.desk? t.symbol with
  | none => rw [respond_of_none hd]
  | some d =>
    rw [respond_of_desk hd]
    refine kept_submitAll (P := fun r' => r'.ticksProcessed = r.ticksProcessed) ?_ _ _ rfl
    exact fun r o now h => (ticksProcessed_submit r o now).trans h

theorem ticksProcessed_take (r : Replay) (t : Tick) (took : Duration) :
    (r.take t took).ticksProcessed = r.ticksProcessed + if t.isFinite then 1 else 0 := by
  cases hf : t.isFinite with
  | false =>
    rw [take_of_not_finite took hf]
    exact (UInt64.add_zero _).symm
  | true =>
    rw [take_of_finite took hf]
    simp only
    split
    · exact ticksProcessed_respond _ t
    · rfl

/-- The ticks that count are those with finite prices. -/
theorem ticksProcessed_takeAll (r : Replay) (ticks : List Tick) :
    (r.takeAll ticks).ticksProcessed =
      r.ticksProcessed + UInt64.ofNat (ticks.countP Tick.isFinite) := by
  induction ticks generalizing r with
  | nil => exact (UInt64.add_zero _).symm
  | cons t ts ih =>
    change ((r.take t .zero).takeAll ts).ticksProcessed = _
    rw [ih, ticksProcessed_take, List.countP_cons, UInt64.ofNat_add, UInt64.add_assoc]
    cases t.isFinite with
    | false => simp
    | true => simp [UInt64.add_comm]

end Replay

/-! ## Runs -/

namespace Session

open Replay

variable {σ : Type} [Cache.Store σ]

/-- Runs one after the other take the ticks that one run takes. -/
theorem sameButTimes_runs (s : Session σ) (pieces : List (List Tick)) (w : Readings) :
    SameButTimes (s.after (pieces.map fun ticks => .run ticks none) w).replay
      (s.replay.takeAll pieces.flatten) := by
  induction pieces generalizing s w with
  | nil => exact .refl _
  | cons ticks pieces ih =>
    have first := sameButTimes_runBy s ticks w
    have rest := ih (s.perform (.run ticks none) w).1 (s.perform (.run ticks none) w).2
    rw [List.map_cons, after_cons, List.flatten_cons, takeAll, List.foldl_append]
    exact rest.trans (sameButTimes_takeAll first pieces.flatten)

/-- **Moot ticks and cuts make no difference.** From any state that operations lead to, ticks with
moot ones put in anywhere, and run in any number of pieces, come to what one run of the ticks comes
to, by whatever clocks. The count of ticks grows by those with finite prices, and one without is as
if it had not been. -/
theorem run_padded {settings : Settings} {cache : σ} {s₀ : Session σ}
    (started : start settings cache = .ok s₀) (ops : List Operation) (w₀ : Readings)
    {ticks : List Tick} {pieces : List (List Tick)}
    (padded : Padded (Tick.IsMoot (s₀.after ops w₀).replay.quotes) ticks pieces.flatten)
    (w w' : Readings) :
    let s := s₀.after ops w₀
    let once := (s.after [.run ticks none] w).replay
    let cut := (s.after (pieces.map fun ticks => .run ticks none) w').replay
    cut.trades = once.trades ∧ cut.ledger = once.ledger ∧
    (∀ symbol, (cut.desk? symbol).map (fun d => (d.quoter, d.volatility)) =
      (once.desk? symbol).map fun d => (d.quoter, d.volatility)) ∧
    cut.ordersProcessed = once.ordersProcessed ∧ cut.ordersRejected = once.ordersRejected ∧
    cut.orders = once.orders ∧
    cut.ticksProcessed =
      s.replay.ticksProcessed + UInt64.ofNat (pieces.flatten.countP Tick.isFinite) ∧
    ∀ (s : Session σ) t w, t.isFinite = false → s.perform (.tick t) w = (s, w) := by
  intro s once cut
  have whole : SameButTimes once (s.replay.takeAll ticks) := sameButTimes_runBy s ticks w
  have parts : SameButTimes cut (s.replay.takeAll pieces.flatten) := sameButTimes_runs s pieces w'
  have same : cut.outcome = once.outcome := by
    rw [parts.outcome, whole.outcome, outcome_takeAll (named_after started ops w₀) rfl padded]
  have ⟨_, _, ledger, trades, _, orders, _, processed, rejected, _⟩ :=
    (Replay.mk.injEq ..).mp same
  refine ⟨trades, ledger, ?_, processed, rejected, orders, ?_,
    fun s t w infinite => takeTick_of_not_finite s infinite w⟩
  · intro symbol
    have cleared : (cut.desk? symbol).map Desk.clearBook = (once.desk? symbol).map Desk.clearBook := by
      rw [← desk?_outcome, ← desk?_outcome, same]
    -- What is compared does not look at the book.
    have shown := congrArg (Option.map fun d => (d.quoter, d.volatility)) cleared
    rwa [Option.map_map, Option.map_map] at shown
  · rw [← parts.same]
    exact ticksProcessed_takeAll s.replay pieces.flatten

/-- A moot tick of each kind beside one that trades, in four runs. -/
theorem run_padded_sample :
    Padded (Tick.IsMoot (Sample.session.after Sample.operations Sample.clock).replay.quotes)
      [Sample.tick "B"] Sample.pieces.flatten ∧
    ∃ s once cut, Sample.session.after Sample.operations Sample.clock = s ∧
      (s.after [.run [Sample.tick "B"] none] Sample.clock).replay = once ∧
      (s.after (Sample.pieces.map fun ticks => .run ticks none) Sample.clock).replay = cut ∧
      once.trades.size = 7 ∧ cut.trades = once.trades ∧
      cut.ticksProcessed =
        s.replay.ticksProcessed + UInt64.ofNat (Sample.pieces.flatten.countP Tick.isFinite) := by
  have padded : Padded
      (Tick.IsMoot (Sample.session.after Sample.operations Sample.clock).replay.quotes)
      [Sample.tick "B"] Sample.pieces.flatten := by
    refine .insert _ (.inl ?_) (.insert _ (.inr (.inl ?_)) (.insert _ (.inr (.inr ⟨?_, .inl ?_⟩))
      (.keep _ .nil)))
    · decide +kernel
    · decide +kernel
    · decide +kernel
    · decide +kernel
  have traded : ((Sample.session.after Sample.operations Sample.clock).after
      [.run [Sample.tick "B"] none] Sample.clock).replay.trades.size = 7 := by decide +kernel
  obtain ⟨trades, _, _, _, _, _, counted, _⟩ :=
    run_padded Sample.started Sample.operations Sample.clock padded Sample.clock Sample.clock
  exact ⟨padded, _, _, _, rfl, rfl, rfl, traded, trades, counted⟩

end Session

end MarketMaker
