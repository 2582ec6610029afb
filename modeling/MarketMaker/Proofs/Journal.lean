import MarketMaker.Proofs.Attempts
import MarketMaker.Proofs.Figures

/-!
# Every quote is counted once

What reaches a replay between two resets is kept beside it in a journal: each tick that a clock lets
through and each order that no quoter made, with the replay that it reached (`Event`). The counts of a
replay are read off its journal (`Replay.Counted`): each event adds to both (`Counted.concat`), so that
after any operations no order is lost among them or counted twice (`Session.counts_balance`).
-/

namespace MarketMaker

/-- What reaches a replay. -/
inductive Arrival where
  | tick (t : Tick)
  /-- An order that no quoter made. -/
  | order (o : Order)

/-- An arrival, with the replay that it reaches. -/
structure Event where
  replay : Replay
  arrival : Arrival

namespace Event

/-- The tick that arrives. -/
def ticks : Event → List Tick
  | ⟨_, .tick t⟩ => [t]
  | ⟨_, .order _⟩ => []

/-- The order that arrives. -/
def orders : Event → List Order
  | ⟨_, .tick _⟩ => []
  | ⟨_, .order o⟩ => [o]

/-- The orders that a quoter makes of what arrives. -/
def quotes : Event → List Order
  | ⟨r, .tick t⟩ => r.answers t
  | ⟨_, .order _⟩ => []

/-- The orders that are accepted, whoever made them. -/
def processed (e : Event) : List Order :=
  (e.quotes ++ e.orders).filter e.replay.accepts

/-- The orders that are refused. -/
def refused (e : Event) : List Order :=
  (e.quotes ++ e.orders).filter fun o => !e.replay.accepts o

/-- The tick that arrives, if its prices are finite. -/
def admitted (e : Event) : List Tick :=
  e.ticks.filter Tick.isFinite

/-- The tick that arrives, if its prices are finite and its symbol has a desk by then. -/
def answered (e : Event) : List Tick :=
  e.admitted.filter fun t => e.replay.quotes t.symbol

theorem processed_tick (r : Replay) (t : Tick) :
    processed ⟨r, .tick t⟩ = (r.answers t).filter r.accepts :=
  congrArg _ (List.append_nil _)

theorem refused_tick (r : Replay) (t : Tick) :
    refused ⟨r, .tick t⟩ = (r.answers t).filter fun o => !r.accepts o :=
  congrArg _ (List.append_nil _)

theorem admitted_tick (r : Replay) (t : Tick) :
    admitted ⟨r, .tick t⟩ = if t.isFinite then [t] else [] := by
  rw [admitted, ticks, List.filter_cons, List.filter_nil]

theorem length_answered_tick (r : Replay) {t : Tick} (finite : t.isFinite = true) :
    (answered ⟨r, .tick t⟩).length = if r.quotes t.symbol then 1 else 0 := by
  rw [answered, admitted_tick, if_pos finite, List.filter_cons, List.filter_nil]
  split
  · rfl
  · rfl

/-- What arrives is processed or refused, and not both. -/
theorem length_processed_add_refused (e : Event) :
    e.processed.length + e.refused.length = e.quotes.length + e.orders.length := by
  have whole := List.length_eq_length_filter_add (l := e.quotes ++ e.orders) e.replay.accepts
  rw [processed, refused, ← whole, List.length_append]

end Event

/-! ## What an event adds -/

namespace Replay

variable {r r' : Replay} {events : List Event}

/-- An event has added to the counts of a replay what is counted of it. -/
structure Adds (e : Event) (r' : Replay) : Prop where
  processed : r'.ordersProcessed = e.replay.ordersProcessed + .ofNat e.processed.length
  rejected : r'.ordersRejected = e.replay.ordersRejected + .ofNat e.refused.length
  total : r'.orders.orders = e.replay.orders.orders + .ofNat e.processed.length
  volume : r'.orders.volume =
    e.replay.orders.volume + .ofNat (e.processed.map fun o => o.quantity.toNat).sum
  trades : r'.trades.size ≤ e.replay.trades.size + e.processed.length
  ticks : r'.ticksProcessed = e.replay.ticksProcessed + .ofNat e.admitted.length
  latency : r'.latency.size = e.replay.latency.size + e.answered.length
  made : ∀ symbol, r'.made? symbol = (e.replay.made? symbol).map
    (· + .ofNat (e.quotes.countP fun o => o.symbol = symbol))
  known : ∀ o ∈ e.quotes, e.replay.quotes o.symbol = true

/-- Trades are no more than the orders that were accepted. -/
theorem Tried.size_trades {os : List Order} {now : Int64} (h : Tried r r' os now) :
    r'.trades.size ≤ r.trades.size + (os.filter r.accepts).length := by
  obtain ⟨filled, added, within, matched, grown⟩ := h.trades
  have few := within.length_le
  rw [matched.length_eq] at few
  rw [← Array.length_toList, grown, List.length_append, Array.length_toList]
  omega

theorem adds_order (r : Replay) (o : Order) (now : Int64) :
    Adds ⟨r, .order o⟩ (r.submit o now).2 := by
  have tried := r.tried_submit o now
  exact ⟨tried.processed, tried.rejected, tried.total, tried.volume, tried.size_trades,
    tried.ticks.trans (UInt64.add_zero _).symm, congrArg Latency.size tried.latency,
    fun symbol => (tried.made symbol).trans (by simp [Event.quotes]), List.forall_mem_nil _⟩

theorem adds_tick (named : r.Named) (t : Tick) (took : Duration) :
    Adds ⟨r, .tick t⟩ (r.take t took) := by
  have made := made?_take named t took
  have known : ∀ o ∈ r.answers t, r.quotes o.symbol = true := by
    intro o member
    rw [symbol_of_mem_answers named member, quotes_eq_isSome]
    by_contra unknown
    rw [answers_of_none (by simpa using unknown)] at member
    exact absurd member List.not_mem_nil
  cases finite : t.isFinite with
  | false =>
    rw [take_of_not_finite took finite] at made ⊢
    have none := answers_of_not_finite (r := r) finite
    constructor
    case made => exact made
    case known => exact known
    all_goals simp [Event.processed_tick, Event.refused_tick, Event.answered, Event.admitted_tick, none,
      finite]
  | true =>
    have tried := tried_respond (r := r.ticked) finite
    have grown := tried.size_trades
    obtain ⟨processed, rejected, total, volume, -, -, ticks, -⟩ := tried
    -- Neither the count of ticks nor what is noted of the answers makes a difference to what is accepted.
    have accepts : (r.ticked.noted t).accepts = r.accepts := accepts_noted (r := r.ticked) named finite
    have answers : r.ticked.answers t = r.answers t := rfl
    obtain ⟨desks, noted⟩ := r.ticked.noted_eq t
    rw [accepts, noted, answers] at processed rejected total volume grown
    rw [noted] at ticks
    rw [take_eq_respond took finite] at made ⊢
    refine ⟨?_, ?_, ?_, ?_, ?_, ?_, ?_, made, known⟩
    · rw [Event.processed_tick]; exact processed
    · rw [Event.refused_tick]; exact rejected
    · rw [Event.processed_tick]; exact total
    · rw [Event.processed_tick]; exact volume
    · rw [Event.processed_tick]; exact grown
    · rw [Event.admitted_tick, if_pos finite]; exact ticks
    · rw [Event.length_answered_tick r finite]
      split
      · exact Array.size_push _
      · rfl

/-! ## What events add up to -/

/-- The counts of a replay are those of the events of its journal. -/
structure Counted (events : List Event) (r : Replay) : Prop where
  processed : r.ordersProcessed = .ofNat (events.flatMap Event.processed).length
  rejected : r.ordersRejected = .ofNat (events.flatMap Event.refused).length
  total : r.orders.orders = r.ordersProcessed
  volume : r.orders.volume =
    .ofNat ((events.flatMap Event.processed).map fun o => o.quantity.toNat).sum
  trades : r.trades.size ≤ (events.flatMap Event.processed).length
  ticks : r.ticksProcessed = .ofNat (events.flatMap Event.admitted).length
  latency : r.latency.size = (events.flatMap Event.answered).length
  made : ∀ symbol n, r.made? symbol = some n →
    n = .ofNat ((events.flatMap Event.quotes).countP fun o => o.symbol = symbol)
  known : ∀ o ∈ events.flatMap Event.quotes, r.quotes o.symbol = true

theorem length_flatMap_concat {α : Type} (f : Event → List α) (events : List Event) (e : Event) :
    ((events ++ [e]).flatMap f).length = (events.flatMap f).length + (f e).length := by
  rw [List.flatMap_append, List.length_append, List.flatMap_singleton]

theorem Counted.concat {e : Event} (h : Counted events e.replay) (adds : Adds e r') :
    Counted (events ++ [e]) r' := by
  have same : ∀ symbol, r'.quotes symbol = e.replay.quotes symbol := fun symbol => by
    rw [quotes_eq_isSome_made?, quotes_eq_isSome_made?, adds.made, Option.isSome_map]
  constructor
  case processed => rw [adds.processed, h.processed, length_flatMap_concat, UInt64.ofNat_add]
  case rejected => rw [adds.rejected, h.rejected, length_flatMap_concat, UInt64.ofNat_add]
  case total => rw [adds.total, h.total, adds.processed]
  case volume =>
    rw [adds.volume, h.volume, List.flatMap_append, List.map_append, List.sum_append,
      UInt64.ofNat_add, List.flatMap_singleton]
  case trades =>
    rw [length_flatMap_concat]
    exact adds.trades.trans (Nat.add_le_add_right h.trades _)
  case ticks => rw [adds.ticks, h.ticks, length_flatMap_concat, UInt64.ofNat_add]
  case latency => rw [adds.latency, h.latency, length_flatMap_concat]
  case made =>
    intro symbol n made
    rw [adds.made] at made
    obtain ⟨m, before, rfl⟩ := Option.map_eq_some_iff.1 made
    rw [h.made symbol m before, List.flatMap_append, List.countP_append, UInt64.ofNat_add,
      List.flatMap_singleton]
  case known =>
    intro o member
    rw [List.flatMap_append, List.flatMap_singleton] at member
    rw [same]
    rcases List.mem_append.1 member with before | now
    · exact h.known o before
    · exact adds.known o now

theorem counted_elapse (h : Counted events r) (elapsed : Duration) :
    Counted events { r with elapsed } :=
  ⟨h.processed, h.rejected, h.total, h.volume, h.trades, h.ticks, h.latency, h.made, h.known⟩

/-- A quoter that is added made no order, and none was made for its symbol. -/
theorem counted_addQuoter {q : Quoter} (h : Counted events r) (fresh : q.IsFresh)
    (added : r.addQuoter q = .ok r') : Counted events r' := by
  have desk := desk?_addQuoter added
  have quotes := quotes_addQuoter added
  obtain ⟨absent, rfl⟩ := addQuoter_ok added
  constructor
  case made =>
    intro symbol n made
    rw [made?, desk] at made
    split at made
    next here =>
      obtain rfl := Option.some.inj made
      have none : (events.flatMap Event.quotes).countP (fun o => o.symbol = symbol) = 0 := by
        refine List.countP_eq_zero.2 fun o member same => ?_
        have known := h.known o member
        rw [of_decide_eq_true same, here, quotes_eq_isSome, absent] at known
        exact absurd known (by decide)
      rw [none]
      exact fresh.2
    next => exact h.made symbol n made
  case known => exact fun o member => (quotes o.symbol).2 (.inl (h.known o member))
  case processed => exact h.processed
  case rejected => exact h.rejected
  case total => exact h.total
  case volume => exact h.volume
  case trades => exact h.trades
  case ticks => exact h.ticks
  case latency => exact h.latency

/-- A reset leaves nothing to count. -/
theorem counted_reset (r : Replay) : Counted [] r.reset := by
  refine ⟨rfl, rfl, rfl, rfl, le_rfl, rfl, rfl, ?_, List.forall_mem_nil _⟩
  intro symbol n made
  rw [made?, desk?_reset] at made
  cases hd : r.desk? symbol with
  | none => exact absurd made (by simp [hd])
  | some d =>
    rw [hd] at made
    exact (Option.some.inj made).symm

theorem counted_empty (settings : EngineSettings) : Counted [] (empty settings) := by
  refine ⟨rfl, rfl, rfl, rfl, le_rfl, rfl, rfl, ?_, List.forall_mem_nil _⟩
  intro symbol n made
  exact absurd made (by simp [made?, desk?, empty, Table.find?_empty])

theorem counted_new {settings : EngineSettings} {quoters : List QuoterSettings}
    (h : Replay.new settings quoters = .ok r) : Counted [] r :=
  induct_new h (counted_empty settings) fun _ _ _ _ counted => counted_addQuoter counted ⟨rfl, rfl⟩

/-- All orders of events are processed or refused, and not both. -/
theorem length_processed_add_length_refused (events : List Event) :
    (events.flatMap Event.processed).length + (events.flatMap Event.refused).length =
      (events.flatMap Event.quotes).length + (events.flatMap Event.orders).length := by
  induction events with
  | nil => rfl
  | cons e events ih =>
    have first := e.length_processed_add_refused
    simp only [List.flatMap_cons, List.length_append]
    omega

/-- The quoters made the orders of the events, each those for its symbol. -/
theorem Counted.sum_made (h : Counted events r)
    (inRange : ∀ symbol,
      ((events.flatMap Event.quotes).countP fun o => o.symbol = symbol) < UInt64.size) :
    (r.desks.entries.map fun e => e.2.quoter.made.toNat).sum =
      (events.flatMap Event.quotes).length := by
  have made : ∀ e ∈ r.desks.entries, e.2.quoter.made.toNat =
      (((events.flatMap Event.quotes).filter fun o => o.symbol = e.1).map fun _ => 1).sum := by
    intro e member
    have found : r.desk? e.1 = some e.2 := (r.desks.find?_eq_some_iff e.1 e.2).2 member
    rw [h.made e.1 e.2.quoter.made (by rw [made?, found]; rfl),
      UInt64.toNat_ofNat_of_lt' (inRange e.1), List.countP_eq_length_filter]
    simp
  have known : ∀ o ∈ events.flatMap Event.quotes, o.symbol ∈ r.desks.keys := by
    intro o member
    rw [Table.mem_keys]
    exact h.known o member
  calc (r.desks.entries.map fun e => e.2.quoter.made.toNat).sum
      = (r.desks.keys.map fun k =>
          (((events.flatMap Event.quotes).filter fun o => o.symbol = k).map fun _ => 1).sum).sum := by
        rw [List.map_congr_left made, Table.keys, List.map_map]
        rfl
    _ = ((events.flatMap Event.quotes).map fun _ => 1).sum :=
        sum_by_key r.desks.nodup_keys Order.symbol known _
    _ = (events.flatMap Event.quotes).length := by simp

end Replay

/-! ## Journals -/

/-- The order that an operation tries, made by no quoter. -/
def Operation.orders : Operation → List Order
  | order o _ => [o]
  | _ => []

/-- Whether an operation forgets all that happened. -/
def Operation.forgets : Operation → Bool
  | reset => true
  | _ => false

/-- The operations after the last reset, behind those of which none was one. -/
def Operation.sinceReset (since : List Operation) : List Operation → List Operation
  | [] => since
  | op :: ops => sinceReset (if op.forgets then [] else since ++ [op]) ops

namespace Session

open Replay

variable {σ : Type} [Cache.Store σ]

/-- The events of ticks that are taken, as long as less than `budget` has passed since `begun`. -/
def eventsOfTicks (budget : Option Duration) (begun : Duration) :
    List Tick → Session σ → Readings → List Event
  | [], _, _ => []
  | t :: ts, s, w =>
    if isExhausted budget begun w.first then []
    else
      let taken := (s.takeTick t : StateM Readings _) w.later
      ⟨s.replay, .tick t⟩ :: eventsOfTicks budget begun ts taken.1 taken.2

/-- The events of an operation. -/
def events (s : Session σ) : Operation → Readings → List Event
  | .tick t, _ => [⟨s.replay, .tick t⟩]
  | .order o _, _ => [⟨s.replay, .order o⟩]
  | .run ticks budget, w => eventsOfTicks budget w.first ticks s w.later
  | _, _ => []

/-- The journal after operations, which goes on from the events so far and begins anew at a reset. -/
def journal (s : Session σ) (seen : List Event) : List Operation → Readings → List Event
  | [], _ => seen
  | op :: ops, w =>
    let next := s.perform op w
    next.1.journal (if op.forgets then [] else seen ++ s.events op w) ops next.2

/-! ### What a journal holds -/

/-- Events are the ticks and the orders of operations, less some ticks. -/
structure Brings (ops : List Operation) (events : List Event) : Prop where
  ticks : (events.flatMap Event.ticks).Sublist (ops.flatMap Operation.ticks)
  orders : events.flatMap Event.orders = ops.flatMap Operation.orders

theorem brings_nil : Brings [] [] :=
  ⟨.refl _, rfl⟩

theorem Brings.append {ops ops' : List Operation} {events events' : List Event}
    (h : Brings ops events) (h' : Brings ops' events') : Brings (ops ++ ops') (events ++ events') where
  ticks := by
    rw [List.flatMap_append, List.flatMap_append]
    exact h.ticks.append h'.ticks
  orders := by rw [List.flatMap_append, List.flatMap_append, h.orders, h'.orders]

/-- Of the ticks of a run a journal holds those that its budget let through. -/
theorem ticks_eventsOfTicks (budget : Option Duration) (begun : Duration) (ticks : List Tick)
    (s : Session σ) (w : Readings) :
    (eventsOfTicks budget begun ticks s w).flatMap Event.ticks <+: ticks ∧
      (budget = none → (eventsOfTicks budget begun ticks s w).flatMap Event.ticks = ticks) ∧
      (eventsOfTicks budget begun ticks s w).flatMap Event.orders = [] := by
  induction ticks generalizing s w with
  | nil => exact ⟨List.prefix_rfl, fun _ => rfl, rfl⟩
  | cons t ts ih =>
    rw [eventsOfTicks]
    split
    next exhausted =>
      refine ⟨List.nil_prefix, ?_, rfl⟩
      rintro rfl
      exact absurd exhausted (by simp [isExhausted])
    next =>
      obtain ⟨within, whole, none⟩ := ih ((s.takeTick t : StateM Readings _) w.later).1
        ((s.takeTick t : StateM Readings _) w.later).2
      refine ⟨List.cons_prefix_cons.2 ⟨rfl, within⟩, fun untimed => ?_, none⟩
      exact congrArg (t :: ·) (whole untimed)

theorem brings_events (s : Session σ) (op : Operation) (w : Readings) :
    Brings [op] (s.events op w) := by
  cases op with
  | run ticks budget =>
    obtain ⟨within, _, none⟩ := ticks_eventsOfTicks budget w.first ticks s w.later
    refine ⟨?_, none⟩
    rw [List.flatMap_singleton]
    exact within.sublist
  | tick | order | addQuoter | lookUp | reset => exact ⟨.refl _, rfl⟩

theorem ticks_events (s : Session σ) {op : Operation} (untimed : op.IsUntimed) (w : Readings) :
    (s.events op w).flatMap Event.ticks = op.ticks := by
  cases op with
  | run ticks budget => exact (ticks_eventsOfTicks budget w.first ticks s w.later).2.1 untimed
  | tick | order | addQuoter | lookUp | reset => rfl

/-- A journal holds what operations brought since the last reset. -/
theorem brings_journal {seen : List Event} {since : List Operation} (h : Brings since seen)
    (ops : List Operation) (s : Session σ) (w : Readings) :
    Brings (Operation.sinceReset since ops) (s.journal seen ops w) := by
  induction ops generalizing seen since s w with
  | nil => exact h
  | cons op ops ih =>
    rw [journal, Operation.sinceReset]
    split
    · exact ih brings_nil _ _
    · exact ih (h.append (s.brings_events op w)) _ _

/-- Without budgets no tick is cut off. -/
theorem ticks_journal {seen : List Event} {since ops : List Operation}
    (untimed : ∀ op ∈ ops, op.IsUntimed)
    (same : seen.flatMap Event.ticks = since.flatMap Operation.ticks) (s : Session σ) (w : Readings) :
    (s.journal seen ops w).flatMap Event.ticks =
      (Operation.sinceReset since ops).flatMap Operation.ticks := by
  induction ops generalizing seen since s w with
  | nil => exact same
  | cons op ops ih =>
    obtain ⟨first, others⟩ := List.forall_mem_cons.1 untimed
    rw [journal, Operation.sinceReset]
    split
    · exact ih others rfl _ _
    · refine ih others ?_ _ _
      rw [List.flatMap_append, List.flatMap_append, List.flatMap_singleton, same,
        ticks_events s first]

/-! ### What a journal counts -/

theorem counted_takeTicks (budget : Option Duration) (begun : Duration) (ticks : List Tick)
    {s : Session σ} {seen : List Event} (named : s.replay.Named) (h : Counted seen s.replay)
    (w : Readings) :
    Counted (seen ++ eventsOfTicks budget begun ticks s w)
      ((takeTicks budget begun ticks s : StateM Readings _) w).1.replay := by
  induction ticks generalizing s seen w with
  | nil =>
    rw [eventsOfTicks, List.append_nil]
    exact h
  | cons t ts ih =>
    rw [takeTicks_cons, eventsOfTicks]
    split
    next =>
      rw [List.append_nil]
      exact h
    next =>
      have adds := adds_tick named t w.later.first
      have taken := replay_takeTick s t w.later
      have named' : ((s.takeTick t : StateM Readings _) w.later).1.replay.Named := by
        rw [taken]
        exact kept_named.take t _ named
      have counted : Counted (seen ++ [⟨s.replay, .tick t⟩])
          ((s.takeTick t : StateM Readings _) w.later).1.replay := by
        rw [taken]
        exact h.concat adds
      have rest := ih named' counted ((s.takeTick t : StateM Readings _) w.later).2
      rwa [List.append_assoc] at rest

/-- Every operation adds to the counts what it adds to the journal. -/
theorem counted_perform {op : Operation} (fresh : op.IsFresh) {s : Session σ} {seen : List Event}
    (named : s.replay.Named) (h : Counted seen s.replay) (w : Readings) :
    Counted (if op.forgets then [] else seen ++ s.events op w) (s.perform op w).1.replay := by
  cases op with
  | tick t =>
    have adds := adds_tick named t w.first
    change Counted (seen ++ [_]) ((s.takeTick t : StateM Readings _) w).1.replay
    rw [replay_takeTick]
    exact h.concat adds
  | order o now =>
    change Counted (seen ++ [_]) (s.submit o now).2.replay
    rw [replay_submit]
    exact h.concat (adds_order s.replay o now)
  | run ticks budget =>
    exact counted_elapse (counted_takeTicks budget w.first ticks named h w.later) _
  | addQuoter q =>
    change Counted (seen ++ []) ((s.addQuoter q).toOption.getD s).replay
    rw [List.append_nil, replay_addQuoter]
    cases added : s.replay.addQuoter q with
    | error _ => exact h
    | ok r => exact counted_addQuoter h fresh added
  | lookUp symbol =>
    change Counted (seen ++ []) (s.cachedTick symbol).2.replay
    rwa [List.append_nil, replay_cachedTick]
  | reset => exact counted_reset s.replay

theorem counted_after {ops : List Operation} (fresh : ∀ op ∈ ops, op.IsFresh) {s : Session σ}
    {seen : List Event} (named : s.replay.Named) (h : Counted seen s.replay) (w : Readings) :
    Counted (s.journal seen ops w) (s.after ops w).replay := by
  induction ops generalizing s seen w with
  | nil => exact h
  | cons op ops ih =>
    have performed := counted_perform (fresh op List.mem_cons_self) named h w
    have named' : (s.perform op w).1.replay.Named := kept_perform kept_named trivial named w
    exact ih (fun op' member => fresh op' (List.mem_cons_of_mem _ member)) named' performed _

/-- No word that counts events leaves its range. -/
structure InRange (events : List Event) : Prop where
  processed : (events.flatMap Event.processed).length < UInt64.size
  refused : (events.flatMap Event.refused).length < UInt64.size
  volume : ((events.flatMap Event.processed).map fun o => o.quantity.toNat).sum < UInt64.size
  ticks : (events.flatMap Event.admitted).length < UInt64.size
  made : ∀ symbol, ((events.flatMap Event.quotes).countP fun o => o.symbol = symbol) < UInt64.size

/-- **No quote is lost or counted twice.** After any operations the journal holds the ticks and the
orders that they brought since the last reset, less the ticks that a budget cut off. Unless a count
leaves its range, the orders that were processed or refused are as many as all quoters made and those
that none made; the totals are over the processed orders, and trades are no more than these; the ticks
with finite prices are counted, and as many answers are timed as had a desk to give them. -/
theorem counts_balance {settings : Settings} {cache : σ} {s : Session σ}
    (started : start settings cache = .ok s) {ops : List Operation}
    (fresh : ∀ op ∈ ops, op.IsFresh) (w : Readings) :
    let r := (s.after ops w).replay
    let events := s.journal [] ops w
    let asked := Operation.sinceReset [] ops
    (events.flatMap Event.ticks).Sublist (asked.flatMap Operation.ticks) ∧
    ((∀ op ∈ ops, op.IsUntimed) → events.flatMap Event.ticks = asked.flatMap Operation.ticks) ∧
    events.flatMap Event.orders = asked.flatMap Operation.orders ∧
    (InRange events →
      r.ordersProcessed.toNat + r.ordersRejected.toNat =
        (r.desks.entries.map fun e => e.2.quoter.made.toNat).sum +
          (asked.flatMap Operation.orders).length ∧
      r.orders.orders = r.ordersProcessed ∧
      r.ordersProcessed.toNat = (events.flatMap Event.processed).length ∧
      r.orders.volume.toNat =
        ((events.flatMap Event.processed).map fun o => o.quantity.toNat).sum ∧
      r.trades.size ≤ r.ordersProcessed.toNat ∧
      r.ticksProcessed.toNat = (events.flatMap Event.admitted).length ∧
      r.latency.size = (events.flatMap Event.answered).length) := by
  intro r events asked
  have made := (start_ok started).2
  have counted : Counted events r := counted_after fresh (named_new made) (counted_new made) w
  obtain ⟨ticks, orders⟩ : Brings asked events := brings_journal brings_nil ops s w
  refine ⟨ticks, fun untimed => ticks_journal untimed rfl s w, orders, fun inRange => ?_⟩
  have processed : r.ordersProcessed.toNat = (events.flatMap Event.processed).length := by
    rw [counted.processed, UInt64.toNat_ofNat_of_lt' inRange.processed]
  refine ⟨?_, counted.total, processed, ?_, ?_, ?_, counted.latency⟩
  · rw [processed, counted.rejected, UInt64.toNat_ofNat_of_lt' inRange.refused,
      length_processed_add_length_refused, counted.sum_made inRange.made, ← orders]
  · rw [counted.volume, UInt64.toNat_ofNat_of_lt' inRange.volume]
  · rw [processed]
    exact counted.trades
  · rw [counted.ticks, UInt64.toNat_ofNat_of_lt' inRange.ticks]

/-- Since a reset two ticks are answered with two orders each, and one order is tried that no quoter
made. -/
theorem counts_balance_sample :
    (∀ op ∈ Sample.operations, op.IsFresh) ∧
    InRange (Sample.session.journal [] Sample.operations Sample.clock) ∧
    ∃ r, (Sample.session.after Sample.operations Sample.clock).replay = r ∧
      r.ordersProcessed.toNat + r.ordersRejected.toNat =
        (r.desks.entries.map fun e => e.2.quoter.made.toNat).sum + 1 ∧
      r.ordersProcessed.toNat = 5 ∧ r.orders.volume.toNat = 407 ∧ r.trades.size ≤ 5 ∧
      r.ticksProcessed.toNat = 2 ∧ r.latency.size = 2 := by
  have fresh : ∀ op ∈ Sample.operations, op.IsFresh := by
    simp [Sample.operations, Operation.IsFresh, Quoter.IsFresh, Quoter.new]
  have quantities : ((Sample.session.journal [] Sample.operations Sample.clock).flatMap
      Event.processed).map (fun o => o.quantity.toNat) = [100, 100, 100, 100, 7] := by
    decide +kernel
  have five := congrArg List.length quantities
  rw [List.length_map] at five
  have refused : ((Sample.session.journal [] Sample.operations Sample.clock).flatMap
      Event.refused).length = 0 := by
    decide +kernel
  have admitted : ((Sample.session.journal [] Sample.operations Sample.clock).flatMap
      Event.admitted).length = 2 := by
    decide +kernel
  have answered : ((Sample.session.journal [] Sample.operations Sample.clock).flatMap
      Event.answered).length = 2 := by
    decide +kernel
  have quotes : ((Sample.session.journal [] Sample.operations Sample.clock).flatMap
      Event.quotes).length = 4 := by
    decide +kernel
  have direct : ((Operation.sinceReset [] Sample.operations).flatMap Operation.orders).length = 1 := by
    decide
  have inRange : InRange (Sample.session.journal [] Sample.operations Sample.clock) := by
    refine ⟨by rw [five]; decide, by rw [refused]; decide, by rw [quantities]; decide,
      by rw [admitted]; decide, fun symbol => ?_⟩
    refine Nat.lt_of_le_of_lt List.countP_le_length ?_
    rw [quotes]
    decide
  obtain ⟨-, -, -, counts⟩ := counts_balance Sample.started fresh Sample.clock
  obtain ⟨sum, -, processed, volume, trades, ticks, latency⟩ := counts inRange
  rw [direct] at sum
  rw [five] at processed
  rw [quantities] at volume
  rw [processed] at trades
  exact ⟨fresh, inRange, _, rfl, sum, processed, volume, trades, ticks.trans admitted,
    latency.trans answered⟩

end Session

end MarketMaker
