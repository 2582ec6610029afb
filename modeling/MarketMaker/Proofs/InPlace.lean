import MarketMaker.Proofs.Telling

/-!
# Trades that are told one by one

A session tells its cache of the trades that answer a tick when all quotes are tried. Here they are told
as they are made: each trade is booked, counted and told before the next order is tried. It is the same
for every cache and from every state: for an order (`Session.tryInPlace_eq_submit`), for a list of orders
(`Session.tryAllInPlace_eq`) and for a whole tick, from its prices to the time that the answer took
(`Session.processTick_eq_onTick`).
-/

namespace MarketMaker.Session

variable {σ : Type} [Cache.Store σ]

/-! ## The loop -/

/-- Books a trade, and tells the cache of it under its number if it could be reached. -/
def bookInPlace (s : Session σ) (d : Desk) (t : Trade) : Session σ :=
  let booked := { s with replay := s.replay.book d t }
  if booked.reachable then
    booked.remember (Cache.tradeKey booked.replay.trades.size) (Cache.tradeFields t)
      booked.expiry.tradeExpiry
  else booked

/-- Tries an order at some time, and tells the cache of its trade at once. -/
def tryInPlace (s : Session σ) (o : Order) (now : Int64) :
    Except OrderFault (Option Trade) × Session σ :=
  match Replay.orderFault? o with
  | some fault => (.error fault, { s with replay := s.replay.reject })
  | none =>
    match s.replay.desk? o.symbol with
    | none => (.error (.unquoted o.id o.symbol), { s with replay := s.replay.reject })
    | some d =>
      let counted := { s with replay := s.replay.count o (d.valuePrice o) }
      match d.trade? counted.replay.settings o now with
      | none => (.ok none, counted)
      | some t => (.ok (some t), counted.bookInPlace d t)

/-- Tries orders one after the other, whatever becomes of each. -/
def tryAllInPlace (s : Session σ) (orders : List Order) (now : Int64) : Session σ :=
  orders.foldl (fun s o => (s.tryInPlace o now).2) s

/-- Takes a tick from its prices to the time that the answer took. -/
def processTick (s : Session σ) (t : Tick) (took : Duration) : Except TickFault (Session σ) :=
  if !t.isFinite then .error (.nonFinite t.symbol t.bid t.ask)
  else
    let counted := { s with
      replay := { s.replay with ticksProcessed := s.replay.ticksProcessed + 1 } }
    let told :=
      if counted.reachable then
        counted.remember (Cache.tickKey t.symbol) (Cache.tickFields t) counted.expiry.tickExpiry
      else counted
    match told.replay.desk? t.symbol with
    | none => .ok told
    | some d =>
      let (orders, d) := (d.observe t).quote t
      let quoted := { told with replay := told.replay.setDesk t.symbol d }
      .ok ((quoted.tryAllInPlace orders t.timestamp).timed took)

/-! ## What is told together -/

theorem rememberTrades_append (s : Session σ) (n : Nat) (ts us : List Trade) :
    s.rememberTrades n (ts ++ us) = (s.rememberTrades n ts).rememberTrades (n + ts.length) us := by
  induction ts generalizing s n with
  | nil => rfl
  | cons t ts ih =>
    rw [List.cons_append, rememberTrades, ih, List.length_cons, rememberTrades,
      Nat.add_right_comm, Nat.add_assoc]

/-- What is told of trades does not hang on the replay. -/
theorem rememberTrades_replay (s : Session σ) (r : Replay) (n : Nat) (ts : List Trade) :
    { s.rememberTrades n ts with replay := r } = { s with replay := r }.rememberTrades n ts := by
  induction ts generalizing s n with
  | nil => rfl
  | cons t ts ih => exact ih ..

/-- The session at a later state of its replay, with the cache told of the trades since. -/
def catchUp (s : Session σ) (r : Replay) : Session σ :=
  { s with replay := r }.rememberSince s.replay.trades.size

theorem catchUp_eq {s : Session σ} {r : Replay} {news : List Trade}
    (since : r.trades.toList = s.replay.trades.toList ++ news) :
    s.catchUp r =
      if s.reachable then { s with replay := r }.rememberTrades (s.replay.trades.size + 1) news
      else { s with replay := r } := by
  rw [← Replay.tradesSince_of_append since]
  rfl

theorem catchUp_of_same (s : Session σ) (r : Replay) (same : r.trades = s.replay.trades) :
    s.catchUp r = { s with replay := r } := by
  have nothing : r.trades.toList = s.replay.trades.toList ++ [] := by rw [same, List.append_nil]
  rw [catchUp_eq nothing]
  exact ite_self _

/-- The cache is told of the same trades at once or in two parts. -/
theorem catchUp_catchUp {s : Session σ} {r r' : Replay} {news more : List Trade}
    (first : r.trades.toList = s.replay.trades.toList ++ news)
    (second : r'.trades.toList = r.trades.toList ++ more) :
    (s.catchUp r).catchUp r' = s.catchUp r' := by
  have size : r.trades.size = s.replay.trades.size + news.length := by
    rw [← Array.length_toList, first, List.length_append, Array.length_toList]
  have all : r'.trades.toList = s.replay.trades.toList ++ (news ++ more) := by
    rw [second, first, List.append_assoc]
  rw [catchUp_eq first, catchUp_eq all]
  by_cases reached : s.reachable = true
  · have terms := sameTerms_rememberTrades { s with replay := r } (s.replay.trades.size + 1) news
    have second : r'.trades.toList = ({ s with replay := r }.rememberTrades
        (s.replay.trades.size + 1) news).replay.trades.toList ++ more := by
      rw [replay_rememberTrades, second]
    rw [if_pos reached, if_pos reached, catchUp_eq second, if_pos (terms.reachable.trans reached),
      rememberTrades_replay, replay_rememberTrades, rememberTrades_append, Nat.add_right_comm, ← size]
  · rw [if_neg reached, if_neg reached]
    exact (catchUp_eq (s := { s with replay := r }) second).trans (if_neg reached)

/-! ## The same in the end -/

/-- A trade that is told when it is booked is the one that is told afterwards. -/
theorem bookInPlace_eq (s : Session σ) (d : Desk) (t : Trade) :
    s.bookInPlace d t = s.catchUp (s.replay.book d t) := by
  have size : (s.replay.book d t).trades.size = s.replay.trades.size + 1 := Array.size_push ..
  have one : (s.replay.book d t).trades.toList = s.replay.trades.toList ++ [t] := Array.toList_push
  rw [catchUp_eq one, bookInPlace]
  simp only [size]
  rfl

/-- **An order is tried as by `submit`**, from any state and beside any cache. -/
theorem tryInPlace_eq_submit (s : Session σ) (o : Order) (now : Int64) :
    s.tryInPlace o now = s.submit o now := by
  change _ = ((s.replay.submit o now).1, s.catchUp (s.replay.submit o now).2)
  unfold tryInPlace Replay.submit
  cases Replay.orderFault? o with
  | some fault =>
    exact congrArg (Prod.mk _) (catchUp_of_same s s.replay.reject rfl).symm
  | none =>
    cases s.replay.desk? o.symbol with
    | none => exact congrArg (Prod.mk _) (catchUp_of_same s s.replay.reject rfl).symm
    | some d =>
      change (match d.trade? s.replay.settings o now with | none => _ | some t => _) = _
      simp only
      cases d.trade? s.replay.settings o now with
      | none =>
        exact congrArg (Prod.mk _) (catchUp_of_same s (s.replay.count o (d.valuePrice o)) rfl).symm
      | some t =>
        exact congrArg (Prod.mk _)
          (bookInPlace_eq { s with replay := s.replay.count o (d.valuePrice o) } d t)

/-- **Orders are tried as by `submitAll`**, the trades of which are told afterwards. -/
theorem tryAllInPlace_eq (s : Session σ) (orders : List Order) (now : Int64) :
    s.tryAllInPlace orders now = s.catchUp (s.replay.submitAll orders now) := by
  induction orders generalizing s with
  | nil => exact (catchUp_of_same s s.replay rfl).symm
  | cons o os ih =>
    obtain ⟨news, first⟩ := Replay.trades_submit s.replay o now
    obtain ⟨more, second⟩ := Replay.trades_submitAll (s.replay.submit o now).2 os now
    change (s.tryInPlace o now).2.tryAllInPlace os now = _
    rw [tryInPlace_eq_submit, ih, replay_submit]
    exact catchUp_catchUp first second

/-- A tick is answered as by `respond`, from any state and beside any cache. -/
theorem tryAllInPlace_eq_respond {s : Session σ} {t : Tick} {d : Desk}
    (hd : s.replay.desk? t.symbol = some d) :
    { s with replay := s.replay.setDesk t.symbol ((d.observe t).quote t).2 }.tryAllInPlace
      ((d.observe t).quote t).1 t.timestamp = s.respond t := by
  rw [tryAllInPlace_eq]
  change _ = s.catchUp (s.replay.respond t)
  rw [Replay.respond_of_desk hd]
  rfl

/-- **A tick is taken as by `onTick`**, from any state and beside any cache. -/
theorem processTick_eq_onTick (s : Session σ) (t : Tick) (took : Duration) :
    s.processTick t took = s.onTick t took := by
  unfold processTick onTick accept Replay.accept
  cases finite : t.isFinite with
  | false => rfl
  | true =>
    change (match (s.admitted t).replay.desk? t.symbol with | none => _ | some d => _) =
      Except.ok (if (s.admitted t).replay.quotes t.symbol then
        ((s.admitted t).respond t).timed took else s.admitted t)
    rw [Replay.quotes_eq_isSome]
    cases hd : (s.admitted t).replay.desk? t.symbol with
    | none => rfl
    | some d => exact congrArg (fun s => Except.ok (s.timed took)) (tryAllInPlace_eq_respond hd)

end MarketMaker.Session
