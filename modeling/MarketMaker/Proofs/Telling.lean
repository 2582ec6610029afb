import MarketMaker.Proofs.Restart

/-!
# What the cache is told

A session tells its cache of ticks and trades, note by note (`Cache.Note`). Which notes these are can
be read off the replay alone: a tick with finite prices is one, and every trade is one, under its
number. So the state of a cache is what telling it these notes makes of it
(`Session.cache_takeTick`, `Session.cache_submit`), and a cache that could not be reached is left
alone (`Session.cache_perform_of_unreachable`).
-/

namespace MarketMaker

namespace Cache

/-- Fields to keep under a key, for some seconds. -/
structure Note where
  key : String
  fields : Fields
  seconds : UInt64

variable {σ : Type} [Store σ]

/-- Tells a store of notes one after the other, whatever comes of it. -/
def tell (c : σ) (notes : List Note) : σ :=
  notes.foldl (fun c n => (Store.set c n.key n.fields (.ofSeconds n.seconds)).2) c

end Cache

namespace CacheSettings

/-- What is noted of a tick. -/
def tickNote (e : CacheSettings) (t : Tick) : Cache.Note :=
  ⟨Cache.tickKey t.symbol, Cache.tickFields t, e.tickExpiry⟩

/-- What is noted of a trade and its number. -/
def tradeNote (e : CacheSettings) (n : Nat) (t : Trade) : Cache.Note :=
  ⟨Cache.tradeKey n, Cache.tradeFields t, e.tradeExpiry⟩

/-- What is noted of trades, which are numbered from `n`. -/
def tradeNotes (e : CacheSettings) (n : Nat) : List Trade → List Cache.Note
  | [] => []
  | t :: ts => e.tradeNote n t :: e.tradeNotes (n + 1) ts

end CacheSettings

/-! ## Trades are only added -/

namespace Replay

/-- What was traded from one state to a later one. -/
def tradesSince (r : Replay) (known : Nat) : List Trade :=
  (r.trades.extract known).toList

theorem trades_submit (r : Replay) (o : Order) (now : Int64) :
    ∃ news, (r.submit o now).2.trades.toList = r.trades.toList ++ news := by
  rcases r.submit_cases o now with ⟨_, _, hs⟩ | ⟨_, _, _, _, hs⟩ | ⟨_, t, _, _, _, hs⟩
  · rw [hs]
    exact ⟨[], (List.append_nil _).symm⟩
  · rw [hs]
    exact ⟨[], (List.append_nil _).symm⟩
  · rw [hs]
    exact ⟨[t], Array.toList_push⟩

theorem trades_submitAll (r : Replay) (orders : List Order) (now : Int64) :
    ∃ news, (r.submitAll orders now).trades.toList = r.trades.toList ++ news := by
  refine kept_submitAll (P := fun r' => ∃ news, r'.trades.toList = r.trades.toList ++ news) ?_ _ _
    ⟨[], (List.append_nil _).symm⟩
  rintro r' o now ⟨before, h⟩
  obtain ⟨news, h'⟩ := trades_submit r' o now
  exact ⟨before ++ news, by rw [h', h, List.append_assoc]⟩

theorem trades_respond (r : Replay) (t : Tick) :
    ∃ news, (r.respond t).trades.toList = r.trades.toList ++ news := by
  cases hd : r.desk? t.symbol with
  | none =>
    rw [respond_of_none hd]
    exact ⟨[], (List.append_nil _).symm⟩
  | some d =>
    rw [respond_of_desk hd]
    exact trades_submitAll (r.setDesk t.symbol _) _ _

theorem trades_take (r : Replay) (t : Tick) (took : Duration) :
    ∃ news, (r.take t took).trades.toList = r.trades.toList ++ news := by
  cases hf : t.isFinite with
  | false =>
    rw [take_of_not_finite took hf]
    exact ⟨[], (List.append_nil _).symm⟩
  | true =>
    rw [take_of_finite took hf]
    simp only
    split
    · exact trades_respond { r with ticksProcessed := r.ticksProcessed + 1 } t
    · exact ⟨[], (List.append_nil _).symm⟩

/-- Trades are the ones there were before, and those since. -/
theorem tradesSince_of_append {r r' : Replay} {news : List Trade}
    (h : r'.trades.toList = r.trades.toList ++ news) : r'.tradesSince r.trades.size = news := by
  have whole : (r'.trades.extract r.trades.size).toList = r'.trades.toList.drop r.trades.size := by
    rw [Array.toList_extract, List.extract_eq_take_drop]
    exact List.take_of_length_le (by simp)
  rw [tradesSince, whole, h, ← Array.length_toList, List.drop_left]

theorem tradesSince_self (r : Replay) : r.tradesSince r.trades.size = [] :=
  tradesSince_of_append (List.append_nil _).symm

end Replay

/-! ## What a session tells -/

namespace Session

variable {σ : Type} [Cache.Store σ]

theorem cache_rememberTrades (s : Session σ) (n : Nat) (ts : List Trade) :
    (s.rememberTrades n ts).cache = Cache.tell s.cache (s.expiry.tradeNotes n ts) := by
  induction ts generalizing s n with
  | nil => rfl
  | cons t ts ih =>
    rw [rememberTrades, ih]
    rfl

/-- Of a tick that is admitted the cache is told. -/
theorem cache_admitted (s : Session σ) (t : Tick) :
    (s.admitted t).cache =
      if s.reachable then Cache.tell s.cache [s.expiry.tickNote t] else s.cache := by
  unfold admitted rememberTick
  split
  · rfl
  · rfl

theorem cache_rememberSince (s : Session σ) (known : Nat) :
    (s.rememberSince known).cache =
      if s.reachable then
        Cache.tell s.cache (s.expiry.tradeNotes (known + 1) (s.replay.tradesSince known))
      else s.cache := by
  unfold rememberSince
  split
  · exact cache_rememberTrades ..
  · rfl

/-- Of an order the cache is told if it fills. -/
theorem cache_submit (s : Session σ) (o : Order) (now : Int64) :
    (s.submit o now).2.cache =
      if s.reachable then
        Cache.tell s.cache (s.expiry.tradeNotes (s.replay.trades.size + 1)
          ((s.replay.submit o now).2.tradesSince s.replay.trades.size))
      else s.cache :=
  cache_rememberSince { s with replay := (s.replay.submit o now).2 } s.replay.trades.size

/-- Of the answer to a tick the cache is told trade by trade. -/
theorem cache_respond (s : Session σ) (t : Tick) :
    (s.respond t).cache =
      if s.reachable then
        Cache.tell s.cache (s.expiry.tradeNotes (s.replay.trades.size + 1)
          ((s.replay.respond t).tradesSince s.replay.trades.size))
      else s.cache :=
  cache_rememberSince { s with replay := s.replay.respond t } s.replay.trades.size

/-- Of a tick that is accepted the cache is told, and then of the trades in answer to it. -/
theorem cache_takeTick (s : Session σ) (t : Tick) (w : Readings) :
    ((s.takeTick t : StateM Readings _) w).1.cache =
      if s.reachable && t.isFinite then
        Cache.tell s.cache (s.expiry.tickNote t :: s.expiry.tradeNotes (s.replay.trades.size + 1)
          ((s.replay.take t w.first).tradesSince s.replay.trades.size))
      else s.cache := by
  cases finite : t.isFinite with
  | false =>
    rw [takeTick_of_not_finite s finite, Bool.and_false]
    rfl
  | true =>
    have terms := sameTerms_admitted s t
    have taken := Replay.take_of_finite (r := s.replay) w.first finite
    change _ = if s.replay.quotes t.symbol then _ else _ at taken
    rw [takeTick_of_finite s finite, taken, Bool.and_true]
    by_cases quoted : s.replay.quotes t.symbol = true
    · rw [if_pos quoted, if_pos quoted]
      change ((s.admitted t).respond t).cache = _
      rw [cache_respond, cache_admitted, terms.reachable, terms.expiry, replay_admitted]
      cases s.reachable with
      | true => rfl
      | false => rfl
    · rw [if_neg quoted, if_neg quoted]
      change (s.admitted t).cache = if s.reachable then Cache.tell s.cache
        (s.expiry.tickNote t :: s.expiry.tradeNotes _ (s.replay.tradesSince _)) else s.cache
      rw [cache_admitted, Replay.tradesSince_self]
      rfl

/-! ## A cache that could not be reached -/

theorem cache_takeTicks_of_unreachable (budget : Option Duration) (begun : Duration)
    (ticks : List Tick) {s : Session σ} (h : s.reachable = false) (w : Readings) :
    ((takeTicks budget begun ticks s : StateM Readings _) w).1.cache = s.cache := by
  induction ticks generalizing s w with
  | nil => rfl
  | cons t ts ih =>
    rw [takeTicks_cons]
    split
    · rfl
    · have still := (sameTerms_takeTick s t w.later).reachable.trans h
      rw [ih still, cache_takeTick, h]
      rfl

/-- A cache that could not be reached is never told of anything, nor asked. -/
theorem cache_perform_of_unreachable {s : Session σ} (h : s.reachable = false) (op : Operation)
    (w : Readings) : (s.perform op w).1.cache = s.cache := by
  cases op with
  | addQuoter q =>
    change ((s.addQuoter q).toOption.getD s).cache = s.cache
    unfold addQuoter
    cases s.replay.addQuoter q with
    | error _ => rfl
    | ok _ => rfl
  | tick t =>
    change ((s.takeTick t : StateM Readings _) w).1.cache = s.cache
    rw [cache_takeTick, h]
    rfl
  | order o now =>
    change (s.submit o now).2.cache = s.cache
    rw [cache_submit, h]
    rfl
  | run ticks budget => exact cache_takeTicks_of_unreachable budget w.first ticks h w.later
  | lookUp symbol =>
    change (s.cachedTick symbol).2.cache = s.cache
    rw [cachedTick, h]
    rfl
  | reset => rfl

theorem cache_after_of_unreachable {s : Session σ} (h : s.reachable = false) (ops : List Operation)
    (w : Readings) : (s.after ops w).cache = s.cache := by
  induction ops generalizing s w with
  | nil => rfl
  | cons op ops ih =>
    have still := (sameTerms_perform s op w).reachable.trans h
    rw [after_cons, ih still, cache_perform_of_unreachable h]

end Session

end MarketMaker
