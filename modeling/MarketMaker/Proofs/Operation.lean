import MarketMaker.Proofs.Room

/-!
# Operations

What can be asked of a session, as data, and what a session becomes when a list of operations is
performed one after the other. An operation that fails leaves the session as it was. The clock is
any sequence of readings, so what is shown of a session holds however long the answers take and
wherever a budget ends a run.

`Replay.Kept` lists what the operations can do to a replay, step by step: a property that each step
keeps holds after every list of operations (`Session.kept_after`).
-/

namespace MarketMaker

/-- What a clock shows, reading by reading. -/
def Readings : Type := Nat → Duration

namespace Readings

/-- The reading that comes first. -/
def first (w : Readings) : Duration := w 0

/-- The readings after the first. -/
def later (w : Readings) : Readings := fun n => w (n + 1)

end Readings

/-- A clock that shows given readings. How long work took is a reading as well. -/
instance : Clock (StateM Readings) where
  now w := (w.first, w.later)
  time work w := ((work (), w.first), w.later)

/-- What can be asked of a session. -/
inductive Operation where
  /-- Adds a desk. -/
  | addQuoter (q : Quoter)
  /-- Takes a tick. -/
  | tick (t : Tick)
  /-- Tries an order that no quoter made. -/
  | order (o : Order) (now : Int64)
  /-- Runs ticks, within a budget of time if there is one. -/
  | run (ticks : List Tick) (budget : Option Duration)
  /-- Looks up a symbol's latest tick in the cache. -/
  | lookUp (symbol : String)
  /-- Forgets all that happened. -/
  | reset

/-- A quoter that holds nothing and has made no order. -/
def Quoter.IsFresh (q : Quoter) : Prop :=
  q.position = 0 ∧ q.made = 0

/-- Quoters are added before they trade. -/
def Operation.IsFresh : Operation → Prop
  | addQuoter q => q.IsFresh
  | _ => True

/-- Nothing trades but what the quoters quote, and no quoter is added. -/
def Operation.IsDriven : Operation → Prop
  | addQuoter _ => False
  | order _ _ => False
  | _ => True

/-- The symbol for which an operation adds a desk. -/
def Operation.added? : Operation → Option String
  | addQuoter q => some q.symbol
  | _ => none

/-- The symbol that an operation is about, if it is a tick or an order. -/
def Operation.subject? : Operation → Option String
  | tick t => some t.symbol
  | order o _ => some o.symbol
  | _ => none

/-- A tick of a symbol or an order for it. -/
def Operation.concerns (symbol : String) (op : Operation) : Bool :=
  op.subject? = some symbol

/-- The symbols that settings quote, and those that operations add where there can be room for their
windows. -/
def Settings.registered (s : Settings) (ops : List Operation) : List String :=
  s.quoters.map QuoterSettings.symbol ++
    if s.engine.volatility.HasRoom then ops.filterMap Operation.added? else []

namespace Session

variable {σ : Type} [Cache.Store σ]

/-- Performs an operation. A quoter for which there is no room would break the program off; here it is
left out, as is one that is refused. -/
def perform (s : Session σ) : Operation → StateM Readings (Session σ)
  | .addQuoter q => pure ((s.addQuoter q).toOption.getD s)
  | .tick t => s.takeTick t
  | .order o now => pure (s.submit o now).2
  | .run ticks budget => s.runBy ticks budget
  | .lookUp symbol => pure (s.cachedTick symbol).2
  | .reset => pure s.reset

/-- The session after operations, by a clock. -/
def after (s : Session σ) : List Operation → Readings → Session σ
  | [], _ => s
  | op :: ops, w =>
    let next := s.perform op w
    next.1.after ops next.2

theorem after_cons (s : Session σ) (op : Operation) (ops : List Operation) (w : Readings) :
    s.after (op :: ops) w = (s.perform op w).1.after ops (s.perform op w).2 := rfl

/-! ## The cache makes no difference to the replay -/

@[simp] theorem replay_remember (s : Session σ) (key : String) (fields : Cache.Fields)
    (seconds : UInt64) : (s.remember key fields seconds).replay = s.replay := rfl

@[simp] theorem replay_rememberTick (s : Session σ) (t : Tick) :
    (s.rememberTick t).replay = s.replay := by
  unfold rememberTick
  split <;> simp

@[simp] theorem replay_rememberTrades (s : Session σ) (n : Nat) (ts : List Trade) :
    (s.rememberTrades n ts).replay = s.replay := by
  induction ts generalizing s n with
  | nil => rfl
  | cons t ts ih => rw [rememberTrades, ih, replay_remember]

@[simp] theorem replay_rememberSince (s : Session σ) (known : Nat) :
    (s.rememberSince known).replay = s.replay := by
  unfold rememberSince
  split <;> simp

@[simp] theorem replay_respond (s : Session σ) (t : Tick) :
    (s.respond t).replay = s.replay.respond t := by
  simp [respond]

@[simp] theorem replay_submit (s : Session σ) (o : Order) (now : Int64) :
    (s.submit o now).2.replay = (s.replay.submit o now).2 := by
  simp [submit]

@[simp] theorem replay_cachedTick (s : Session σ) (symbol : String) :
    (s.cachedTick symbol).2.replay = s.replay := by
  unfold cachedTick
  split <;> rfl

end Session

/-! ## Ticks -/

/-- The replay after a tick, the same if the tick is not accepted. -/
def Replay.take (r : Replay) (t : Tick) (took : Duration) : Replay :=
  (r.onTick t took).toOption.getD r

theorem Replay.take_of_finite {r : Replay} {t : Tick} (took : Duration) (h : t.isFinite = true) :
    r.take t took =
      let r := { r with ticksProcessed := r.ticksProcessed + 1 }
      if r.quotes t.symbol then (r.respond t).timed took else r := by
  simp [take, onTick, accept, h, Except.map, Except.toOption]

theorem Replay.take_of_not_finite {r : Replay} {t : Tick} (took : Duration)
    (h : t.isFinite = false) : r.take t took = r := by
  simp [take, onTick, accept, h, Except.map, Except.toOption]

namespace Session

variable {σ : Type} [Cache.Store σ]

/-- A tick whose prices are not finite leaves a session as it was, and its cache and the clock too. -/
theorem takeTick_of_not_finite (s : Session σ) {t : Tick} (h : t.isFinite = false) (w : Readings) :
    (s.takeTick t : StateM Readings _) w = (s, w) := by
  unfold takeTick accept
  simp only [Replay.accept, h, Bool.false_eq_true, if_false, Except.map]
  rfl

/-- The session once a tick is admitted and the cache was told of it. -/
def admitted (s : Session σ) (t : Tick) : Session σ :=
  { s with
    replay := { s.replay with ticksProcessed := s.replay.ticksProcessed + 1 } }.rememberTick t

@[simp] theorem replay_admitted (s : Session σ) (t : Tick) :
    (s.admitted t).replay = { s.replay with ticksProcessed := s.replay.ticksProcessed + 1 } :=
  replay_rememberTick ..

/-- Any other is admitted, and answered if its symbol has a desk. The answer takes the first reading as
its time. -/
theorem takeTick_of_finite (s : Session σ) {t : Tick} (h : t.isFinite = true) (w : Readings) :
    (s.takeTick t : StateM Readings _) w =
      if s.replay.quotes t.symbol then (((s.admitted t).respond t).timed w.first, w.later)
      else (s.admitted t, w) := by
  have quoted : Replay.quotes { s.replay with ticksProcessed := s.replay.ticksProcessed + 1 }
    t.symbol = s.replay.quotes t.symbol := rfl
  unfold takeTick accept
  simp only [Replay.accept, h, if_true, Except.map, replay_rememberTick, quoted]
  split
  · rfl
  · rfl

theorem replay_takeTick (s : Session σ) (t : Tick) (w : Readings) :
    ((s.takeTick t : StateM Readings _) w).1.replay = s.replay.take t w.first := by
  cases h : t.isFinite with
  | false => rw [takeTick_of_not_finite s h, Replay.take_of_not_finite w.first h]
  | true =>
    rw [takeTick_of_finite s h, Replay.take_of_finite w.first h]
    change _ = if s.replay.quotes t.symbol then _ else _
    split
    · rw [timed, replay_respond, replay_admitted]
    · rw [replay_admitted]

end Session

/-! ## What every operation keeps -/

/-- A property of replays that each step of the allowed operations keeps. -/
structure Replay.Kept (allowed : Operation → Prop) (P : Replay → Prop) : Prop where
  accept : ∀ r, P r → P { r with ticksProcessed := r.ticksProcessed + 1 }
  respond : ∀ r t, P r → P (r.respond t)
  timed : ∀ r took, P r → P (r.timed took)
  elapse : ∀ r elapsed, P r → P { r with elapsed := elapsed }
  addQuoter : ∀ q, allowed (.addQuoter q) → ∀ r r', P r → r.addQuoter q = .ok r' → P r'
  submit : ∀ o now, allowed (.order o now) → ∀ r, P r → P (r.submit o now).2
  reset : allowed .reset → ∀ r, P r → P r.reset

section Kept

variable {σ : Type} [Cache.Store σ] {allowed : Operation → Prop} {P : Replay → Prop}

theorem Replay.Kept.take (k : Replay.Kept allowed P) {r : Replay} (t : Tick) (took : Duration)
    (h : P r) : P (r.take t took) := by
  cases hf : t.isFinite with
  | false => rwa [Replay.take_of_not_finite took hf]
  | true =>
    rw [Replay.take_of_finite took hf]
    have accepted := k.accept r h
    simp only
    split
    · exact k.timed _ took (k.respond _ t accepted)
    · exact accepted

theorem Session.kept_takeTicks (k : Replay.Kept allowed P) (budget : Option Duration)
    (begun : Duration) (ticks : List Tick) {s : Session σ} (h : P s.replay) (w : Readings) :
    P ((takeTicks budget begun ticks s : StateM Readings _) w).1.replay := by
  induction ticks generalizing s w with
  | nil => exact h
  | cons t ts ih =>
    change P ((if budget.any fun b => b.nanoseconds ≤ (begun.between w.first).nanoseconds then
      (pure s : StateM Readings _) else
        (s.takeTick t : StateM Readings _) >>= takeTicks budget begun ts) w.later).1.replay
    split
    · exact h
    · have taken : P ((s.takeTick t : StateM Readings _) w.later).1.replay := by
        rw [replay_takeTick]
        exact k.take t _ h
      exact ih taken _

theorem Session.kept_runBy (k : Replay.Kept allowed P) (ticks : List Tick)
    (budget : Option Duration) {s : Session σ} (h : P s.replay) (w : Readings) :
    P ((s.runBy ticks budget : StateM Readings _) w).1.replay :=
  k.elapse _ _ (kept_takeTicks k budget w.first ticks h w.later)

omit [Cache.Store σ] in
theorem Session.kept_addQuoter {q : Quoter} (k : Replay.Kept allowed P)
    (ha : allowed (.addQuoter q)) {s : Session σ} (h : P s.replay) :
    P ((s.addQuoter q).toOption.getD s).replay := by
  unfold addQuoter
  cases added : s.replay.addQuoter q with
  | error _ => exact h
  | ok r => exact k.addQuoter q ha _ r h added

/-- What each step keeps, every operation keeps. -/
theorem Session.kept_perform (k : Replay.Kept allowed P) {op : Operation} (ha : allowed op)
    {s : Session σ} (h : P s.replay) (w : Readings) : P (s.perform op w).1.replay := by
  cases op with
  | addQuoter q => exact kept_addQuoter k ha h
  | tick t =>
    change P ((s.takeTick t : StateM Readings _) w).1.replay
    rw [replay_takeTick]
    exact k.take t _ h
  | order o now =>
    change P (s.submit o now).2.replay
    rw [replay_submit]
    exact k.submit o now ha _ h
  | run ticks budget => exact kept_runBy k ticks budget h w
  | lookUp symbol =>
    change P (s.cachedTick symbol).2.replay
    rwa [replay_cachedTick]
  | reset => exact k.reset ha _ h

/-- What each step keeps holds after every list of operations. -/
theorem Session.kept_after (k : Replay.Kept allowed P) {ops : List Operation}
    (ha : ∀ op ∈ ops, allowed op) {s : Session σ} (h : P s.replay) (w : Readings) :
    P (s.after ops w).replay := by
  induction ops generalizing s w with
  | nil => exact h
  | cons op ops ih =>
    exact ih (fun op' member => ha op' (List.mem_cons_of_mem _ member))
      (kept_perform k (ha op List.mem_cons_self) h w) _

end Kept

/-! ## A small run -/

namespace Sample

/-- Three quoters: one with room for half a lot, one with the standard room, one with none. -/
def settings : Settings :=
  { quoters := [{ symbol := "A", maxPosition := 50 }, { symbol := "B" },
      { symbol := "C", maxPosition := 0 }] }

/-- A tick so narrow that both quotes are within the tolerance of the touch. -/
def tick (symbol : String) : Tick where
  symbol := symbol
  bid := 100.0
  ask := 100.03
  bidSize := 10
  askSize := 10
  timestamp := 1

/-- A tick so wide that of the two quotes only that to buy is within the tolerance. -/
def wideTick (symbol : String) : Tick :=
  { tick symbol with ask := 100.11005 }

/-- An order to sell at whatever the bid is. -/
def sale (symbol : String) : Order := ⟨1, symbol, .sell, .market, 7, 0.0, 2⟩

/-- Trades before and after a reset, in the symbols of the settings and in one more. -/
def operations : List Operation :=
  [.order (sale "A") 2, .tick (tick "A"), .reset, .addQuoter (.new { symbol := "D" } 100 0.01),
    .tick (tick "D"), .tick (tick "B"), .order (sale "B") 2]

/-- Ticks that leave a position beyond its bound. -/
def ticks : List Operation :=
  [.run [tick "A", tick "C"] none, .reset, .tick (wideTick "C"), .tick (wideTick "A")]

/-- A clock that stands still. -/
def clock : Readings := fun _ => .zero

theorem start_isSome : (Session.start settings Cache.Absent.mk).toOption.isSome := by
  decide +kernel

/-- The session of these settings, without a cache. -/
def session : Session Cache.Absent :=
  (Session.start settings Cache.Absent.mk).toOption.get start_isSome

theorem ok_of_toOption {ε α : Type} {e : Except ε α} {a : α} (h : e.toOption = some a) :
    e = .ok a := by
  cases e with
  | error _ => exact absurd h (by simp [Except.toOption])
  | ok b =>
    obtain rfl : b = a := by simpa [Except.toOption] using h
    rfl

theorem started : Session.start settings Cache.Absent.mk = .ok session :=
  ok_of_toOption (Option.some_get start_isSome).symm

end Sample

end MarketMaker
