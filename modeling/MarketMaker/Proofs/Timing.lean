import MarketMaker.Proofs.Trading

/-!
# What the clock decides

A clock is read for how long answers take and for when a budget is exhausted, and nothing else in a
replay hangs on it. Two replays that differ in measured times alone (`Replay.SameButTimes`) stay so
through the same operations by any two clocks, as long as no run has a budget
(`Session.sameButTimes_after`); by one clock they end alike whatever the budgets
(`Session.replay_after_congr`), and whatever caches stand beside them. A run without a budget takes
its ticks one by one, in whatever time (`Session.sameButTimes_runBy`).
-/

namespace MarketMaker

/-- Runs have no budget, so that the clock does not say where they end. -/
def Operation.IsUntimed : Operation → Prop
  | run _ budget => budget = none
  | _ => True

/-- Metrics without the two figures that are read off a clock. -/
def Metrics.untimed (m : Metrics) : Metrics :=
  { m with throughput := 0.0, latencyMillis := 0.0 }

/-- Of what a run did beside its trades, the metrics show what is held and two figures by the clock.
-/
theorem Metrics.untimed_of (trades : List Trade) (history : List PnlPoint) {a a' : Activity}
    (h : a.unrealized = a'.unrealized) :
    (Metrics.of trades history a).untimed = (Metrics.of trades history a').untimed := by
  unfold Metrics.of
  split
  · rfl
  · simp only [untimed, h]

namespace Replay

/-- A replay with other times measured. -/
def retimed (r : Replay) (latency : Latency) (elapsed : Duration) : Replay :=
  { r with latency, elapsed }

/-- Two replays differ at most in the times that were measured, of which there are as many. -/
structure SameButTimes (r r' : Replay) : Prop where
  same : r'.retimed r.latency r.elapsed = r
  samples : r.latency.size = r'.latency.size

namespace SameButTimes

variable {r r' r'' : Replay}

theorem refl (r : Replay) : SameButTimes r r := ⟨rfl, rfl⟩

theorem symm (h : SameButTimes r r') : SameButTimes r' r where
  same := by
    rw [← h.same]
    rfl
  samples := h.samples.symm

theorem trans (h : SameButTimes r r') (h' : SameButTimes r' r'') : SameButTimes r r'' where
  same := by
    rw [← h.same, ← h'.same]
    rfl
  samples := h.samples.trans h'.samples

theorem metrics (h : SameButTimes r r') : r.metrics.untimed = r'.metrics.untimed := by
  rw [← h.same]
  exact Metrics.untimed_of _ _ rfl

end SameButTimes

theorem sameButTimes_elapse (r : Replay) (elapsed : Duration) :
    SameButTimes { r with elapsed } r := ⟨rfl, rfl⟩

/-! ## Steps -/

theorem submit_retimed (r : Replay) (o : Order) (now : Int64) (latency : Latency)
    (elapsed : Duration) : (r.retimed latency elapsed).submit o now =
      ((r.submit o now).1, (r.submit o now).2.retimed latency elapsed) := by
  have refusal : (r.retimed latency elapsed).refusal? o = r.refusal? o := rfl
  rcases r.submit_cases o now with
    ⟨fault, refused, hs⟩ | ⟨d, accepted, hd, ht, hs⟩ | ⟨d, t, accepted, hd, ht, hs⟩
  · rw [hs, submit_of_refused (refusal.trans refused)]
    rfl
  · have desk : (r.retimed latency elapsed).desk? o.symbol = some d := hd
    have unmatched : d.trade? (r.retimed latency elapsed).settings o now = none := ht
    rw [hs, submit_of_accepted (refusal.trans accepted) desk, unmatched]
    rfl
  · have desk : (r.retimed latency elapsed).desk? o.symbol = some d := hd
    have matched : d.trade? (r.retimed latency elapsed).settings o now = some t := ht
    rw [hs, submit_of_accepted (refusal.trans accepted) desk, matched]
    rfl

theorem submitAll_retimed (r : Replay) (orders : List Order) (now : Int64) (latency : Latency)
    (elapsed : Duration) : (r.retimed latency elapsed).submitAll orders now =
      (r.submitAll orders now).retimed latency elapsed := by
  induction orders generalizing r with
  | nil => rfl
  | cons o os ih =>
    change ((r.retimed latency elapsed).submit o now).2.submitAll os now = _
    rw [submit_retimed]
    exact ih _

theorem respond_retimed (r : Replay) (t : Tick) (latency : Latency) (elapsed : Duration) :
    (r.retimed latency elapsed).respond t = (r.respond t).retimed latency elapsed := by
  have desk : (r.retimed latency elapsed).desk? t.symbol = r.desk? t.symbol := rfl
  cases hd : r.desk? t.symbol with
  | none => rw [respond_of_none hd, respond_of_none (desk.trans hd)]
  | some d =>
    rw [respond_of_desk hd, respond_of_desk (desk.trans hd)]
    exact submitAll_retimed (r.setDesk t.symbol _) _ _ _ _

theorem addQuoter_retimed (r : Replay) (q : Quoter) (latency : Latency) (elapsed : Duration) :
    (r.retimed latency elapsed).addQuoter q =
      (r.addQuoter q).map fun r' => r'.retimed latency elapsed := by
  have desks : (r.retimed latency elapsed).desks = r.desks := rfl
  have settings : (r.retimed latency elapsed).settings = r.settings := rfl
  rw [addQuoter, addQuoter, desks, settings]
  split
  · rfl
  · cases Desk.make? r.settings.volatility q <;> rfl

/-- Trying an order measures nothing. -/
theorem submit_times (r : Replay) (o : Order) (now : Int64) :
    (r.submit o now).2.latency = r.latency ∧ (r.submit o now).2.elapsed = r.elapsed := by
  rcases r.submit_cases o now with ⟨_, _, hs⟩ | ⟨_, _, _, _, hs⟩ | ⟨_, _, _, _, _, hs⟩
  · rw [hs]
    exact ⟨rfl, rfl⟩
  · rw [hs]
    exact ⟨rfl, rfl⟩
  · rw [hs]
    exact ⟨rfl, rfl⟩

theorem submitAll_times (r : Replay) (orders : List Order) (now : Int64) :
    (r.submitAll orders now).latency = r.latency ∧
      (r.submitAll orders now).elapsed = r.elapsed := by
  induction orders generalizing r with
  | nil => exact ⟨rfl, rfl⟩
  | cons o os ih =>
    have first := r.submit_times o now
    have rest := ih (r.submit o now).2
    exact ⟨rest.1.trans first.1, rest.2.trans first.2⟩

/-- Answering a tick measures nothing: only noting how long that took does. -/
theorem respond_times (r : Replay) (t : Tick) :
    (r.respond t).latency = r.latency ∧ (r.respond t).elapsed = r.elapsed := by
  cases hd : r.desk? t.symbol with
  | none =>
    rw [respond_of_none hd]
    exact ⟨rfl, rfl⟩
  | some d =>
    rw [respond_of_desk hd]
    exact submitAll_times (r.setDesk t.symbol _) _ _

theorem sameButTimes_submit {r r' : Replay} (h : SameButTimes r r') (o : Order) (now : Int64) :
    SameButTimes (r.submit o now).2 (r'.submit o now).2 := by
  have times := r'.submit_times o now
  rw [← h.same, submit_retimed]
  refine ⟨rfl, ?_⟩
  change r.latency.size = _
  rw [h.samples, times.1]

theorem sameButTimes_respond {r r' : Replay} (h : SameButTimes r r') (t : Tick) :
    SameButTimes (r.respond t) (r'.respond t) := by
  have times := r'.respond_times t
  rw [← h.same, respond_retimed]
  refine ⟨rfl, ?_⟩
  change r.latency.size = _
  rw [h.samples, times.1]

theorem sameButTimes_accept {r r' : Replay} (h : SameButTimes r r') :
    SameButTimes { r with ticksProcessed := r.ticksProcessed + 1 }
      { r' with ticksProcessed := r'.ticksProcessed + 1 } := by
  rw [← h.same]
  exact ⟨rfl, h.samples⟩

theorem sameButTimes_timed {r r' : Replay} (h : SameButTimes r r') (took took' : Duration) :
    SameButTimes (r.timed took) (r'.timed took') where
  same := by
    rw [← h.same]
    rfl
  samples := by
    have size : ∀ (l : Latency) (took : Duration), (l.record took).size = l.size + 1 := fun l took =>
      Array.size_push _
    change (r.latency.record took).size = (r'.latency.record took').size
    rw [size, size, h.samples]

theorem sameButTimes_take {r r' : Replay} (h : SameButTimes r r') (t : Tick)
    (took took' : Duration) : SameButTimes (r.take t took) (r'.take t took') := by
  cases hf : t.isFinite with
  | false =>
    rw [take_of_not_finite took hf, take_of_not_finite took' hf]
    exact h
  | true =>
    rw [take_of_finite took hf, take_of_finite took' hf]
    have accepted := sameButTimes_accept h
    have quoted : r'.quotes t.symbol = r.quotes t.symbol := by
      rw [← h.same]
      rfl
    change SameButTimes (if r.quotes t.symbol then _ else _) (if r'.quotes t.symbol then _ else _)
    rw [quoted]
    split
    · exact sameButTimes_timed (sameButTimes_respond accepted t) took took'
    · exact accepted

/-- The replay after ticks that are taken in no time. -/
def takeAll (r : Replay) (ticks : List Tick) : Replay :=
  ticks.foldl (fun r t => r.take t .zero) r

theorem sameButTimes_takeAll {r r' : Replay} (h : SameButTimes r r') (ticks : List Tick) :
    SameButTimes (r.takeAll ticks) (r'.takeAll ticks) := by
  induction ticks generalizing r r' with
  | nil => exact h
  | cons t ts ih => exact ih (sameButTimes_take h t .zero .zero)

theorem sameButTimes_reset {r r' : Replay} (h : SameButTimes r r') :
    SameButTimes r.reset r'.reset := by
  rw [← h.same]
  exact .refl _

theorem sameButTimes_addQuoter {r r' : Replay} (h : SameButTimes r r') (q : Quoter) :
    SameButTimes ((r.addQuoter q).toOption.getD r) ((r'.addQuoter q).toOption.getD r') := by
  have retimed := r'.addQuoter_retimed q r.latency r.elapsed
  rw [h.same] at retimed
  rw [retimed]
  cases added : r'.addQuoter q with
  | error _ => exact h
  | ok r₁ =>
    obtain ⟨_, rfl⟩ := addQuoter_ok added
    exact ⟨rfl, h.samples⟩

end Replay

/-! ## Operations -/

namespace Session

open Replay

variable {σ σ' : Type} [Cache.Store σ] [Cache.Store σ'] {s : Session σ} {s' : Session σ'}

/-- A reading is taken for a tick that is answered, and for no other. -/
theorem readings_takeTick (s : Session σ) (t : Tick) (w : Readings) :
    ((s.takeTick t : StateM Readings _) w).2 =
      if t.isFinite && s.replay.quotes t.symbol then w.later else w := by
  cases h : t.isFinite with
  | false =>
    rw [takeTick_of_not_finite s h]
    rfl
  | true =>
    rw [takeTick_of_finite s h, Bool.true_and]
    split
    · rfl
    · rfl

omit [Cache.Store σ] in
theorem replay_addQuoter (s : Session σ) (q : Quoter) :
    ((s.addQuoter q).toOption.getD s).replay = (s.replay.addQuoter q).toOption.getD s.replay := by
  unfold addQuoter
  cases s.replay.addQuoter q with
  | error _ => rfl
  | ok _ => rfl

/-- Whether a budget is exhausted at some time. -/
def isExhausted (budget : Option Duration) (begun now : Duration) : Bool :=
  budget.any fun b => b.nanoseconds ≤ (begun.between now).nanoseconds

theorem takeTicks_cons (budget : Option Duration) (begun : Duration) (t : Tick) (ts : List Tick)
    (s : Session σ) (w : Readings) :
    (takeTicks budget begun (t :: ts) s : StateM Readings _) w =
      if isExhausted budget begun w.first then (s, w.later)
      else
        (takeTicks budget begun ts ((s.takeTick t : StateM Readings _) w.later).1 :
          StateM Readings _) ((s.takeTick t : StateM Readings _) w.later).2 := by
  change (if isExhausted budget begun w.first then (pure s : StateM Readings _) else
    (s.takeTick t : StateM Readings _) >>= takeTicks budget begun ts) w.later = _
  split
  · rfl
  · rfl

theorem perform_run (s : Session σ) (ticks : List Tick) (budget : Option Duration)
    (w : Readings) : s.perform (.run ticks budget) w =
      let taken := (takeTicks budget w.first ticks s : StateM Readings _) w.later
      ({ taken.1 with replay := { taken.1.replay with
          elapsed := taken.1.replay.elapsed + w.first.between taken.2.first } },
        taken.2.later) := rfl

/-! ### One clock -/

theorem takeTick_congr (h : s.replay = s'.replay) (t : Tick) (w : Readings) :
    ((s.takeTick t : StateM Readings _) w).1.replay =
        ((s'.takeTick t : StateM Readings _) w).1.replay ∧
      ((s.takeTick t : StateM Readings _) w).2 = ((s'.takeTick t : StateM Readings _) w).2 := by
  rw [replay_takeTick, replay_takeTick, readings_takeTick, readings_takeTick, h]
  exact ⟨rfl, rfl⟩

theorem takeTicks_congr (budget : Option Duration) (begun : Duration) (ticks : List Tick)
    (h : s.replay = s'.replay) (w : Readings) :
    ((takeTicks budget begun ticks s : StateM Readings _) w).1.replay =
        ((takeTicks budget begun ticks s' : StateM Readings _) w).1.replay ∧
      ((takeTicks budget begun ticks s : StateM Readings _) w).2 =
        ((takeTicks budget begun ticks s' : StateM Readings _) w).2 := by
  induction ticks generalizing s s' w with
  | nil => exact ⟨h, rfl⟩
  | cons t ts ih =>
    rw [takeTicks_cons, takeTicks_cons]
    split
    · exact ⟨h, rfl⟩
    · obtain ⟨taken, read⟩ := takeTick_congr h t w.later
      rw [← read]
      exact ih taken _

/-- An operation does the same to sessions whose replays are the same, and reads the clock as often,
whatever caches stand beside them. -/
theorem perform_congr (h : s.replay = s'.replay) (op : Operation) (w : Readings) :
    (s.perform op w).1.replay = (s'.perform op w).1.replay ∧
      (s.perform op w).2 = (s'.perform op w).2 := by
  cases op with
  | addQuoter q =>
    refine ⟨?_, rfl⟩
    change ((s.addQuoter q).toOption.getD s).replay = ((s'.addQuoter q).toOption.getD s').replay
    rw [replay_addQuoter, replay_addQuoter, h]
  | tick t => exact takeTick_congr h t w
  | order o now =>
    refine ⟨?_, rfl⟩
    change (s.submit o now).2.replay = (s'.submit o now).2.replay
    rw [replay_submit, replay_submit, h]
  | run ticks budget =>
    obtain ⟨taken, read⟩ := takeTicks_congr budget w.first ticks h w.later
    simp only [perform_run, taken, read, and_self]
  | lookUp symbol =>
    refine ⟨?_, rfl⟩
    change (s.cachedTick symbol).2.replay = (s'.cachedTick symbol).2.replay
    rw [replay_cachedTick, replay_cachedTick, h]
  | reset =>
    refine ⟨?_, rfl⟩
    change s.replay.reset = s'.replay.reset
    rw [h]

theorem replay_after_congr (h : s.replay = s'.replay) (ops : List Operation) (w : Readings) :
    (s.after ops w).replay = (s'.after ops w).replay := by
  induction ops generalizing s s' w with
  | nil => exact h
  | cons op ops ih =>
    obtain ⟨performed, read⟩ := perform_congr h op w
    rw [after_cons, after_cons, read]
    exact ih performed _

/-! ### Two clocks -/

/-- A run takes its ticks one by one, in whatever time, up to where its budget ends it. -/
theorem exists_sameButTimes_takeTicks (budget : Option Duration) (begun : Duration)
    (ticks : List Tick) (s : Session σ) (w : Readings) :
    ∃ taken, taken <+: ticks ∧ (budget = none → taken = ticks) ∧
      SameButTimes ((takeTicks budget begun ticks s : StateM Readings _) w).1.replay
        (s.replay.takeAll taken) := by
  induction ticks generalizing s w with
  | nil => exact ⟨[], List.prefix_rfl, fun _ => rfl, .refl _⟩
  | cons t ts ih =>
    rw [takeTicks_cons]
    split
    next exhausted =>
      refine ⟨[], List.nil_prefix, ?_, .refl _⟩
      rintro rfl
      exact absurd exhausted (by simp [isExhausted])
    next =>
      obtain ⟨taken, within, whole, same⟩ := ih _ _
      refine ⟨t :: taken, List.cons_prefix_cons.2 ⟨rfl, within⟩, fun none => by rw [whole none], ?_⟩
      refine same.trans (sameButTimes_takeAll ?_ taken)
      rw [replay_takeTick]
      exact sameButTimes_take (.refl _) t _ _

/-- A run without a budget takes all its ticks. -/
theorem sameButTimes_runBy (s : Session σ) (ticks : List Tick) (w : Readings) :
    SameButTimes ((s.runBy ticks none : StateM Readings _) w).1.replay
      (s.replay.takeAll ticks) := by
  obtain ⟨taken, _, whole, same⟩ := exists_sameButTimes_takeTicks none w.first ticks s w.later
  obtain rfl := whole rfl
  exact (sameButTimes_elapse _ _).trans same

theorem sameButTimes_perform (h : SameButTimes s.replay s'.replay) {op : Operation}
    (untimed : op.IsUntimed) (w w' : Readings) :
    SameButTimes (s.perform op w).1.replay (s'.perform op w').1.replay := by
  cases op with
  | addQuoter q =>
    change SameButTimes ((s.addQuoter q).toOption.getD s).replay
      ((s'.addQuoter q).toOption.getD s').replay
    rw [replay_addQuoter, replay_addQuoter]
    exact sameButTimes_addQuoter h q
  | tick t =>
    change SameButTimes ((s.takeTick t : StateM Readings _) w).1.replay
      ((s'.takeTick t : StateM Readings _) w').1.replay
    rw [replay_takeTick, replay_takeTick]
    exact sameButTimes_take h t _ _
  | order o now =>
    change SameButTimes (s.submit o now).2.replay (s'.submit o now).2.replay
    rw [replay_submit, replay_submit]
    exact sameButTimes_submit h o now
  | run ticks budget =>
    obtain rfl : budget = none := untimed
    have taken := sameButTimes_takeAll h ticks
    exact (sameButTimes_runBy s ticks w).trans (taken.trans (sameButTimes_runBy s' ticks w').symm)
  | lookUp symbol =>
    change SameButTimes (s.cachedTick symbol).2.replay (s'.cachedTick symbol).2.replay
    rwa [replay_cachedTick, replay_cachedTick]
  | reset => exact sameButTimes_reset h

/-- Replays that differ in measured times alone stay so, by any two clocks. -/
theorem sameButTimes_after (h : SameButTimes s.replay s'.replay) {ops : List Operation}
    (untimed : ∀ op ∈ ops, op.IsUntimed) (w w' : Readings) :
    SameButTimes (s.after ops w).replay (s'.after ops w').replay := by
  induction ops generalizing s s' w w' with
  | nil => exact h
  | cons op ops ih =>
    exact ih (sameButTimes_perform h (untimed op List.mem_cons_self) w w')
      (fun op' member => untimed op' (List.mem_cons_of_mem _ member)) _ _

end Session

end MarketMaker
