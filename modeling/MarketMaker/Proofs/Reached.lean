import MarketMaker.Proofs.Trading

/-!
# States on the way

The states a replay goes through are more than those that operations end in: a run takes its ticks one
by one, and the answer to a tick submits its quotes one by one. `Replay.Reached` closes a start under
the steps between all of these, where a tick is answered only if its prices are finite. So what is
shown of a reached state, by induction on how it is reached, holds at every point of a run.
-/

namespace MarketMaker

namespace Replay

/-- The states a replay goes through: between operations, within a run, and between the quotes that
answer a tick. -/
inductive Reached (start : Replay) : Replay → Prop
  | start : Reached start start
  | accept {r : Replay} (before : Reached start r) :
      Reached start { r with ticksProcessed := r.ticksProcessed + 1 }
  | quote {r : Replay} {t : Tick} {d : Desk} (before : Reached start r)
      (finite : t.isFinite = true) (hd : r.desk? t.symbol = some d) :
      Reached start (r.setDesk t.symbol ((d.observe t).quote t).2)
  | submit {r : Replay} (before : Reached start r) (o : Order) (now : Int64) :
      Reached start (r.submit o now).2
  | timed {r : Replay} (before : Reached start r) (took : Duration) : Reached start (r.timed took)
  | elapse {r : Replay} (before : Reached start r) (elapsed : Duration) :
      Reached start { r with elapsed }
  | addQuoter {r r' : Replay} {q : Quoter} (before : Reached start r) (fresh : q.IsFresh)
      (added : r.addQuoter q = .ok r') : Reached start r'
  | reset {r : Replay} (before : Reached start r) : Reached start r.reset

variable {start r : Replay}

theorem reached_respond (before : Reached start r) {t : Tick} (finite : t.isFinite = true) :
    Reached start (r.respond t) := by
  cases hd : r.desk? t.symbol with
  | none => rwa [respond_of_none hd]
  | some d =>
    rw [respond_of_desk hd]
    exact kept_submitAll (fun _ o now before => .submit before o now) _ _ (.quote before finite hd)

theorem reached_take (before : Reached start r) (t : Tick) (took : Duration) :
    Reached start (r.take t took) := by
  cases hf : t.isFinite with
  | false => rwa [take_of_not_finite took hf]
  | true =>
    rw [take_of_finite took hf]
    simp only
    split
    · exact .timed (reached_respond (.accept before) hf) took
    · exact .accept before

end Replay

namespace Session

open Replay

variable {σ : Type} [Cache.Store σ] {start : Replay} {s : Session σ}

theorem reached_takeTicks (budget : Option Duration) (begun : Duration) (ticks : List Tick)
    (before : Reached start s.replay) (w : Readings) :
    Reached start ((takeTicks budget begun ticks s : StateM Readings _) w).1.replay := by
  induction ticks generalizing s w with
  | nil => exact before
  | cons t ts ih =>
    change Reached start ((if budget.any fun b =>
        b.nanoseconds ≤ (begun.between w.first).nanoseconds then (pure s : StateM Readings _) else
      (s.takeTick t : StateM Readings _) >>= takeTicks budget begun ts) w.later).1.replay
    split
    · exact before
    · have taken : Reached start ((s.takeTick t : StateM Readings _) w.later).1.replay := by
        rw [replay_takeTick]
        exact reached_take before t _
      exact ih taken _

theorem reached_perform {op : Operation} (fresh : op.IsFresh) (before : Reached start s.replay)
    (w : Readings) : Reached start (s.perform op w).1.replay := by
  cases op with
  | addQuoter q =>
    change Reached start ((s.addQuoter q).toOption.getD s).replay
    unfold addQuoter
    cases added : s.replay.addQuoter q with
    | error _ => exact before
    | ok r => exact .addQuoter before fresh added
  | tick t =>
    change Reached start ((s.takeTick t : StateM Readings _) w).1.replay
    rw [replay_takeTick]
    exact reached_take before t _
  | order o now =>
    change Reached start (s.submit o now).2.replay
    rw [replay_submit]
    exact .submit before o now
  | run ticks budget =>
    exact .elapse (reached_takeTicks budget w.first ticks before w.later) _
  | lookUp symbol =>
    change Reached start (s.cachedTick symbol).2.replay
    rwa [replay_cachedTick]
  | reset => exact .reset before

/-- What operations lead to is reached. -/
theorem reached_after {ops : List Operation} (fresh : ∀ op ∈ ops, op.IsFresh)
    (before : Reached start s.replay) (w : Readings) : Reached start (s.after ops w).replay := by
  induction ops generalizing s w with
  | nil => exact before
  | cons op ops ih =>
    exact ih (fun op' member => fresh op' (List.mem_cons_of_mem _ member))
      (reached_perform (fresh op List.mem_cons_self) before w) _

end Session

end MarketMaker
