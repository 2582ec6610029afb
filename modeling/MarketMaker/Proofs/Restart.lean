import MarketMaker.Proofs.Bookkeeping
import MarketMaker.Proofs.Timing

/-!
# Starting over

A reset takes a session to where it would be had nothing happened to it but that quoters were added.
Each step of a replay leaves what a reset makes of it as it is, except that adding a quoter adds it
there as well (`Replay.reset_addQuoter`); so whatever happened before, a session that is reset is a
new one with the same quoters, and goes on as that would (`Session.reset_after`).
-/

namespace MarketMaker

/-- Whether an operation adds a desk, or would. -/
def Operation.adds (op : Operation) : Bool :=
  op.added?.isSome

theorem Quoter.IsFresh.reset_eq {q : Quoter} (h : q.IsFresh) : q.reset = q := by
  rw [reset, new, ← h.1, ← h.2]

/-- A symbol can be made known before all trades are forgotten, or after. -/
theorem Ledger.reset_register (l : Ledger) (symbol : String) :
    (l.register symbol).reset = l.reset.register symbol := by
  have held : l.reset.holding symbol = .flat := by
    unfold holding
    change ((l.holdings.map fun _ _ => Holding.flat).find? symbol).getD .flat = .flat
    rw [Table.find?_map]
    cases l.holdings.find? symbol <;> rfl
  unfold register
  rw [held]
  unfold reset
  rw [Table.map_insert]

/-! ## What a reset makes of a replay -/

namespace Replay

theorem reset_congr {r r' : Replay} (settings : r.settings = r'.settings)
    (desks : r.desks.map (fun _ d => d.reset r.settings.volatility) =
      r'.desks.map (fun _ d => d.reset r'.settings.volatility))
    (holdings : r.ledger.holdings.map (fun _ _ => Holding.flat) =
      r'.ledger.holdings.map (fun _ _ => Holding.flat)) : r.reset = r'.reset := by
  unfold reset Ledger.reset
  rw [desks, holdings, settings]

theorem reset_same {r r' : Replay} (same : SameBooks r r') : r.reset = r'.reset := by
  refine reset_congr same.settings ?_ ?_
  · rw [same.settings, same.desks]
  · rw [same.ledger]

/-- A desk in the place of one whose quoter was made alike makes no difference to a reset. -/
theorem reset_setDesk {r : Replay} {symbol : String} {d d' : Desk}
    (hd : r.desk? symbol = some d) (made : d'.quoter.reset = d.quoter.reset) :
    (r.setDesk symbol d').reset = r.reset := by
  refine reset_congr rfl ?_ rfl
  apply Table.map_insert_of_find? hd
  rw [Desk.reset, made]
  rfl

theorem reset_book {r : Replay} {d : Desk} {t : Trade} (balanced : r.Balanced)
    (hd : r.desk? t.symbol = some d) : (r.book d t).reset = r.reset := by
  refine reset_congr rfl ?_ ?_
  · exact Table.map_insert_of_find? hd rfl
  · have held := balanced.holding t.symbol
    rw [hd] at held
    exact Table.map_insert_of_find? held rfl

theorem reset_reset (r : Replay) : r.reset.reset = r.reset := by
  refine reset_congr rfl ?_ ?_
  · exact Table.map_map (fun _ d => Desk.reset r.settings.volatility d)
      (fun _ d => Desk.reset r.settings.volatility d) r.desks
  · exact Table.map_map (fun _ _ => Holding.flat) (fun _ _ => Holding.flat) r.ledger.holdings

/-- A quoter is added to what a reset leaves as it would have been before. -/
theorem reset_addQuoter (r : Replay) {q : Quoter} (fresh : q.IsFresh) :
    r.reset.addQuoter q = (r.addQuoter q).map reset := by
  have known : r.reset.desks.contains q.symbol = r.desks.contains q.symbol :=
    Table.contains_map ..
  unfold addQuoter
  rw [known, show r.reset.settings = r.settings from rfl]
  split
  · rfl
  · cases made : Desk.make? r.settings.volatility q with
    | none => rfl
    | some d =>
      obtain ⟨_, rfl⟩ := Desk.make?_eq_some_iff.1 made
      have desk : (Desk.new r.settings.volatility q).reset r.settings.volatility =
          .new r.settings.volatility q := by
        rw [Desk.reset]
        exact congrArg _ fresh.reset_eq
      have desks := Table.map_insert (fun _ (d : Desk) => d.reset r.settings.volatility) r.desks
        q.symbol (.new r.settings.volatility q)
      rw [desk] at desks
      simp only [Except.map, reset, empty, desks, Ledger.reset_register]

theorem reset_new {settings : EngineSettings} {quoters : List QuoterSettings} {r : Replay}
    (h : Replay.new settings quoters = .ok r) : r.reset = r := by
  refine induct_new (P := fun r => r.reset = r) h rfl ?_
  intro q _ r r' same added
  have moved := r.reset_addQuoter (q := .new q settings.lotSize settings.priceImprovement)
    ⟨rfl, rfl⟩
  rw [same, added] at moved
  exact (Except.ok.inj moved).symm

/-- Books that balance, and that a reset takes to a given replay. -/
structure ResetsTo (start r : Replay) : Prop where
  balanced : r.Balanced
  reset : r.reset = start

/-- Whatever happens but that a quoter is added, a reset leads to the same replay. -/
theorem kept_resetsTo (start : Replay) :
    Kept (fun op => op.adds = false) (ResetsTo start) := by
  apply Kept.of_trading
  case same => exact fun r r' same h => ⟨balanced_same same h.balanced, reset_same same ▸ h.reset⟩
  case quote =>
    intro r t d hd h
    constructor
    · refine balanced_setDesk h.balanced hd ?_
      rw [Desk.quote_quoter, Quoter.quote_position, Desk.observe_quoter]
    · rw [reset_setDesk hd]
      · exact h.reset
      · rw [Desk.quote_quoter, Quoter.quote_reset, Desk.observe_quoter]
  case book =>
    intro r o now d t hd ht h
    rw [← (Desk.tradeOf_of_trade? ht).symbol] at hd
    exact ⟨balanced_book h.balanced hd, (reset_book h.balanced hd).trans h.reset⟩
  case addQuoter => exact fun q adds => absurd adds (by simp [Operation.adds, Operation.added?])
  case reset => exact fun r h => ⟨balanced_reset h.balanced, r.reset_reset.trans h.reset⟩

end Replay

/-! ## What is settled at the start -/

namespace Session

open Replay

variable {σ : Type} [Cache.Store σ] {s s' s'' : Session σ}

/-- Two sessions tell their caches of the same things, for the same times. -/
structure SameTerms (s s' : Session σ) : Prop where
  expiry : s.expiry = s'.expiry
  reachable : s.reachable = s'.reachable

omit [Cache.Store σ] in
theorem SameTerms.trans (h : SameTerms s s') (h' : SameTerms s' s'') : SameTerms s s'' :=
  ⟨h.expiry.trans h'.expiry, h.reachable.trans h'.reachable⟩

theorem sameTerms_rememberTick (s : Session σ) (t : Tick) : SameTerms (s.rememberTick t) s := by
  unfold rememberTick
  split
  · exact ⟨rfl, rfl⟩
  · exact ⟨rfl, rfl⟩

theorem sameTerms_rememberTrades (s : Session σ) (n : Nat) (ts : List Trade) :
    SameTerms (s.rememberTrades n ts) s := by
  induction ts generalizing s n with
  | nil => exact ⟨rfl, rfl⟩
  | cons t ts ih => exact (ih _ _).trans ⟨rfl, rfl⟩

theorem sameTerms_rememberSince (s : Session σ) (known : Nat) :
    SameTerms (s.rememberSince known) s := by
  unfold rememberSince
  split
  · exact sameTerms_rememberTrades s _ _
  · exact ⟨rfl, rfl⟩

theorem sameTerms_admitted (s : Session σ) (t : Tick) : SameTerms (s.admitted t) s := by
  have told := sameTerms_rememberTick
    { s with replay := { s.replay with ticksProcessed := s.replay.ticksProcessed + 1 } } t
  exact ⟨told.expiry, told.reachable⟩

theorem sameTerms_respond (s : Session σ) (t : Tick) : SameTerms (s.respond t) s := by
  have told := sameTerms_rememberSince { s with replay := s.replay.respond t }
    s.replay.trades.size
  exact ⟨told.expiry, told.reachable⟩

theorem sameTerms_submit (s : Session σ) (o : Order) (now : Int64) :
    SameTerms (s.submit o now).2 s := by
  have told := sameTerms_rememberSince { s with replay := (s.replay.submit o now).2 }
    s.replay.trades.size
  exact ⟨told.expiry, told.reachable⟩

theorem sameTerms_takeTick (s : Session σ) (t : Tick) (w : Readings) :
    SameTerms ((s.takeTick t : StateM Readings _) w).1 s := by
  have told := sameTerms_admitted s t
  cases finite : t.isFinite with
  | false =>
    rw [takeTick_of_not_finite s finite]
    exact ⟨rfl, rfl⟩
  | true =>
    rw [takeTick_of_finite s finite]
    split
    · have answered := (sameTerms_respond (s.admitted t) t).trans told
      exact ⟨answered.expiry, answered.reachable⟩
    · exact told

theorem sameTerms_takeTicks (budget : Option Duration) (begun : Duration) (ticks : List Tick)
    (s : Session σ) (w : Readings) :
    SameTerms ((takeTicks budget begun ticks s : StateM Readings _) w).1 s := by
  induction ticks generalizing s w with
  | nil => exact ⟨rfl, rfl⟩
  | cons t ts ih =>
    rw [takeTicks_cons]
    split
    · exact ⟨rfl, rfl⟩
    · exact (ih _ _).trans (sameTerms_takeTick s t _)

theorem sameTerms_perform (s : Session σ) (op : Operation) (w : Readings) :
    SameTerms (s.perform op w).1 s := by
  cases op with
  | addQuoter q =>
    change SameTerms ((s.addQuoter q).toOption.getD s) s
    unfold addQuoter
    cases s.replay.addQuoter q with
    | error _ => exact ⟨rfl, rfl⟩
    | ok _ => exact ⟨rfl, rfl⟩
  | tick t => exact sameTerms_takeTick s t w
  | order o now => exact sameTerms_submit s o now
  | run ticks budget =>
    have taken := sameTerms_takeTicks budget w.first ticks s w.later
    exact ⟨taken.expiry, taken.reachable⟩
  | lookUp symbol =>
    change SameTerms (s.cachedTick symbol).2 s
    unfold cachedTick
    split
    · exact ⟨rfl, rfl⟩
    · exact ⟨rfl, rfl⟩
  | reset => exact ⟨rfl, rfl⟩

theorem sameTerms_after (s : Session σ) (ops : List Operation) (w : Readings) :
    SameTerms (s.after ops w) s := by
  induction ops generalizing s w with
  | nil => exact ⟨rfl, rfl⟩
  | cons op ops ih => exact (ih _ _).trans (sameTerms_perform s op w)

/-- A session keeps what its settings say about the cache, and asks once whether it can be reached. -/
theorem terms_of_start {settings : Settings} {cache : σ} {s : Session σ}
    (h : start settings cache = .ok s) :
    s.expiry = settings.cache ∧ s.reachable = (Cache.Store.ping cache).1 := by
  obtain ⟨_, _, _, rfl⟩ := start_eq_ok_iff.1 h
  exact ⟨rfl, rfl⟩

/-! ## After a reset -/

/-- What a reset makes of a session's replay is what adding the same quoters makes of what a reset
would have made of it before. -/
theorem replay_reset_after (balanced : s.replay.Balanced) {ops : List Operation}
    (fresh : ∀ op ∈ ops, op.IsFresh) (h : s'.replay = s.replay.reset) (w w' : Readings) :
    (s.after ops w).replay.reset = (s'.after (ops.filter Operation.adds) w').replay := by
  induction ops generalizing s s' w w' with
  | nil => exact h.symm
  | cons op ops ih =>
    have freshOp := fresh op List.mem_cons_self
    have rest : ∀ op' ∈ ops, op'.IsFresh := fun op' member =>
      fresh op' (List.mem_cons_of_mem _ member)
    have still : (s.perform op w).1.replay.Balanced := kept_perform kept_balanced freshOp balanced w
    rw [after_cons]
    cases adds : op.adds with
    | false =>
      rw [List.filter_cons_of_neg (by simp [adds])]
      have kept : ResetsTo s.replay.reset (s.perform op w).1.replay :=
        kept_perform (kept_resetsTo _) adds ⟨balanced, rfl⟩ w
      exact ih still rest (h.trans kept.reset.symm) _ _
    | true =>
      rw [List.filter_cons_of_pos adds, after_cons]
      refine ih still rest ?_ _ _
      cases op with
      | addQuoter q =>
        change ((s'.addQuoter q).toOption.getD s').replay =
          ((s.addQuoter q).toOption.getD s).replay.reset
        rw [replay_addQuoter, replay_addQuoter, h, reset_addQuoter _ freshOp]
        cases s.replay.addQuoter q with
        | error _ => rfl
        | ok _ => rfl
      | _ => exact absurd adds (by simp [Operation.adds, Operation.added?])

/-- **A reset gives back a new session.** Whatever was done to a session, a reset leaves it, but for
what its cache holds, as a session that was started from the same settings and given the same
quoters. From there on the two go the same way: by the same clock to the same replay, and by two
clocks, where no run has a budget, to replays that differ in measured times alone. -/
theorem reset_after {settings : Settings} {cache cache' : σ}
    (started : start settings cache = .ok s) (started' : start settings cache' = .ok s')
    {ops : List Operation} (fresh : ∀ op ∈ ops, op.IsFresh) (w w' : Readings) :
    let old := (s.after ops w).reset
    let new := s'.after (ops.filter Operation.adds) w'
    old.replay = new.replay ∧ old.expiry = new.expiry ∧
    ((Cache.Store.ping cache).1 = (Cache.Store.ping cache').1 →
      old = { new with cache := old.cache }) ∧
    (∀ later v, (old.after later v).replay = (new.after later v).replay) ∧
    (∀ later, (∀ op ∈ later, op.IsUntimed) → ∀ v v',
      (old.after later v).replay.SameButTimes (new.after later v').replay ∧
      (old.after later v).replay.metrics.untimed = (new.after later v').replay.metrics.untimed) := by
  intro old new
  have made := (start_ok started).2
  have same : s'.replay = s.replay := Except.ok.inj ((start_ok started').2.symm.trans made)
  have replay : old.replay = new.replay :=
    replay_reset_after (balanced_new made) fresh (same.trans (reset_new made).symm) w w'
  obtain ⟨expiry, reachable⟩ := terms_of_start started
  obtain ⟨expiry', reachable'⟩ := terms_of_start started'
  have terms := sameTerms_after s ops w
  have terms' := sameTerms_after s' (ops.filter Operation.adds) w'
  have lasting : old.expiry = new.expiry := by
    rw [terms'.expiry, expiry', ← expiry, ← terms.expiry]
    rfl
  refine ⟨replay, lasting, ?_, replay_after_congr replay, ?_⟩
  · intro answers
    have asked : old.reachable = new.reachable := by
      rw [terms'.reachable, reachable', ← answers, ← reachable, ← terms.reachable]
      rfl
    rw [← replay, ← lasting, ← asked]
  · intro later untimed v v'
    have times : SameButTimes old.replay new.replay := by
      rw [replay]
      exact .refl _
    have times := sameButTimes_after times untimed v v'
    exact ⟨times, times.metrics⟩

/-- A session that has traded, and goes on with a quoter that was added to it. -/
theorem reset_after_sample :
    (∀ op ∈ Sample.operations, op.IsFresh) ∧ (∀ op ∈ Sample.ticks, op.IsUntimed) ∧
    ∃ s old new, Sample.session.after Sample.operations Sample.clock = s ∧ s.reset = old ∧
      Sample.session.after (Sample.operations.filter Operation.adds) Sample.clock = new ∧
      s.replay.trades.size = 5 ∧ old.replay = new.replay ∧ old.replay.quotes "D" = true ∧
      (old.after Sample.ticks Sample.clock).replay.SameButTimes
        (new.after Sample.ticks Sample.clock).replay := by
  have fresh : ∀ op ∈ Sample.operations, op.IsFresh := by
    simp [Sample.operations, Operation.IsFresh, Quoter.IsFresh, Quoter.new]
  have untimed : ∀ op ∈ Sample.ticks, op.IsUntimed := by
    simp [Sample.ticks, Operation.IsUntimed]
  obtain ⟨replay, _, _, _, later⟩ :=
    reset_after Sample.started Sample.started fresh Sample.clock Sample.clock
  refine ⟨fresh, untimed, _, _, _, rfl, rfl, rfl, by decide +kernel, replay, ?_, ?_⟩
  · decide +kernel
  · exact (later Sample.ticks untimed Sample.clock Sample.clock).1

end Session
end MarketMaker
