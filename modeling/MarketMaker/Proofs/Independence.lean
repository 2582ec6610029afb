import MarketMaker.Proofs.Telling

/-!
# The cache makes no difference

Whatever a cache answers when it is asked whether it is there, when it is told of a tick or a trade,
and when it is asked for one, what a session comes to is the same (`Session.independent_of_cache`):
the two may stand beside any two caches, of which one may refuse everything. A cache that says that
it cannot be reached is asked for nothing more; for a statement of that, `Cache.Watched` keeps what is
asked of a store beside the store.
-/

namespace MarketMaker

namespace Cache

/-- What can be asked of a store. -/
inductive Request where
  | ping
  | set (key : String) (fields : Fields) (expiry : Duration)
  | get (key : String)

/-- A store, and what was asked of it, in order. -/
structure Watched (σ : Type) where
  store : σ
  requests : List Request

/-- A store that nothing was asked of yet. -/
def Watched.new {σ : Type} (store : σ) : Watched σ := ⟨store, []⟩

/-- A watched store answers as the store does. -/
instance {σ : Type} [Store σ] : Store (Watched σ) where
  ping c :=
    let (answer, store) := Store.ping c.store
    (answer, ⟨store, c.requests ++ [.ping]⟩)
  set c key fields expiry :=
    let (answer, store) := Store.set c.store key fields expiry
    (answer, ⟨store, c.requests ++ [.set key fields expiry]⟩)
  get c key :=
    let (answer, store) := Store.get c.store key
    (answer, ⟨store, c.requests ++ [.get key]⟩)

end Cache

namespace Session

variable {σ σ' : Type} [Cache.Store σ] [Cache.Store σ']

/-! ## The start -/

/-- A session starts, or does not, for the same reason beside any cache. -/
theorem start_map_replay (settings : Settings) (cache : σ) :
    (start settings cache).map Session.replay =
      (settings.check.mapError .refused).bind fun _ => Replay.new settings.engine settings.quoters := by
  unfold start
  cases settings.check with
  | error _ => rfl
  | ok _ => cases Replay.new settings.engine settings.quoters <;> rfl

theorem cache_of_start {settings : Settings} {cache : σ} {s : Session σ}
    (h : start settings cache = .ok s) : s.cache = (Cache.Store.ping cache).2 := by
  obtain ⟨_, _, _, rfl⟩ := start_eq_ok_iff.1 h
  rfl

/-- Nothing is asked of a cache that says it cannot be reached. -/
theorem cache_after_of_ping {settings : Settings} {cache : σ} {s : Session σ}
    (started : start settings cache = .ok s) (absent : (Cache.Store.ping cache).1 = false)
    (ops : List Operation) (w : Readings) :
    (s.after ops w).cache = (Cache.Store.ping cache).2 := by
  have unreachable : s.reachable = false := (terms_of_start started).2.trans absent
  rw [cache_after_of_unreachable unreachable, cache_of_start started]

/-! ## What is answered -/

/-- Two sessions answer whatever comes next alike: ticks, orders, and quoters that are added. -/
structure AnswersAlike (s : Session σ) (s' : Session σ') : Prop where
  tick : ∀ t took took', (s.onTick t took).map (fun _ => ()) = (s'.onTick t took').map fun _ => ()
  order : ∀ o now, (s.submit o now).1 = (s'.submit o now).1
  quoter : ∀ q, (s.addQuoter q).map (fun _ => ()) = (s'.addQuoter q).map fun _ => ()

theorem onTick_map_unit (s : Session σ) (t : Tick) (took : Duration) :
    (s.onTick t took).map (fun _ => ()) =
      if t.isFinite then .ok () else .error (.nonFinite t.symbol t.bid t.ask) := by
  unfold onTick accept Replay.accept
  split
  · rfl
  · rfl

/-- What is answered hangs on the replay alone, and not on the times it measured. -/
theorem answersAlike_of_sameButTimes {s : Session σ} {s' : Session σ'}
    (h : s.replay.SameButTimes s'.replay) : s.AnswersAlike s' where
  tick t took took' := by rw [onTick_map_unit, onTick_map_unit]
  order o now := by
    change (s.replay.submit o now).1 = (s'.replay.submit o now).1
    rw [← h.same, Replay.submit_retimed]
  quoter q := by
    unfold addQuoter
    rw [← h.same, Replay.addQuoter_retimed]
    cases s'.replay.addQuoter q with
    | error _ => rfl
    | ok _ => rfl

end Session

namespace Sample

/-- A cache that is there and refuses everything. -/
structure Refusing where

instance : Cache.Store Refusing where
  ping c := (true, c)
  set c _ _ _ := (.error .readOnly, c)
  get c _ := (.error .damaged, c)

theorem refusing_isSome : (Session.start settings Refusing.mk).toOption.isSome := by
  decide +kernel

/-- The session of the settings beside a cache that refuses everything. -/
def refused : Session Refusing :=
  (Session.start settings Refusing.mk).toOption.get refusing_isSome

theorem startedRefused : Session.start settings Refusing.mk = .ok refused :=
  ok_of_toOption (Option.some_get refusing_isSome).symm

theorem watched_isSome :
    (Session.start settings (Cache.Watched.new Cache.Absent.mk)).toOption.isSome := by
  decide +kernel

/-- The session without a cache, where it is watched what a cache would be asked. -/
def watched : Session (Cache.Watched Cache.Absent) :=
  (Session.start settings (Cache.Watched.new Cache.Absent.mk)).toOption.get watched_isSome

theorem startedWatched :
    Session.start settings (Cache.Watched.new Cache.Absent.mk) = .ok watched :=
  ok_of_toOption (Option.some_get watched_isSome).symm

end Sample

namespace Session

variable {σ σ' : Type} [Cache.Store σ] [Cache.Store σ']

/-- **A cache makes no difference.** Beside any two caches a session starts from the same settings, and
comes by the same operations to the same replay, by one clock whatever the budgets; by two clocks,
where no run has a budget, to replays that differ in measured times alone. All the way, ticks, orders
and new quoters are answered alike. A cache that says it cannot be reached is asked nothing but that. -/
theorem independent_of_cache (settings : Settings) (cache : σ) (cache' : σ') :
    (start settings cache).map Session.replay = (start settings cache').map Session.replay ∧
    (∀ s s', start settings cache = .ok s → start settings cache' = .ok s' → ∀ ops,
      (∀ w, (s.after ops w).replay = (s'.after ops w).replay ∧
        (s.after ops w).AnswersAlike (s'.after ops w)) ∧
      ((∀ op ∈ ops, op.IsUntimed) → ∀ w w',
        (s.after ops w).replay.SameButTimes (s'.after ops w').replay ∧
        (s.after ops w).replay.metrics.untimed = (s'.after ops w').replay.metrics.untimed ∧
        (s.after ops w).AnswersAlike (s'.after ops w'))) ∧
    ((Cache.Store.ping cache).1 = false →
      (∀ s, start settings cache = .ok s → ∀ ops w,
        (s.after ops w).cache = (Cache.Store.ping cache).2) ∧
      ∀ s, start settings (Cache.Watched.new cache) = .ok s → ∀ ops w,
        (s.after ops w).cache.requests = [.ping]) := by
  refine ⟨?_, ?_, ?_⟩
  · rw [start_map_replay, start_map_replay]
  · intro s s' started started' ops
    have same : s.replay = s'.replay :=
      Except.ok.inj ((start_ok started).2.symm.trans (start_ok started').2)
    refine ⟨?_, ?_⟩
    · intro w
      have still := replay_after_congr same ops w
      exact ⟨still, answersAlike_of_sameButTimes (still ▸ .refl _)⟩
    · intro untimed w w'
      have times : (s.after ops w).replay.SameButTimes (s'.after ops w').replay :=
        sameButTimes_after (same ▸ .refl _) untimed w w'
      exact ⟨times, times.metrics, answersAlike_of_sameButTimes times⟩
  · intro absent
    refine ⟨fun s started ops w => cache_after_of_ping started absent ops w, ?_⟩
    intro s started ops w
    rw [cache_after_of_ping started absent ops w]
    rfl

/-- A cache that refuses everything beside none, in a run that trades. -/
theorem independent_of_cache_sample :
    Session.start Sample.settings Cache.Absent.mk = .ok Sample.session ∧
    Session.start Sample.settings Sample.Refusing.mk = .ok Sample.refused ∧
    (Sample.session.after Sample.operations Sample.clock).replay.trades.size = 5 ∧
    (Sample.session.after Sample.operations Sample.clock).replay =
      (Sample.refused.after Sample.operations Sample.clock).replay ∧
    (Cache.Store.ping Cache.Absent.mk).1 = false ∧
    Session.start Sample.settings (Cache.Watched.new Cache.Absent.mk) = .ok Sample.watched ∧
    (Sample.watched.after Sample.operations Sample.clock).cache.requests = [.ping] := by
  obtain ⟨_, alike, unasked⟩ :=
    independent_of_cache Sample.settings Cache.Absent.mk Sample.Refusing.mk
  obtain ⟨once, _⟩ := alike _ _ Sample.started Sample.startedRefused Sample.operations
  refine ⟨Sample.started, Sample.startedRefused, ?_, (once Sample.clock).1, rfl,
    Sample.startedWatched, ?_⟩
  · decide +kernel
  · exact (unasked rfl).2 _ Sample.startedWatched Sample.operations Sample.clock

end Session

end MarketMaker
