import MarketMaker.Proofs.Registration
import MarketMaker.Settings.Validate

/-!
# What passes the checks

The checks pass exactly the settings that are meaningful, part by part. Settings that pass them start a
session if there can be room for the windows they ask for; a start has no third end beside that and a
refusal (`Session.start_cases`). Once there is a desk, a reset finds room again (`Session.make?_reset`).
-/

namespace MarketMaker

theorem ensure_eq_ok_iff {condition : Bool} {fault : SettingsFault} :
    ensure condition fault = .ok () ↔ condition = true := by
  cases condition with
  | true => exact iff_of_true rfl rfl
  | false => simp [ensure]

/-- A check passes after another if both pass. -/
theorem bind_eq_ok_iff {check rest : Except SettingsFault Unit} :
    (check >>= fun _ => rest) = .ok () ↔ check = .ok () ∧ rest = .ok () := by
  cases check with
  | error fault => simp [bind, Except.bind]
  | ok u => simp [bind, Except.bind]

theorem VolatilitySource.check_eq_ok_iff (v : VolatilitySource) :
    v.check = .ok () ↔ v.Meaningful := by
  cases v with
  | fixed value => exact ensure_eq_ok_iff
  | rolling window fallback =>
    simp [check, Meaningful, bind_eq_ok_iff, ensure_eq_ok_iff]

theorem EngineSettings.check_eq_ok_iff (s : EngineSettings) : s.check = .ok () ↔ s.Meaningful := by
  simp only [check, bind_eq_ok_iff, ensure_eq_ok_iff, VolatilitySource.check_eq_ok_iff,
    decide_eq_true_eq, Bool.and_eq_true]
  constructor
  · rintro ⟨slippage, lot, improvement, tolerance, interval, volatility⟩
    exact ⟨slippage, lot, improvement, tolerance, interval, volatility⟩
  · rintro ⟨slippage, lot, improvement, tolerance, interval, volatility⟩
    exact ⟨slippage, lot, improvement, tolerance, interval, volatility⟩

theorem CacheSettings.check_eq_ok_iff (s : CacheSettings) : s.check = .ok () ↔ s.Meaningful := by
  rw [check, bind_eq_ok_iff, ensure_eq_ok_iff, ensure_eq_ok_iff]
  exact ⟨fun ⟨tick, trade⟩ => ⟨tick, trade⟩, fun ⟨tick, trade⟩ => ⟨tick, trade⟩⟩

theorem QuoterSettings.check_eq_ok_iff (s : QuoterSettings) : s.check = .ok () ↔ s.Meaningful := by
  rw [check, bind_eq_ok_iff, ensure_eq_ok_iff, ensure_eq_ok_iff, Bool.not_eq_true']
  exact ⟨fun ⟨symbol, spread⟩ => ⟨symbol, spread⟩, fun ⟨symbol, spread⟩ => ⟨symbol, spread⟩⟩

theorem QuoterSettings.meaningful_of_checkAll {seen : List String} {quoters : List QuoterSettings}
    (h : checkAll seen quoters = .ok ()) : ∀ q ∈ quoters, q.Meaningful := by
  induction quoters generalizing seen with
  | nil => exact fun q member => absurd member List.not_mem_nil
  | cons s rest ih =>
    rw [checkAll, bind_eq_ok_iff, bind_eq_ok_iff] at h
    intro q member
    rcases List.mem_cons.1 member with rfl | later
    · exact q.check_eq_ok_iff.1 h.1
    · exact ih h.2.2 q later

namespace Settings

variable {s : Settings}

theorem engine_meaningful (h : s.check = .ok ()) : s.engine.Meaningful := by
  rw [check, bind_eq_ok_iff] at h
  exact (s.engine.check_eq_ok_iff).1 h.1

theorem cache_meaningful (h : s.check = .ok ()) : s.cache.Meaningful := by
  rw [check, bind_eq_ok_iff, bind_eq_ok_iff] at h
  exact (s.cache.check_eq_ok_iff).1 h.2.1

theorem quoters_meaningful (h : s.check = .ok ()) : ∀ q ∈ s.quoters, q.Meaningful := by
  rw [check, bind_eq_ok_iff, bind_eq_ok_iff] at h
  exact QuoterSettings.meaningful_of_checkAll h.2.2

end Settings

/-! ## The start -/

/-- Quoters that pass their check can all be added, one after the other, if there can be room for their
windows. -/
theorem Replay.exists_addQuoters {seen : List String} {quoters : List QuoterSettings}
    (h : QuoterSettings.checkAll seen quoters = .ok ()) (settings : EngineSettings) {r : Replay}
    (room : quoters = [] ∨ r.settings.volatility.HasRoom)
    (known : ∀ symbol, r.quotes symbol = true → symbol ∈ seen) :
    ∃ r', quoters.foldlM (fun r q =>
      r.addQuoter (.new q settings.lotSize settings.priceImprovement)) r = .ok r' := by
  induction quoters generalizing seen r with
  | nil => exact ⟨r, rfl⟩
  | cons q qs ih =>
    rw [QuoterSettings.checkAll, bind_eq_ok_iff, bind_eq_ok_iff, ensure_eq_ok_iff] at h
    obtain ⟨_, unseen, rest⟩ := h
    have absent : r.desk? q.symbol = none := by
      cases there : r.desk? q.symbol with
      | none => rfl
      | some d =>
        have member := known q.symbol (Option.isSome_iff_exists.2 ⟨d, there⟩)
        simp [member] at unseen
    have room : r.settings.volatility.HasRoom := room.resolve_left (by simp)
    obtain ⟨r', added⟩ : ∃ r',
        r.addQuoter (.new q settings.lotSize settings.priceImprovement) = .ok r' :=
      ⟨_, addQuoter_eq_ok_iff.2 ⟨absent, room, rfl⟩⟩
    have later : ∀ symbol, r'.quotes symbol = true → symbol ∈ q.symbol :: seen := by
      intro symbol quoted
      rcases (quotes_addQuoter added symbol).1 quoted with before | rfl
      · exact List.mem_cons_of_mem _ (known symbol before)
      · exact List.mem_cons_self
    obtain ⟨r'', all⟩ := ih rest (.inr (settings_addQuoter added ▸ room)) later
    exact ⟨r'', by rw [List.foldlM_cons, added]; exact all⟩

/-- Where there is no room, the first quoter already finds none. -/
theorem Replay.new_of_lacking {settings : EngineSettings} (lacking : ¬ settings.volatility.HasRoom)
    (q : QuoterSettings) (quoters : List QuoterSettings) :
    Replay.new settings (q :: quoters) = .error .noRoom := by
  have found : (empty settings).addQuoter (.new q settings.lotSize settings.priceImprovement) =
      .error .noRoom := by
    rw [addQuoter, show (empty settings).settings = settings from rfl,
      Desk.make?_eq_none_iff.2 lacking]
    exact if_neg (by simp [empty, Table.contains, Table.find?_empty])
  rw [Replay.new, List.foldlM_cons, found]
  rfl

namespace Session

variable {σ : Type} [Cache.Store σ] {settings : Settings}

/-- Settings that do not pass their check start no session, for the fault that the check tells. -/
theorem start_of_faulty {fault : SettingsFault} (faulty : settings.check = .error fault)
    (cache : σ) : start settings cache = .error (.refused fault) := by
  rw [start, faulty]
  rfl

/-- Settings that pass their check start a session, whatever the cache, if there can be room for it. -/
theorem exists_start (valid : settings.check = .ok ()) (room : settings.HasRoom) (cache : σ) :
    ∃ s, start settings cache = .ok s := by
  have quoters := valid
  rw [Settings.check, bind_eq_ok_iff, bind_eq_ok_iff] at quoters
  obtain ⟨r, made⟩ := Replay.exists_addQuoters quoters.2.2 settings.engine
    (r := Replay.empty settings.engine) room (by simp [Replay.quotes, Replay.empty, Table.contains,
      Table.find?_empty])
  exact ⟨_, start_eq_ok_iff.2 ⟨valid, r, made, rfl⟩⟩

theorem start_of_lacking (valid : settings.check = .ok ()) (lacking : ¬ settings.HasRoom)
    (cache : σ) : start settings cache = .error .noRoom := by
  obtain ⟨named, lacking⟩ := not_or.1 lacking
  obtain ⟨q, quoters, named⟩ := List.exists_cons_of_ne_nil named
  rw [start, valid, named, Replay.new_of_lacking lacking]
  rfl

/-- The three ends of a start. -/
theorem start_cases (settings : Settings) (cache : σ) :
    (∃ fault, start settings cache = .error (.refused fault) ∧ settings.check = .error fault) ∨
    start settings cache = .error .noRoom ∧ settings.check = .ok () ∧ ¬ settings.HasRoom ∨
    ∃ s, start settings cache = .ok s ∧ settings.check = .ok () ∧ settings.HasRoom := by
  cases checked : settings.check with
  | error fault => exact .inl ⟨fault, start_of_faulty checked cache, rfl⟩
  | ok _ =>
    by_cases room : settings.HasRoom
    · obtain ⟨s, started⟩ := exists_start checked room cache
      exact .inr (.inr ⟨s, started, rfl, room⟩)
    · exact .inr (.inl ⟨start_of_lacking checked room cache, rfl, room⟩)

theorem start_eq_refused_iff {cache : σ} {fault : SettingsFault} :
    start settings cache = .error (.refused fault) ↔ settings.check = .error fault := by
  rcases start_cases settings cache with ⟨_, ends, told⟩ | ⟨ends, told, _⟩ | ⟨_, ends, told, _⟩
  · simp [ends, told]
  · simp [ends, told]
  · simp [ends, told]

theorem start_eq_noRoom_iff {cache : σ} :
    start settings cache = .error .noRoom ↔ settings.check = .ok () ∧ ¬ settings.HasRoom := by
  rcases start_cases settings cache with ⟨_, ends, told⟩ | ⟨ends, told, room⟩ | ⟨_, ends, told, room⟩
  · simp [ends, told]
  · simp [ends, told, room]
  · simp [ends, told, room]

/-- A session starts from just the settings that pass their check and that there can be room for. -/
theorem exists_start_iff {cache : σ} :
    (∃ s, start settings cache = .ok s) ↔ settings.check = .ok () ∧ settings.HasRoom := by
  rcases start_cases settings cache with ⟨_, ends, told⟩ | ⟨ends, told, room⟩ | ⟨_, ends, told, room⟩
  · simp [ends, told]
  · simp [ends, told, room]
  · simp [ends, told, room]

/-- What a reset makes of a desk can be made: the desk could be. -/
theorem make?_reset {cache : σ} {s : Session σ} (started : start settings cache = .ok s)
    (ops : List Operation) (w : Readings) {symbol : String} {d : Desk}
    (hd : (s.after ops w).replay.desk? symbol = some d) :
    Desk.make? settings.engine.volatility d.quoter.reset =
      some (d.reset settings.engine.volatility) := by
  have known := (quotes_after started ops w symbol).1 (Option.isSome_iff_exists.2 ⟨d, hd⟩)
  have room : settings.engine.volatility.HasRoom := by
    rcases (exists_start_iff.1 ⟨s, started⟩).2 with unnamed | room
    · by_cases room : settings.engine.volatility.HasRoom
      · exact room
      · simp [Settings.registered, unnamed, room] at known
    · exact room
  exact Desk.make?_eq_some_iff.2 ⟨room, rfl⟩

end Session

end MarketMaker
