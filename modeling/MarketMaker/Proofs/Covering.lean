import MarketMaker.CommandLine.Folder
import MarketMaker.CommandLine.Program
import MarketMaker.Proofs.Attempts
import MarketMaker.Proofs.Loading
import MarketMaker.Proofs.Requirements
import MarketMaker.Proofs.Walking

/-!
# Quoting a whole feed

Settings that name no symbol are completed from the ticks, and then checked like any others. The check
can find nothing wrong with the symbols of ticks but that one is blank (`Settings.check_covering`): a
feed with such a symbol is not run at all, though the tick would have been passed over had the settings
named the other symbols. Any other feed is run if there can be room for the windows, with a desk for every
symbol in it and for no other, and every tick with finite prices is answered (`Session.covering_runs`).
-/

namespace MarketMaker

/-! ## The symbols of ticks -/

namespace Settings

theorem mem_symbolsOf {ticks : List Tick} {symbol : String} :
    symbol ∈ symbolsOf ticks ↔ ∃ t ∈ ticks, t.symbol = symbol := by
  have fold : ∀ known : Table Unit,
      (((ticks.foldl (fun known t => known.insert t.symbol ()) known).find? symbol).isSome ↔
        (known.find? symbol).isSome ∨ ∃ t ∈ ticks, t.symbol = symbol) := by
    induction ticks with
    | nil => simp
    | cons t ts ih =>
      intro known
      rw [List.foldl_cons, ih, Table.find?_insert, List.exists_mem_cons_iff, ← or_assoc]
      refine or_congr_left ?_
      split
      next same => simp [same]
      next other => simp [Ne.symm other]
  rw [symbolsOf, Table.mem_keys, fold, Table.find?_empty]
  simp

theorem covering_of_nil {s : Settings} (unnamed : s.quoters = []) (ticks : List Tick) :
    s.covering ticks = { s with quoters := (symbolsOf ticks).map fun symbol => { symbol } } := by
  rw [covering, unnamed]
  rfl

theorem engine_covering (s : Settings) (ticks : List Tick) :
    (s.covering ticks).engine = s.engine := by
  unfold covering
  split
  · rfl
  · rfl

theorem hasRoom_covering {s : Settings} (unnamed : s.quoters = []) (ticks : List Tick) :
    (s.covering ticks).HasRoom ↔ ticks = [] ∨ s.engine.volatility.HasRoom := by
  have known : symbolsOf ticks = [] ↔ ticks = [] := by
    rw [List.eq_nil_iff_forall_not_mem, List.eq_nil_iff_forall_not_mem]
    simp [mem_symbolsOf]
  rw [covering_of_nil unnamed, HasRoom, List.map_eq_nil_iff, known]

theorem symbols_covering {s : Settings} (unnamed : s.quoters = []) (ticks : List Tick) :
    (s.covering ticks).quoters.map QuoterSettings.symbol = symbolsOf ticks := by
  rw [covering_of_nil unnamed, List.map_map]
  exact List.map_id _

end Settings

/-- In different symbols that are quoted in the standard way, the check finds a blank one or nothing. -/
theorem QuoterSettings.checkAll_standard {seen symbols : List String} (distinct : symbols.Nodup)
    (unseen : ∀ symbol ∈ symbols, symbol ∉ seen) :
    checkAll seen (symbols.map fun symbol => { symbol }) =
      if symbols.any Text.isAllBlank then .error .blankSymbol else .ok () := by
  induction symbols generalizing seen with
  | nil => rfl
  | cons symbol symbols ih =>
    obtain ⟨other, rest⟩ := List.nodup_cons.1 distinct
    obtain ⟨new, later⟩ := List.forall_mem_cons.1 unseen
    have spread : isNonNegative ({ symbol } : QuoterSettings).spread = true :=
      (by decide +kernel : isNonNegative 2.0 = true)
    rw [List.map_cons, checkAll, QuoterSettings.check, List.any_cons]
    cases Text.isAllBlank symbol with
    | true => rfl
    | false =>
      have unmet : ∀ s ∈ symbols, s ∉ symbol :: seen := by
        intro s member known
        rcases List.mem_cons.1 known with rfl | known
        · exact other member
        · exact later s member known
      rw [spread, List.contains_eq_mem, decide_eq_false new]
      exact ih rest unmet

namespace Settings

/-- Settings that are fine by themselves have one fault at most once they quote the symbols of ticks. -/
theorem check_covering {s : Settings} (unnamed : s.quoters = []) (valid : s.check = .ok ())
    (ticks : List Tick) :
    (s.covering ticks).check =
      if ticks.any (Text.isAllBlank ·.symbol) then .error .blankSymbol else .ok () := by
  have same : (symbolsOf ticks).any Text.isAllBlank = ticks.any (Text.isAllBlank ·.symbol) := by
    rw [Bool.eq_iff_iff, List.any_eq_true, List.any_eq_true]
    simp [mem_symbolsOf]
  rw [check, bind_eq_ok_iff, bind_eq_ok_iff] at valid
  obtain ⟨engine, cache, _⟩ := valid
  rw [covering_of_nil unnamed, check, engine, cache, ← same]
  exact QuoterSettings.checkAll_standard (Table.nodup_keys _) fun _ _ => List.not_mem_nil

end Settings

/-! ## Synthetic ticks -/

/-- The symbols of the program's own feed are not blank. -/
theorem CommandLine.Options.symbol_of_syntheticTicks {o : Options} {ticks : List Tick}
    (h : o.syntheticTicks = .ok ticks) : ∀ t ∈ ticks, Text.isAllBlank t.symbol = false := by
  have standard : ∀ symbol ∈ o.walkSettings.symbols, Text.isAllBlank symbol = false := by
    change ∀ symbol ∈ ["AAPL", "GOOGL", "MSFT"], Text.isAllBlank symbol = false
    decide
  unfold syntheticTicks at h
  cases made : o.walkSettings.ticks Random.KeyStream with
  | error fault =>
    rw [made] at h
    exact absurd h (by simp [Except.mapError])
  | ok ticks' =>
    rw [made] at h
    obtain rfl := Except.ok.inj h
    exact fun t member => standard _ (Feed.WalkSettings.symbol_of_mem_ticks made t member)

/-! ## Ticks that are answered -/

namespace Replay

/-- The ticks that are answered are those with finite prices whose symbols have desks. -/
theorem size_latency_takeAll (r : Replay) (ticks : List Tick) :
    (r.takeAll ticks).latency.size =
      r.latency.size + ticks.countP fun t => t.isFinite && r.quotes t.symbol := by
  induction ticks generalizing r with
  | nil => rfl
  | cons t ts ih =>
    have own : (r.take t .zero).latency.size =
        r.latency.size + if t.isFinite && r.quotes t.symbol then 1 else 0 := by
      cases finite : t.isFinite with
      | false => rw [take_of_not_finite .zero finite]; rfl
      | true =>
        rw [take_eq_respond .zero finite]
        cases r.quotes t.symbol with
        | false => rfl
        | true => exact Array.size_push _
    change ((r.take t .zero).takeAll ts).latency.size = _
    rw [ih, quotes_take, own, List.countP_cons, Nat.add_assoc, Nat.add_comm (List.countP _ ts)]

end Replay

/-! ## Where time stands still -/

/-- The program's run of ticks among files in memory. -/
def CommandLine.replayIn {σ : Type} [Cache.Store σ] (f : Folder) (o : Options) (settings : Settings)
    (ticks : List Tick) (cache : σ) : Except Failure (Session σ) × Folder :=
  (replay o settings ticks cache : ExceptT Failure (StateM Folder) (Session σ)).run f

namespace Session

open CommandLine

variable {σ : Type} [Cache.Store σ]

/-- Among files in memory a run is what it is where time stands still. -/
theorem runBy_folder (s : Session σ) (ticks : List Tick) (budget : Option Duration) :
    (s.runBy ticks budget : ExceptT Failure (StateM Folder) (Session σ)) =
      pure (s.run ticks budget) := by
  have tick : ∀ (s : Session σ) (t : Tick),
      (s.takeTick t : ExceptT Failure (StateM Folder) _) = pure (Id.run (s.takeTick t)) := by
    intro s t
    unfold takeTick
    cases s.accept t with
    | error _ => rfl
    | ok s =>
      simp only
      split
      · rfl
      · rfl
  have all : ∀ (begun : Duration) (ticks : List Tick) (s : Session σ),
      (takeTicks budget begun ticks s : ExceptT Failure (StateM Folder) _) =
        pure (Id.run (takeTicks budget begun ticks s)) := by
    intro begun ticks
    induction ticks with
    | nil => exact fun s => rfl
    | cons t ts ih =>
      intro s
      have now : (Clock.now : ExceptT Failure (StateM Folder) Duration) = pure .zero := rfl
      unfold takeTicks
      rw [now, pure_bind, tick]
      split
      next exhausted => exact congrArg pure (if_pos exhausted).symm
      next left =>
        rw [pure_bind, ih]
        exact congrArg pure (if_neg left).symm
  unfold runBy
  have now : (Clock.now : ExceptT Failure (StateM Folder) Duration) = pure .zero := rfl
  rw [now, pure_bind, all, pure_bind, pure_bind]
  rfl

theorem replayIn_of_error {settings : Settings} {cache : σ} {halt : Halt}
    (h : start settings cache = .error halt) (f : Folder) (o : Options) (ticks : List Tick) :
    replayIn f o settings ticks cache = (.error (.ofHalt halt), f) := by
  rw [replayIn, CommandLine.replay, h]
  rfl

theorem replayIn_of_ok {settings : Settings} {cache : σ} {s : Session σ}
    (h : start settings cache = .ok s) {o : Options} {budget : Option Duration}
    (within : o.timeBudget = .ok budget) (f : Folder) (ticks : List Tick) :
    replayIn f o settings ticks cache = (.ok (s.run ticks budget), f) := by
  rw [replayIn, CommandLine.replay, h, within]
  change (s.runBy ticks budget : ExceptT Failure (StateM Folder) (Session σ)).run f = _
  rw [runBy_folder]
  rfl

theorem quotes_covering {settings : Settings} (unnamed : settings.quoters = []) {ticks : List Tick}
    {cache : σ} {s : Session σ} (started : start (settings.covering ticks) cache = .ok s)
    (symbol : String) : s.replay.quotes symbol = true ↔ ∃ t ∈ ticks, t.symbol = symbol := by
  rw [Replay.quotes_new (start_ok started).2, Settings.symbols_covering unnamed,
    Settings.mem_symbolsOf]

/-- The desk of a tick's symbol is a standard one. -/
theorem desk?_covering {settings : Settings} (unnamed : settings.quoters = []) {ticks : List Tick}
    {cache : σ} {s : Session σ} (started : start (settings.covering ticks) cache = .ok s) {t : Tick}
    (member : t ∈ ticks) : s.replay.desk? t.symbol =
      some (.new settings.engine.volatility (settings.quoter { symbol := t.symbol })) := by
  have configured : { symbol := t.symbol } ∈ (settings.covering ticks).quoters := by
    rw [Settings.covering_of_nil unnamed]
    exact List.mem_map_of_mem (Settings.mem_symbolsOf.2 ⟨t, member, rfl⟩)
  have desk := Replay.desk?_new (start_ok started).2 configured
  rwa [settings.engine_covering] at desk

/-- A session whose desks are those of all symbols in some ticks answers each of these, unless a price
is not finite. -/
theorem counts_runBy {settings : Settings} {cache : σ} {s : Session σ}
    (started : start settings cache = .ok s) {ticks : List Tick}
    (quoted : ∀ t ∈ ticks, s.replay.quotes t.symbol = true) (w : Readings) :
    let r := ((s.runBy ticks none : StateM Readings (Session σ)) w).1.replay
    r.latency.size = ticks.countP Tick.isFinite ∧
      r.ticksProcessed = .ofNat (ticks.countP Tick.isFinite) := by
  intro r
  have whole : Replay.SameButTimes r (s.replay.takeAll ticks) := sameButTimes_runBy s ticks w
  have new := Replay.reset_new (start_ok started).2
  have answered : (ticks.countP fun t => t.isFinite && s.replay.quotes t.symbol) =
      ticks.countP Tick.isFinite :=
    List.countP_congr fun t member => by rw [quoted t member, Bool.and_true]
  constructor
  · rw [whole.samples, Replay.size_latency_takeAll, answered, ← new]
    exact Nat.zero_add _
  · rw [← whole.same]
    change (s.replay.takeAll ticks).ticksProcessed = _
    rw [Replay.ticksProcessed_takeAll, ← new]
    exact UInt64.zero_add _

/-- **Any feed is quoted in which no symbol is blank.** Settings without quoters that pass their check
pass it again when they are completed from ticks, unless the symbol of a tick is blank; the program's own
feed has no such tick. If they do not pass, nothing is run. If they do, and there can be room for their
windows, a session starts whatever the cache, with a new desk in the standard way for each symbol of a
tick and for no other. None of these desks is ever lost, a run answers every tick with finite prices, and
the program's run comes to its end. Where there is no room, the program breaks off before the first
tick. -/
theorem covering_runs {settings : Settings} (unnamed : settings.quoters = [])
    (valid : settings.check = .ok ()) (ticks : List Tick) :
    let full := settings.covering ticks
    (full.check = .ok () ↔ ∀ t ∈ ticks, Text.isAllBlank t.symbol = false) ∧
    (full.HasRoom ↔ ticks = [] ∨ settings.engine.volatility.HasRoom) ∧
    (∀ o : Options, o.syntheticTicks = .ok ticks → full.check = .ok ()) ∧
    (full.check ≠ .ok () → full.check = .error .blankSymbol ∧
      ∀ cache : σ, start full cache = .error (.refused .blankSymbol) ∧
        ∀ f o, replayIn f o full ticks cache = (.error (.error (.settings .blankSymbol)), f)) ∧
    (full.check = .ok () → ¬ full.HasRoom → ∀ cache : σ, start full cache = .error .noRoom ∧
      ∀ f o, replayIn f o full ticks cache = (.error .noRoom, f)) ∧
    (full.check = .ok () → full.HasRoom → ∀ cache : σ, ∃ s, start full cache = .ok s ∧
      s.replay.desks.keys.Nodup ∧
      (∀ symbol, symbol ∈ s.replay.desks.keys ↔ ∃ t ∈ ticks, t.symbol = symbol) ∧
      (∀ t ∈ ticks, s.replay.desk? t.symbol =
        some (.new settings.engine.volatility (settings.quoter { symbol := t.symbol }))) ∧
      (∀ ops w, ∀ t ∈ ticks, (s.after ops w).replay.quotes t.symbol = true) ∧
      (∀ w, let r := ((s.runBy ticks none : StateM Readings (Session σ)) w).1.replay
        r.latency.size = ticks.countP Tick.isFinite ∧
          r.ticksProcessed = .ofNat (ticks.countP Tick.isFinite)) ∧
      ∀ f (o : Options) budget, o.timeBudget = .ok budget →
        replayIn f o full ticks cache = (.ok (s.run ticks budget), f)) := by
  intro full
  have checked : full.check = _ := Settings.check_covering unnamed valid ticks
  have fine : full.check = .ok () ↔ ∀ t ∈ ticks, Text.isAllBlank t.symbol = false := by
    rw [checked]
    cases blank : ticks.any (Text.isAllBlank ·.symbol) with
    | true => simpa using blank
    | false => simpa using blank
  refine ⟨fine, Settings.hasRoom_covering unnamed ticks,
    fun o made => fine.2 (Options.symbol_of_syntheticTicks made), ?_, ?_, ?_⟩
  · intro faulty
    have told : full.check = .error .blankSymbol := by
      rw [checked] at faulty ⊢
      split at faulty
      next blank => rw [if_pos blank]
      next => exact absurd rfl faulty
    refine ⟨told, fun cache => ?_⟩
    have refused := start_of_faulty told cache
    exact ⟨refused, fun f o => replayIn_of_error refused f o ticks⟩
  · intro passes lacking cache
    have halted := start_of_lacking passes lacking cache
    exact ⟨halted, fun f o => replayIn_of_error halted f o ticks⟩
  · intro passes room cache
    obtain ⟨s, started⟩ := exists_start passes room cache
    have named := quotes_covering unnamed started
    have quoted : ∀ t ∈ ticks, s.replay.quotes t.symbol = true := fun t member =>
      (named t.symbol).2 ⟨t, member, rfl⟩
    refine ⟨s, started, Table.nodup_keys _, fun symbol => ?_,
      fun t member => desk?_covering unnamed started member, fun ops w t member => ?_,
      counts_runBy started quoted, fun f o budget within => replayIn_of_ok started within f ticks⟩
    · rw [Table.mem_keys, ← named]
      rfl
    · exact (quotes_after_iff s ops w t.symbol).2 (.inl (quoted t member))

/-- Three ticks in two symbols, one of them at no price, and with a blank symbol put behind them. -/
theorem covering_runs_sample :
    let ticks := [Sample.tick "B", { Sample.tick "A" with bid := 1.0 / 0.0 }, Sample.tick "B"]
    ({} : Settings).quoters = [] ∧ ({} : Settings).check = .ok () ∧
      (∃ s, start (({} : Settings).covering ticks) Cache.Absent.mk = .ok s ∧
        "A" ∈ s.replay.desks.keys ∧ "B" ∈ s.replay.desks.keys ∧ "C" ∉ s.replay.desks.keys ∧
        ((s.runBy ticks none : StateM Readings _) Sample.clock).1.replay.latency.size = 2) ∧
      start (({} : Settings).covering (ticks ++ [Sample.tick " "])) Cache.Absent.mk =
        .error (.refused .blankSymbol) := by
  intro ticks
  have valid : ({} : Settings).check = .ok () := by decide +kernel
  obtain ⟨fine, roomy, _, _, _, runs⟩ := @covering_runs Cache.Absent _ {} rfl valid ticks
  obtain ⟨fine', _, _, halts, _⟩ :=
    @covering_runs Cache.Absent _ {} rfl valid (ticks ++ [Sample.tick " "])
  have passes : (({} : Settings).covering ticks).check = .ok () := fine.2 (by decide +kernel)
  have room : (({} : Settings).covering ticks).HasRoom := roomy.2 (.inr trivial)
  have faulty : (({} : Settings).covering (ticks ++ [Sample.tick " "])).check ≠ .ok () :=
    fun passes => absurd (fine'.1 passes) (by decide +kernel)
  obtain ⟨s, started, _, named, _, _, counts, _⟩ := runs passes room Cache.Absent.mk
  refine ⟨rfl, valid, ⟨s, started, (named "A").2 ?_, (named "B").2 ?_, fun known => ?_, ?_⟩,
    ((halts faulty).2 Cache.Absent.mk).1⟩
  · exact ⟨_, List.mem_cons_of_mem _ List.mem_cons_self, rfl⟩
  · exact ⟨_, List.mem_cons_self, rfl⟩
  · exact absurd ((named "C").1 known) (by decide +kernel)
  · exact (counts Sample.clock).1.trans (by decide +kernel)

end Session

/-! ## A feed that is not quoted -/

namespace Sample

/-- A line that holds a tick whose symbol is one space. -/
def blankFeed : ByteArray :=
  ("\x7b\"symbol\":\" \",\"bid\":100.0,\"ask\":100.05,\"bid_size\":1,\"ask_size\":1," ++
    "\"timestamp\":1\x7d").toUTF8

/-- The tick. -/
def blankTick : Tick := ⟨" ", 100.0, 100.05, 1, 1, 1, none, none⟩

/-- A folder with this feed in it. -/
def blankFolder : CommandLine.Folder :=
  (CommandLine.Folder.empty (.ofNanoseconds 0)).putAll [("ticks.jsonl", blankFeed)]

end Sample

/-- A feed of one tick in a blank symbol is loaded, and then ends the program: the standard settings,
fine by themselves, are refused once they are to quote that symbol. -/
theorem Session.blank_symbol_halts :
    (∃ c, Feed.ofBytes Sample.blankFeed = .ok ([Sample.blankTick], c)) ∧
      ({} : Settings).quoters = [] ∧ ({} : Settings).check = .ok () ∧
      (({} : Settings).covering [Sample.blankTick]).check = .error .blankSymbol ∧
      start (({} : Settings).covering [Sample.blankTick]) Cache.Absent.mk =
        .error (.refused .blankSymbol) ∧
      let outcome := ((CommandLine.run ["--ticks", "ticks.jsonl"] : StateM CommandLine.Folder _).run
        Sample.blankFolder).1
      outcome.status = 1 ∧ outcome.output = "" ∧
        outcome.complaint = "Error: Configuration error: strategy symbol must not be empty" := by
  have loaded : (Feed.ofBytes Sample.blankFeed).toOption.map Prod.fst = some [Sample.blankTick] := by
    decide +kernel
  obtain ⟨⟨ticks, c⟩, read, rfl⟩ := Option.map_eq_some_iff.1 loaded
  refine ⟨⟨c, Sample.ok_of_toOption read⟩, rfl, ?_, ?_, ?_, ?_⟩
  · decide +kernel
  · decide +kernel
  · rfl
  · decide +kernel

end MarketMaker
