import Mathlib.Tactic.SplitIfs
import MarketMaker.Proofs.Json.Members
import MarketMaker.Proofs.Json.Readable
import MarketMaker.Settings.Json

/-!
# Settings over defaults

Settings are the defaults overlaid with what a document says (`Settings.overlay`): members may stand in any
order among others that are not known, and what has its default may be left out. That is said apart from
the reader (`Settings.SaidBy`), and settings that are written say themselves. An object of settings is
refused if it repeats a name that it knows or omits one that it needs (`Settings.Part`).

An object that says where volatility comes from is told apart by its mode, so it is read in full before
its members are, and refused if anything in it cannot be read, even under a name that is not known.
-/

namespace MarketMaker

open Json (Gives GivesOr Omits Repeats)

namespace VolatilitySource

/-- Members say where volatility comes from. -/
inductive SaidBy : VolatilitySource → List (String × Json) → Prop where
  | fixed {members : List (String × Json)} {value : Float}
      (mode : Gives members "mode" (· = .text "fixed"))
      (given : Gives members "value" fun j => j.asFloat? = some value) :
      SaidBy (.fixed value) members
  | rolling {members : List (String × Json)} {window : UInt64} {fallback : Float}
      (mode : Gives members "mode" (· = .text "rolling"))
      (given : Gives members "window" (· = .ofWord window))
      (given' : Gives members "fallback" fun j => j.asFloat? = some fallback) :
      SaidBy (.rolling window fallback) members

theorem ofJson?_of_saidBy {v : VolatilitySource} {members : List (String × Json)}
    (said : v.SaidBy members) {level : Nat}
    (readable : (Json.record members).isReadable (Json.depthLimit - level) = true) :
    ofJson? level (.record members) = some v := by
  have read : ofJson? level (.record members) =
      ((Json.member? members "mode").bind id).bind fun mode => mode.asText?.bind (ofMembers? members) := by
    unfold ofJson?
    rw [if_pos readable]
    change (Json.named? _).bind _ = _
    rw [Json.named?_record, Option.bind_some]
    rfl
  rw [read]
  cases said with
  | fixed mode given =>
    obtain ⟨_, mode, -, rfl⟩ := mode.member?
    obtain ⟨j, given, -, value⟩ := given.member?
    simp [mode, given, value, ofMembers?]
  | rolling mode given given' =>
    obtain ⟨_, mode, -, rfl⟩ := mode.member?
    obtain ⟨_, given, -, rfl⟩ := given.member?
    obtain ⟨j, given', -, value⟩ := given'.member?
    simp [mode, given, given', value, ofMembers?]

end VolatilitySource

namespace EngineSettings

/-- Members say the engine's settings. -/
structure SaidBy (s : EngineSettings) (members : List (String × Json)) : Prop where
  baseSlippage : GivesOr members "base_slippage_bps" (fun j x => j.asFloat? = some x)
    ({} : EngineSettings).baseSlippage s.baseSlippage
  lotSize : GivesOr members "lot_size" (fun j n => j = .ofWord n) ({} : EngineSettings).lotSize s.lotSize
  priceImprovement : GivesOr members "price_improvement_increment" (fun j x => j.asFloat? = some x)
    ({} : EngineSettings).priceImprovement s.priceImprovement
  fillTolerance : GivesOr members "relaxed_fill_threshold" (fun j x => j.asFloat? = some x)
    ({} : EngineSettings).fillTolerance s.fillTolerance
  volatility : GivesOr members "volatility" (fun j v => ∃ inner, j = .record inner ∧ v.SaidBy inner)
    ({} : EngineSettings).volatility s.volatility
  progressInterval : GivesOr members "progress_interval" (fun j n => j = .ofWord n)
    ({} : EngineSettings).progressInterval s.progressInterval

theorem ofJson?_of_saidBy {s : EngineSettings} {members : List (String × Json)}
    (said : s.SaidBy members) {level : Nat}
    (readable : ∀ j, ("volatility", j) ∈ members →
      j.isReadable (Json.depthLimit - (level + 1)) = true) :
    ofJson? level (.record members) = some s := by
  obtain ⟨_, base, readBase⟩ := said.baseSlippage.slot Json.asFloat? fun _ _ => id
  obtain ⟨_, lot, readLot⟩ := said.lotSize.slot Json.asWord? fun _ _ => Json.asWord?_of_eq
  obtain ⟨_, improvement, readImprovement⟩ :=
    said.priceImprovement.slot Json.asFloat? fun _ _ => id
  obtain ⟨_, tolerance, readTolerance⟩ :=
    said.fillTolerance.slot Json.asFloat? fun _ _ => id
  obtain ⟨_, volatility, readVolatility⟩ :=
    said.volatility.slot (VolatilitySource.ofJson? (level + 1)) fun j member => by
      rintro ⟨inner, rfl, said⟩
      exact VolatilitySource.ofJson?_of_saidBy said (readable _ member)
  obtain ⟨_, interval, readInterval⟩ :=
    said.progressInterval.slot Json.asWord? fun _ _ => Json.asWord?_of_eq
  unfold ofJson?
  rw [Json.slots?_record_eq]
  simp [names, base, lot, improvement, tolerance, volatility, interval, readBase, readLot,
    readImprovement, readTolerance, readVolatility, readInterval]

end EngineSettings

namespace CacheSettings

/-- Members say the cache's settings. -/
structure SaidBy (s : CacheSettings) (members : List (String × Json)) : Prop where
  tickExpiry : GivesOr members "tick_ttl_secs" (fun j n => j = .ofWord n)
    ({} : CacheSettings).tickExpiry s.tickExpiry
  tradeExpiry : GivesOr members "trade_ttl_secs" (fun j n => j = .ofWord n)
    ({} : CacheSettings).tradeExpiry s.tradeExpiry

theorem ofJson?_of_saidBy {s : CacheSettings} {members : List (String × Json)}
    (said : s.SaidBy members) : ofJson? (.record members) = some s := by
  obtain ⟨_, tick, readTick⟩ := said.tickExpiry.slot Json.asWord? fun _ _ => Json.asWord?_of_eq
  obtain ⟨_, trade, readTrade⟩ :=
    said.tradeExpiry.slot Json.asWord? fun _ _ => Json.asWord?_of_eq
  unfold ofJson?
  rw [Json.slots?_record_eq]
  simp [names, tick, trade, readTick, readTrade]

end CacheSettings

namespace QuoterSettings

/-- Members say a quoter's settings, of which the symbol is never left out. -/
structure SaidBy (s : QuoterSettings) (members : List (String × Json)) : Prop where
  symbol : Gives members "symbol" (· = .text s.symbol)
  spread : GivesOr members "spread_bps" (fun j x => j.asFloat? = some x)
    ({ symbol := s.symbol } : QuoterSettings).spread s.spread
  maxPosition : GivesOr members "max_position" (fun j n => j = .ofSigned n)
    ({ symbol := s.symbol } : QuoterSettings).maxPosition s.maxPosition
  inventoryTarget : GivesOr members "inventory_target" (fun j n => j = .ofSigned n)
    ({ symbol := s.symbol } : QuoterSettings).inventoryTarget s.inventoryTarget

theorem ofJson?_of_saidBy {s : QuoterSettings} {members : List (String × Json)}
    (said : s.SaidBy members) : ofJson? (.record members) = some s := by
  obtain ⟨_, symbol, -, rfl⟩ := said.symbol.member?
  obtain ⟨_, spread, readSpread⟩ := said.spread.slot Json.asFloat? fun _ _ => id
  obtain ⟨_, position, readPosition⟩ :=
    said.maxPosition.slot Json.asSigned? fun _ _ => Json.asSigned?_of_eq
  obtain ⟨_, target, readTarget⟩ :=
    said.inventoryTarget.slot Json.asSigned? fun _ _ => Json.asSigned?_of_eq
  unfold ofJson?
  rw [Json.slots?_record_eq]
  simp [names, symbol, spread, position, target, Json.required, readSpread, readPosition, readTarget]

end QuoterSettings

namespace Settings

/-- Members say settings. -/
structure SaidBy (s : Settings) (members : List (String × Json)) : Prop where
  engine : GivesOr members "engine" (fun j e => ∃ inner, j = .record inner ∧ e.SaidBy inner) {} s.engine
  cache : GivesOr members "cache" (fun j c => ∃ inner, j = .record inner ∧ c.SaidBy inner) {} s.cache
  quoters : GivesOr members "strategies" (fun j qs => ∃ items, j = .array items ∧
    List.Forall₂ (fun item q => ∃ inner, item = .record inner ∧ q.SaidBy inner) items qs) [] s.quoters

/-- Everything in the object that says where volatility comes from can be read: numbers are in the range of
doubles, strings name characters, and no array or object stands deeper than the limit. -/
def ReadableVolatility (members : List (String × Json)) : Prop :=
  ∀ engine volatility, ("engine", .record engine) ∈ members → ("volatility", volatility) ∈ engine →
    volatility.isReadable (Json.depthLimit - 2) = true

theorem ofJson?_of_saidBy {s : Settings} {members : List (String × Json)} (said : s.SaidBy members)
    (readable : ReadableVolatility members) : ofJson? (.record members) = some s := by
  obtain ⟨_, engine, readEngine⟩ :=
    said.engine.slot (EngineSettings.ofJson? 1) fun j member => by
      rintro ⟨inner, rfl, said⟩
      exact EngineSettings.ofJson?_of_saidBy said fun j inside => readable inner j member inside
  obtain ⟨_, cache, readCache⟩ := said.cache.slot CacheSettings.ofJson? fun _ _ => by
    rintro ⟨inner, rfl, said⟩
    exact CacheSettings.ofJson?_of_saidBy said
  obtain ⟨_, quoters, readQuoters⟩ :=
    said.quoters.slot (Json.asList? QuoterSettings.ofJson?) fun _ _ => by
      rintro ⟨items, rfl, said⟩
      refine Json.asList?_array (said.imp fun _ _ said => ?_)
      obtain ⟨inner, rfl, said⟩ := said
      exact QuoterSettings.ofJson?_of_saidBy said
  unfold ofJson?
  rw [Json.slots?_record_eq]
  simp [names, engine, cache, quoters, readEngine, readCache, readQuoters]

end Settings

/-! ## Written settings -/

open Json (ReadsBack)

namespace VolatilitySource

/-- The names of what a mode needs. -/
def needs (mode : String) : List String :=
  if mode = "fixed" then ["value"]
  else if mode = "rolling" then ["window", "fallback"]
  else []

/-- The doubles of a source. -/
def doubles : VolatilitySource → List Float
  | fixed value => [value]
  | rolling _ fallback => [fallback]

theorem saidBy_toJson (v : VolatilitySource) (back : ∀ x ∈ v.doubles, ReadsBack x) :
    ∃ members, v.toJson = .record members ∧ v.SaidBy members := by
  cases v with
  | fixed value =>
    have value := (back _ List.mem_cons_self).asFloat?
    exact ⟨_, rfl, .fixed ⟨_, rfl, rfl⟩ ⟨_, rfl, value⟩⟩
  | rolling window fallback =>
    have fallback := (back _ List.mem_cons_self).asFloat?
    exact ⟨_, rfl, .rolling ⟨_, rfl, rfl⟩ ⟨_, rfl, rfl⟩ ⟨_, rfl, fallback⟩⟩

theorem isReadable_toJson (v : VolatilitySource) (back : ∀ x ∈ v.doubles, ReadsBack x) (room : Nat) :
    v.toJson.isReadable (room + 1) = true := by
  cases v with
  | fixed value =>
    have value := (back _ List.mem_cons_self).asFloat?
    refine Json.isReadable_record (List.forall_mem_cons.2 ⟨Json.isReadable_text .., ?_⟩)
    exact List.forall_mem_singleton.2 (Json.isReadable_of_asFloat? _ value)
  | rolling window fallback =>
    have fallback := (back _ List.mem_cons_self).asFloat?
    refine Json.isReadable_record (List.forall_mem_cons.2 ⟨Json.isReadable_text .., ?_⟩)
    refine List.forall_mem_cons.2 ⟨Json.isReadable_ofWord .., ?_⟩
    exact List.forall_mem_singleton.2 (Json.isReadable_of_asFloat? _ fallback)

theorem isWritten_toJson (v : VolatilitySource) : v.toJson.IsWritten := by
  cases v <;> simp [toJson]

end VolatilitySource

namespace EngineSettings

/-- The doubles of the engine's settings. -/
def doubles (s : EngineSettings) : List Float :=
  s.baseSlippage :: s.priceImprovement :: s.fillTolerance :: s.volatility.doubles

theorem saidBy_toJson (s : EngineSettings) (back : ∀ x ∈ s.doubles, ReadsBack x) :
    ∃ members, s.toJson = .record members ∧ s.SaidBy members := by
  simp only [doubles, List.forall_mem_cons] at back
  obtain ⟨base, improvement, tolerance, volatility⟩ := back
  refine ⟨_, rfl, ?_⟩
  constructor
  case baseSlippage => exact .inl ⟨_, rfl, base.asFloat?⟩
  case lotSize => exact .inl ⟨_, rfl, rfl⟩
  case priceImprovement => exact .inl ⟨_, rfl, improvement.asFloat?⟩
  case fillTolerance => exact .inl ⟨_, rfl, tolerance.asFloat?⟩
  case volatility => exact .inl ⟨_, rfl, s.volatility.saidBy_toJson volatility⟩
  case progressInterval => exact .inl ⟨_, rfl, rfl⟩

theorem isWritten_toJson (s : EngineSettings) : s.toJson.IsWritten := by
  simp [toJson, names, s.volatility.isWritten_toJson]

end EngineSettings

namespace CacheSettings

theorem saidBy_toJson (s : CacheSettings) : ∃ members, s.toJson = .record members ∧ s.SaidBy members :=
  ⟨_, rfl, .inl ⟨_, rfl, rfl⟩, .inl ⟨_, rfl, rfl⟩⟩

theorem isWritten_toJson (s : CacheSettings) : s.toJson.IsWritten := by
  simp [toJson, names]

end CacheSettings

namespace QuoterSettings

theorem saidBy_toJson (s : QuoterSettings) (back : ReadsBack s.spread) :
    ∃ members, s.toJson = .record members ∧ s.SaidBy members := by
  refine ⟨_, rfl, ?_⟩
  constructor
  case symbol => exact ⟨_, rfl, rfl⟩
  case spread => exact .inl ⟨_, rfl, back.asFloat?⟩
  case maxPosition => exact .inl ⟨_, rfl, rfl⟩
  case inventoryTarget => exact .inl ⟨_, rfl, rfl⟩

theorem isWritten_toJson (s : QuoterSettings) : s.toJson.IsWritten := by
  simp [toJson, names]

end QuoterSettings

namespace Settings

/-- The doubles of settings. -/
def doubles (s : Settings) : List Float :=
  s.engine.doubles ++ s.quoters.map QuoterSettings.spread

theorem saidBy_toJson (s : Settings) (back : ∀ x ∈ s.doubles, ReadsBack x) :
    ∃ members, s.toJson = .record members ∧ s.SaidBy members := by
  obtain ⟨engine, quoters⟩ := List.forall_mem_append.1 back
  refine ⟨_, rfl, ?_⟩
  constructor
  case engine => exact .inl ⟨_, rfl, s.engine.saidBy_toJson engine⟩
  case cache => exact .inl ⟨_, rfl, s.cache.saidBy_toJson⟩
  case quoters =>
    refine .inl ⟨_, rfl, _, rfl, ?_⟩
    refine List.forall₂_map_left_iff.2 (List.forall₂_same.2 fun q member => ?_)
    exact q.saidBy_toJson (quoters _ (List.mem_map_of_mem member))

theorem isWritten_toJson (s : Settings) : s.toJson.IsWritten := by
  simp [toJson, names, s.engine.isWritten_toJson, s.cache.isWritten_toJson,
    QuoterSettings.isWritten_toJson]

theorem record_injective : Function.Injective Json.record := by
  intro members members' same
  have same := Json.object.inj same
  refine List.map_injective_iff.2 ?_ same
  rintro ⟨name, j⟩ ⟨name', j'⟩ same
  obtain ⟨name, j⟩ := Prod.mk.inj same
  exact Prod.ext (Option.some.inj name) j

theorem readableVolatility_toJson {s : Settings} (back : ∀ x ∈ s.doubles, ReadsBack x)
    {members : List (String × Json)} (written : s.toJson = .record members) :
    ReadableVolatility members := by
  intro engine volatility outer inner
  obtain rfl := record_injective written
  have engineBack := (List.forall_mem_append.1 back).1
  have outer : Json.record engine = s.engine.toJson := by simpa [names] using outer
  obtain rfl := record_injective outer
  have inner : volatility = s.engine.volatility.toJson := by simpa [EngineSettings.names] using inner
  rw [inner]
  refine s.engine.volatility.isReadable_toJson (fun x member => engineBack x ?_) 124
  exact List.mem_cons_of_mem _ (List.mem_cons_of_mem _ (List.mem_cons_of_mem _ member))

/-! ## Faults -/

/-- An object of settings in a document whose members are `whole`: the names that it knows, those that it
needs, and its members. What the object of a volatility knows depends on its mode. -/
inductive Part (whole : List (String × Json)) :
    List String → List String → List (String × Json) → Prop where
  | whole : Part whole names [] whole
  | engine {members : List (String × Json)} (here : ("engine", .record members) ∈ whole) :
      Part whole EngineSettings.names [] members
  | cache {members : List (String × Json)} (here : ("cache", .record members) ∈ whole) :
      Part whole CacheSettings.names [] members
  | quoter {items : List Json} {members : List (String × Json)}
      (here : ("strategies", .array items) ∈ whole) (item : .record members ∈ items) :
      Part whole QuoterSettings.names ["symbol"] members
  | volatility {engine members : List (String × Json)} (here : ("engine", .record engine) ∈ whole)
      (inside : ("volatility", .record members) ∈ engine) : Part whole ["mode"] ["mode"] members
  | mode {engine members : List (String × Json)} {mode : String}
      (here : ("engine", .record engine) ∈ whole) (inside : ("volatility", .record members) ∈ engine)
      (here' : ("mode", .text mode) ∈ members) :
      Part whole (VolatilitySource.needs mode) (VolatilitySource.needs mode) members

end Settings

namespace VolatilitySource

variable {level : Nat} {members : List (String × Json)} {v : VolatilitySource}

/-- Whatever is read from an object has its mode there once, with all that the mode needs. -/
theorem mode_of_read (h : ofJson? level (.record members) = some v) :
    ∃ j mode, Json.member? members "mode" = some (some j) ∧ j.asText? = some mode ∧
      ofMembers? members mode = some v := by
  unfold ofJson? at h
  obtain ⟨-, h⟩ := Option.ite_none_right_eq_some.1 h
  obtain ⟨named, same, h⟩ := Option.bind_eq_some_iff.1 h
  rw [Json.named?_record] at same
  obtain rfl := Option.some.inj same
  obtain ⟨j, here, h⟩ := Option.bind_eq_some_iff.1 h
  obtain ⟨mode, text, h⟩ := Option.bind_eq_some_iff.1 h
  obtain ⟨_, here, rfl⟩ := Option.bind_eq_some_iff.1 here
  exact ⟨j, mode, here, text, h⟩

theorem found_of_members {mode : String} (h : ofMembers? members mode = some v) :
    ∀ name ∈ needs mode, ∃ j, Json.member? members name = some (some j) := by
  unfold ofMembers? at h
  unfold needs
  split_ifs at h ⊢
  · simp only [Option.bind_eq_bind, Option.bind_eq_some_iff, id] at h
    obtain ⟨j, ⟨_, found, rfl⟩, -⟩ := h
    exact List.forall_mem_singleton.2 ⟨j, found⟩
  · simp only [Option.bind_eq_bind, Option.bind_eq_some_iff, id] at h
    obtain ⟨j, ⟨_, found, rfl⟩, _, -, j', ⟨_, found', rfl⟩, -⟩ := h
    exact List.forall_mem_cons.2 ⟨⟨j, found⟩, List.forall_mem_singleton.2 ⟨j', found'⟩⟩

theorem given_of_read {mode : String} (here : ("mode", .text mode) ∈ members)
    (h : ofJson? level (.record members) = some v) : ofMembers? members mode = some v := by
  obtain ⟨j, mode', found, text, read⟩ := mode_of_read h
  have same := Option.some.inj (Json.member?_of_mem here found)
  rw [same, Json.asText?_text] at text
  rwa [Option.some.inj text]

end VolatilitySource

namespace EngineSettings

theorem volatility_of_read {level : Nat} {members : List (String × Json)} {s : EngineSettings}
    (h : ofJson? level (.record members) = some s) {j : Json} (here : ("volatility", j) ∈ members) :
    ∃ v, VolatilitySource.ofJson? (level + 1) j = some v := by
  obtain ⟨slots, all, h⟩ := Option.bind_eq_some_iff.1 h
  rw [Json.slots?_record_eq] at all
  rcases Json.forall₂_of_mapM all with
    _ | ⟨-, _ | ⟨-, _ | ⟨-, _ | ⟨-, _ | ⟨found, _ | ⟨-, _ | _⟩⟩⟩⟩⟩⟩
  simp only [Option.bind_eq_bind, Option.bind_eq_some_iff] at h
  obtain ⟨_, -, _, -, _, -, _, -, v, read, -⟩ := h
  obtain rfl := Json.member?_of_mem here found
  exact ⟨v, read⟩

end EngineSettings

namespace QuoterSettings

theorem symbol_of_read {members : List (String × Json)} {s : QuoterSettings}
    (h : ofJson? (.record members) = some s) : ¬Omits members "symbol" := by
  obtain ⟨slots, all, h⟩ := Option.bind_eq_some_iff.1 h
  rw [Json.slots?_record_eq] at all
  rcases Json.forall₂_of_mapM all with _ | ⟨found, _ | ⟨-, _ | ⟨-, _ | ⟨-, _ | _⟩⟩⟩⟩
  obtain ⟨symbol, read, -⟩ := Option.bind_eq_some_iff.1 h
  obtain ⟨j, rfl⟩ := Json.exists_of_required read
  exact Json.not_omits_of_member? found

end QuoterSettings

namespace Settings

variable {whole members : List (String × Json)} {known needed : List String} {s : Settings}

/-- Whatever stands under a section's name is read if the settings are. -/
theorem sections_of_read (h : ofJson? (.record whole) = some s) :
    (∀ j, ("engine", j) ∈ whole → ∃ e, EngineSettings.ofJson? 1 j = some e) ∧
    (∀ j, ("cache", j) ∈ whole → ∃ c, CacheSettings.ofJson? j = some c) ∧
    ∀ j, ("strategies", j) ∈ whole → ∃ qs, Json.asList? QuoterSettings.ofJson? j = some qs := by
  obtain ⟨slots, all, h⟩ := Option.bind_eq_some_iff.1 h
  rw [Json.slots?_record_eq] at all
  rcases Json.forall₂_of_mapM all with _ | ⟨engine, _ | ⟨cache, _ | ⟨quoters, _ | _⟩⟩⟩
  simp only [Option.bind_eq_bind, Option.bind_eq_some_iff] at h
  obtain ⟨e, readEngine, c, readCache, qs, readQuoters, -⟩ := h
  refine ⟨fun j here => ?_, fun j here => ?_, fun j here => ?_⟩
  · obtain rfl := Json.member?_of_mem here engine
    exact ⟨e, readEngine⟩
  · obtain rfl := Json.member?_of_mem here cache
    exact ⟨c, readCache⟩
  · obtain rfl := Json.member?_of_mem here quoters
    exact ⟨qs, readQuoters⟩

/-- If settings are read, no object of them repeats a name that it knows or omits one that it needs. -/
theorem Part.complete (part : Part whole known needed members) (h : ofJson? (.record whole) = some s) :
    (∀ name ∈ known, ¬Repeats members name) ∧ ∀ name ∈ needed, ¬Omits members name := by
  obtain ⟨engines, caches, quoters⟩ := sections_of_read h
  cases part with
  | whole =>
    obtain ⟨slots, found, -⟩ := Option.bind_eq_some_iff.1 h
    exact ⟨Json.not_repeats_of_slots? found, by simp⟩
  | engine here =>
    obtain ⟨e, read⟩ := engines _ here
    obtain ⟨slots, found, -⟩ := Option.bind_eq_some_iff.1 read
    exact ⟨Json.not_repeats_of_slots? found, by simp⟩
  | cache here =>
    obtain ⟨c, read⟩ := caches _ here
    obtain ⟨slots, found, -⟩ := Option.bind_eq_some_iff.1 read
    exact ⟨Json.not_repeats_of_slots? found, by simp⟩
  | quoter here item =>
    obtain ⟨qs, read⟩ := quoters _ here
    obtain ⟨q, read⟩ := Json.exists_of_mapM read _ item
    obtain ⟨slots, found, -⟩ := Option.bind_eq_some_iff.1 read
    exact ⟨Json.not_repeats_of_slots? found,
      List.forall_mem_singleton.2 (QuoterSettings.symbol_of_read read)⟩
  | volatility here inside =>
    obtain ⟨e, read⟩ := engines _ here
    obtain ⟨v, read⟩ := EngineSettings.volatility_of_read read inside
    obtain ⟨j, mode, found, -⟩ := VolatilitySource.mode_of_read read
    exact ⟨List.forall_mem_singleton.2 (Json.not_repeats_of_member? found),
      List.forall_mem_singleton.2 (Json.not_omits_of_member? found)⟩
  | mode here inside here' =>
    obtain ⟨e, read⟩ := engines _ here
    obtain ⟨v, read⟩ := EngineSettings.volatility_of_read read inside
    have found := VolatilitySource.found_of_members (VolatilitySource.given_of_read here' read)
    refine ⟨fun name member => ?_, fun name member => ?_⟩
    · obtain ⟨j, found⟩ := found name member
      exact Json.not_repeats_of_member? found
    · obtain ⟨j, found⟩ := found name member
      exact Json.not_omits_of_member? found

/-- If settings are read, so is everything where they say volatility comes from. -/
theorem readableVolatility_of_read (h : ofJson? (.record whole) = some s) : ReadableVolatility whole := by
  intro engine volatility here inside
  obtain ⟨e, read⟩ := (sections_of_read h).1 _ here
  obtain ⟨v, read⟩ := EngineSettings.volatility_of_read read inside
  exact (Option.ite_none_right_eq_some.1 read).1

theorem parse_of_ofJson? {text : String} {j : Json} (parsed : Json.parse? text = some j)
    (read : ofJson? j = some s) : parse text = .ok s := by
  rw [parse, parsed, Option.bind_some, read]

theorem parse_of_not_read {text : String} {j : Json} (parsed : Json.parse? text = some j)
    (refused : ∀ s, ofJson? j ≠ some s) : parse text = .error .json := by
  rw [parse, parsed, Option.bind_some, Option.eq_none_iff_forall_ne_some.2 refused]

/-- **Settings are the defaults overlaid with what a text says.** A text that spells an object is read as
it, whatever blanks it has. If the members say settings, in any order, with any others between them and
with what has its default left out, the text is read as these settings, as long as everything in the object
that says where volatility comes from can be read; if not, it is refused. Settings that are written are read
as the same, if their doubles read back. A text in which an object of the settings repeats a name that it
knows, or omits one that it needs, is refused. -/
theorem overlay :
    (∀ text members, (Json.record members).IsWritten →
      Json.Token.Spells (Json.tokens [] (.record members)) text.toList →
      Json.parse? text = some (.record members)) ∧
    (∀ text members (s : Settings), Json.parse? text = some (.record members) → s.SaidBy members →
      ReadableVolatility members → parse text = .ok s) ∧
    (∀ text members, Json.parse? text = some (.record members) → ¬ReadableVolatility members →
      parse text = .error .json) ∧
    (∀ s : Settings, (∀ x ∈ s.doubles, ReadsBack x) → parse s.toJson.compact = .ok s) ∧
    ∀ text whole known needed members, Json.parse? text = some (.record whole) →
      Part whole known needed members →
      ((∃ name ∈ known, Repeats members name) ∨ ∃ name ∈ needed, Omits members name) →
      parse text = .error .json := by
  refine ⟨?spelled, ?said, ?unreadable, ?written, ?faulty⟩
  case spelled => exact fun text members written spells => Json.ofChars?_spells written spells
  case said =>
    intro text members s parsed said readable
    exact parse_of_ofJson? parsed (ofJson?_of_saidBy said readable)
  case unreadable =>
    intro text members parsed unreadable
    exact parse_of_not_read parsed fun s read => unreadable (readableVolatility_of_read read)
  case written =>
    intro s back
    obtain ⟨members, written, said⟩ := s.saidBy_toJson back
    have read := ofJson?_of_saidBy said (readableVolatility_toJson back written)
    rw [← written] at read
    exact parse_of_ofJson? (Json.parse?_compact s.isWritten_toJson) read
  case faulty =>
    intro text whole known needed members parsed part fault
    refine parse_of_not_read parsed fun s read => ?_
    obtain ⟨once, there⟩ := part.complete read
    rcases fault with ⟨name, member, repeated⟩ | ⟨name, member, omitted⟩
    · exact once name member repeated
    · exact there name member omitted

end Settings

namespace Sample

/-- Members that say where volatility comes from, with one that is not known. -/
def scatteredVolatility : List (String × Json) :=
  [("fallback", .ofFloat 0.25), ("x", .bool true), ("window", .ofWord 20), ("mode", .text "rolling")]

/-- Members that say some of the engine's settings. -/
def scatteredEngine : List (String × Json) :=
  [("progress_interval", .ofWord 5), ("volatility", .record scatteredVolatility),
    ("base_slippage_bps", .ofFloat 1.5)]

/-- Members that say settings out of order, with others that are not known, and leave out much. -/
def scattered : List (String × Json) :=
  [("comment", .array []),
    ("strategies", .array [.record
      [("max_position", .ofSigned 50), ("note", .null), ("symbol", .text "AAPL")]]),
    ("engine", .record scatteredEngine)]

/-- The settings that they say. -/
def gathered : Settings where
  engine := { baseSlippage := 1.5, volatility := .rolling 20 0.25, progressInterval := 5 }
  quoters := [{ symbol := "AAPL", maxPosition := 50 }]

/-- A number beyond all doubles. -/
def endless : Numeral := ⟨false, ['1'], [], some ⟨false, ['9', '9', '9']⟩⟩

/-- Members that say the defaults, with a number beyond all doubles under a name that is not known. -/
def overfull : List (String × Json) :=
  [("engine", .record
    [("volatility", .record
      [("mode", .text "fixed"), ("value", .ofFloat 0.01), ("x", .number endless)])])]

/-- Their text. -/
def overfullText : String :=
  "\x7b\"engine\":\x7b\"volatility\":\x7b\"mode\":\"fixed\",\"value\":0.01,\"x\":1e+999\x7d\x7d\x7d"

/-- Members of which one stands twice. -/
def repeated : List (String × Json) := [("cache", .record []), ("cache", .record [])]

/-- Members with a quoter that has no symbol. -/
def nameless : List (String × Json) := [("strategies", .array [.record [("spread_bps", .ofWord 2)]])]

end Sample

/-- Settings are read from members out of order, written and read again; with a number beyond all doubles
where volatility comes from, with a section that is repeated or with a quoter that has no symbol they are
refused. -/
theorem Settings.overlay_sample :
    Sample.gathered.SaidBy Sample.scattered ∧
    Settings.parse (Json.record Sample.scattered).compact = .ok Sample.gathered ∧
    Settings.parse (Json.record Sample.overfull).compact = .error .json ∧
    Settings.parse Sample.gathered.toJson.compact = .ok Sample.gathered ∧
    Settings.parse (Json.record Sample.repeated).compact = .error .json ∧
    Settings.parse (Json.record Sample.nameless).compact = .error .json := by
  have slippage : ReadsBack 1.5 := Json.readsBack_iff.2 (by decide +kernel)
  have fallback : ReadsBack 0.25 := Json.readsBack_iff.2 (by decide +kernel)
  have back : ∀ x ∈ Sample.gathered.doubles, ReadsBack x := fun x member =>
    Json.readsBack_iff.2 (by revert x; decide +kernel)
  have said : Sample.gathered.SaidBy Sample.scattered := by
    refine ⟨.inl ⟨_, rfl, _, rfl, ?_⟩, .inr ⟨rfl, rfl⟩, .inl ⟨_, rfl, _, rfl, .cons ⟨_, rfl, ?_⟩ .nil⟩⟩
    · exact ⟨.inl ⟨_, rfl, slippage.asFloat?⟩, .inr ⟨rfl, rfl⟩, .inr ⟨rfl, rfl⟩, .inr ⟨rfl, rfl⟩,
        .inl ⟨_, rfl, _, rfl, .rolling ⟨_, rfl, rfl⟩ ⟨_, rfl, rfl⟩ ⟨_, rfl, fallback.asFloat?⟩⟩,
        .inl ⟨_, rfl, rfl⟩⟩
    · exact ⟨⟨_, rfl, rfl⟩, .inr ⟨rfl, rfl⟩, .inl ⟨_, rfl, rfl⟩, .inr ⟨rfl, rfl⟩⟩
  have readable : Settings.ReadableVolatility Sample.scattered := by
    intro engine volatility here inside
    obtain rfl : engine = Sample.scatteredEngine :=
      Settings.record_injective (by simpa [Sample.scattered] using here)
    obtain rfl : volatility = .record Sample.scatteredVolatility := by
      simpa [Sample.scatteredEngine] using inside
    decide +kernel
  have spells (members : List (String × Json)) : Json.Token.Spells (Json.tokens [] (.record members))
      (Json.record members).compact.toList := by
    rw [Json.compact, String.toList_ofList]
    exact Json.Token.spells_charsOf _
  obtain ⟨parsed, read, unreadable, written, faulty⟩ := Settings.overlay
  refine ⟨said, ?scattered, ?overfull, written _ back, ?repeated, ?nameless⟩
  case scattered =>
    have possible : (Json.record Sample.scattered).IsWritten := by
      simp [Sample.scattered, Sample.scatteredEngine, Sample.scatteredVolatility]
    exact read _ _ _ (parsed _ _ possible (spells _)) said readable
  case overfull =>
    have endless : Sample.endless.IsStrict := by constructor <;> simp [Sample.endless]
    refine unreadable _ _ (parsed _ _ (by simp [Sample.overfull, endless]) (spells _)) fun all => ?_
    exact absurd (all _ _ List.mem_cons_self List.mem_cons_self) (by decide +kernel)
  case repeated =>
    exact faulty _ _ _ _ _ (parsed _ _ (by simp [Sample.repeated]) (spells _)) .whole
      (.inl ⟨"cache", by decide, Nat.le_refl 2⟩)
  case nameless =>
    exact faulty _ _ _ _ _ (parsed _ _ (by simp [Sample.nameless]) (spells _))
      (.quoter List.mem_cons_self List.mem_cons_self) (.inr ⟨"symbol", by decide, rfl⟩)

theorem saidBy_overfull : ({} : Settings).SaidBy Sample.overfull := by
  have value : ReadsBack 0.01 := Json.readsBack_iff.2 (by decide +kernel)
  refine ⟨.inl ⟨_, rfl, _, rfl, ?_⟩, .inr ⟨rfl, rfl⟩, .inr ⟨rfl, rfl⟩⟩
  exact ⟨.inr ⟨rfl, rfl⟩, .inr ⟨rfl, rfl⟩, .inr ⟨rfl, rfl⟩, .inr ⟨rfl, rfl⟩,
    .inl ⟨_, rfl, _, rfl, .fixed ⟨_, rfl, rfl⟩ ⟨_, rfl, value.asFloat?⟩⟩, .inr ⟨rfl, rfl⟩⟩

theorem not_readable_overfull : ¬Settings.ReadableVolatility Sample.overfull := fun readable =>
  absurd (readable _ _ List.mem_cons_self List.mem_cons_self) (by decide +kernel)

/-- A text that says the defaults is refused for a number under a name that is not known. -/
theorem Settings.overlay_overfull :
    Json.parse? Sample.overfullText = some (.record Sample.overfull) ∧
    ({} : Settings).SaidBy Sample.overfull ∧ (∀ x ∈ ({} : Settings).doubles, ReadsBack x) ∧
    Settings.parse Sample.overfullText = .error .json := by
  have endless : Sample.endless.IsStrict := by constructor <;> simp [Sample.endless]
  have written : (Json.record Sample.overfull).IsWritten := by simp [Sample.overfull, endless]
  have text : (Json.record Sample.overfull).compact = Sample.overfullText := by decide +kernel
  have parsed := Json.parse?_compact written
  rw [text] at parsed
  refine ⟨parsed, saidBy_overfull, fun x member => Json.readsBack_iff.2 ?_, ?_⟩
  · revert x
    decide +kernel
  · exact Settings.parse_of_not_read parsed fun s read =>
      not_readable_overfull (Settings.readableVolatility_of_read read)

end MarketMaker
