import MarketMaker.Proofs.Figures
import MarketMaker.Proofs.Restart
import MarketMaker.Proofs.Slippage
import MarketMaker.Proofs.Validation

/-!
# What settings are held to

The requirements of settings as a list, in the order in which they are looked at and each with the
fault of settings that do not meet it. The check passes the settings that meet them all, and tells
the fault of the first that is not met (`Settings.told_check`). Only one thing else keeps a session from
starting, which is a window that there is no room for: the symbols are looked at once more where the
desks are made, but no two are found the same (`Session.start_checked`).
-/

namespace MarketMaker

/-- A condition, and the fault of settings that do not meet it. -/
structure Requirement where
  met : Prop
  fault : SettingsFault

/-- A finite number that is at least zero. -/
def IsAmount (x : Float) : Prop :=
  x.isFinite = true ∧ 0.0 ≤ x

/-! ## The requirements -/

/-- A fixed figure is an amount; so is a fallback, once the window holds at least two returns. -/
def VolatilitySource.requirements : VolatilitySource → List Requirement
  | fixed value => [⟨IsAmount value, .fixedVolatility value⟩]
  | rolling window fallback =>
    [⟨2 ≤ window, .window window⟩, ⟨IsAmount fallback, .fallbackVolatility fallback⟩]

theorem VolatilitySource.requirements_met_iff {v : VolatilitySource} :
    (∀ r ∈ v.requirements, r.met) ↔
      match v with
      | .fixed value => IsAmount value
      | .rolling window fallback => 2 ≤ window ∧ IsAmount fallback := by
  cases v with
  | fixed value => exact List.forall_mem_singleton
  | rolling window fallback => simp [requirements]

/-- Slippage, lots, improvement, tolerance and progress; the volatility comes last. -/
def EngineSettings.requirements (s : EngineSettings) : List Requirement :=
  [⟨IsAmount s.baseSlippage, .baseSlippage s.baseSlippage⟩,
    ⟨0 < s.lotSize, .lotSize⟩,
    ⟨s.priceImprovement.isFinite = true ∧ 0.0 < s.priceImprovement,
      .priceImprovement s.priceImprovement⟩,
    ⟨0.0 ≤ s.fillTolerance ∧ s.fillTolerance < 1.0, .fillTolerance s.fillTolerance⟩,
    ⟨0 < s.progressInterval, .progressInterval⟩] ++ s.volatility.requirements

/-- An expiry is at least a second and at most 365 days, that of ticks first. -/
def CacheSettings.requirements (s : CacheSettings) : List Requirement :=
  [⟨1 ≤ s.tickExpiry ∧ s.tickExpiry ≤ 31536000, .expiry "tick_ttl_secs" s.tickExpiry⟩,
    ⟨1 ≤ s.tradeExpiry ∧ s.tradeExpiry ≤ 31536000, .expiry "trade_ttl_secs" s.tradeExpiry⟩]

namespace QuoterSettings

/-- A symbol has a character that is not blank, and a spread is an amount. -/
def requirements (q : QuoterSettings) : List Requirement :=
  [⟨∃ c ∈ q.symbol.toList, Text.isBlank c = false, .blankSymbol⟩,
    ⟨IsAmount q.spread, .spread q.symbol q.spread⟩]

/-- Quoters are looked at one by one. What each is held to by itself comes before that it differs
from those in front of it. -/
def allRequirements (quoters : List QuoterSettings) : List Requirement :=
  quoters.zipIdx.flatMap fun (q, i) => q.requirements ++
    [⟨∀ p ∈ quoters.take i, p.symbol ≠ q.symbol, .duplicateSymbol q.symbol⟩]

end QuoterSettings

/-- The engine's settings, the cache's, then the quoters. -/
def Settings.requirements (s : Settings) : List Requirement :=
  s.engine.requirements ++ s.cache.requirements ++ QuoterSettings.allRequirements s.quoters

/-! ## The first that is not met -/

/-- The fault of the first of some requirements that is not met. -/
inductive FirstUnmet : SettingsFault → List Requirement → Prop where
  | here {r : Requirement} (unmet : ¬r.met) (rest : List Requirement) :
      FirstUnmet r.fault (r :: rest)
  | later {fault : SettingsFault} {r : Requirement} {rest : List Requirement} (met : r.met)
      (first : FirstUnmet fault rest) : FirstUnmet fault (r :: rest)

namespace FirstUnmet

variable {fault fault' : SettingsFault} {rs rs' : List Requirement}

theorem append (h : FirstUnmet fault rs) (rs' : List Requirement) :
    FirstUnmet fault (rs ++ rs') := by
  induction h with
  | here unmet rest => exact .here unmet _
  | later met _ ih => exact .later met ih

theorem behind (h : FirstUnmet fault rs') (met : ∀ r ∈ rs, r.met) :
    FirstUnmet fault (rs ++ rs') := by
  induction rs with
  | nil => exact h
  | cons r rs ih =>
    obtain ⟨first, rest⟩ := List.forall_mem_cons.1 met
    exact .later first (ih rest)

theorem exists_unmet (h : FirstUnmet fault rs) : ∃ r ∈ rs, ¬r.met ∧ r.fault = fault := by
  induction h with
  | here unmet rest => exact ⟨_, List.mem_cons_self, unmet, rfl⟩
  | later met _ ih =>
    obtain ⟨r, member, unmet, same⟩ := ih
    exact ⟨r, List.mem_cons_of_mem _ member, unmet, same⟩

theorem unique (h : FirstUnmet fault rs) (h' : FirstUnmet fault' rs) : fault = fault' := by
  induction h with
  | here unmet rest =>
    cases h' with
    | here => rfl
    | later met => exact absurd met unmet
  | later met _ ih =>
    cases h' with
    | here unmet => exact absurd met unmet
    | later _ first => exact ih first

end FirstUnmet

/-- What a check of requirements comes to: it passes where all are met, and else tells the fault of
the first that is not. -/
def Told (rs : List Requirement) : Except SettingsFault Unit → Prop
  | .ok () => ∀ r ∈ rs, r.met
  | .error fault => FirstUnmet fault rs

namespace Told

variable {rs rs' : List Requirement} {check check' : Except SettingsFault Unit}

theorem one {condition : Bool} {met : Prop} (h : condition = true ↔ met) (fault : SettingsFault) :
    Told [⟨met, fault⟩] (ensure condition fault) := by
  cases condition with
  | true => exact List.forall_mem_singleton.2 (h.1 rfl)
  | false => exact FirstUnmet.here (r := ⟨met, fault⟩) (fun met => absurd (h.2 met) (by decide)) []

/-- One check after the other, if the first passes. -/
theorem bind (h : Told rs check) (h' : Told rs' check') :
    Told (rs ++ rs') (check >>= fun _ => check') := by
  cases check with
  | error fault => exact FirstUnmet.append h rs'
  | ok u =>
    cases check' with
    | error fault => exact FirstUnmet.behind h' h
    | ok u' => exact List.forall_mem_append.2 ⟨h, h'⟩

theorem ok_iff (h : Told rs check) : check = .ok () ↔ ∀ r ∈ rs, r.met := by
  cases check with
  | ok u => exact iff_of_true rfl h
  | error fault =>
    obtain ⟨r, member, unmet, _⟩ := FirstUnmet.exists_unmet h
    exact iff_of_false (by simp) fun all => unmet (all r member)

theorem error_iff (h : Told rs check) {fault : SettingsFault} :
    check = .error fault ↔ FirstUnmet fault rs := by
  cases check with
  | ok u =>
    refine iff_of_false (by simp) fun first => ?_
    obtain ⟨r, member, unmet, _⟩ := first.exists_unmet
    exact unmet (h r member)
  | error own =>
    constructor
    · intro same
      obtain rfl := Except.error.inj same
      exact h
    · intro first
      rw [FirstUnmet.unique h first]

end Told

/-! ## The checks -/

theorem Text.isAllBlank_eq_false_iff {s : String} :
    isAllBlank s = false ↔ ∃ c ∈ s.toList, isBlank c = false := by
  simp [isAllBlank]

theorem isNonNegative_iff {x : Float} : isNonNegative x = true ↔ IsAmount x := by
  constructor
  · exact Slippage.exists_of_isNonNegative
  · rintro ⟨finite, nonneg⟩
    have sign : ¬x < 0.0 := Double.not_lt_of_le nonneg
    simp [isNonNegative, finite, sign]

theorem VolatilitySource.told_check (v : VolatilitySource) : Told v.requirements v.check := by
  cases v with
  | fixed value => exact .one isNonNegative_iff _
  | rolling window fallback => exact (Told.one decide_eq_true_iff _).bind (.one isNonNegative_iff _)

theorem EngineSettings.told_check (s : EngineSettings) : Told s.requirements s.check := by
  have improvement : (s.priceImprovement.isFinite && decide (s.priceImprovement > 0.0)) = true ↔
      s.priceImprovement.isFinite = true ∧ 0.0 < s.priceImprovement := by
    rw [Bool.and_eq_true, decide_eq_true_iff]
  have tolerance : (decide (0.0 ≤ s.fillTolerance) && decide (s.fillTolerance < 1.0)) = true ↔
      0.0 ≤ s.fillTolerance ∧ s.fillTolerance < 1.0 := by
    rw [Bool.and_eq_true, decide_eq_true_iff, decide_eq_true_iff]
  exact (Told.one isNonNegative_iff _).bind <| (Told.one decide_eq_true_iff _).bind <|
    (Told.one improvement _).bind <| (Told.one tolerance _).bind <|
    (Told.one decide_eq_true_iff _).bind s.volatility.told_check

theorem CacheSettings.isExpiry_iff {seconds : UInt64} :
    isExpiry seconds = true ↔ 1 ≤ seconds ∧ seconds ≤ 31536000 := by
  have longest : longestExpiry = 31536000 := by decide
  rw [isExpiry, Bool.and_eq_true, decide_eq_true_iff, decide_eq_true_iff, longest]
  refine and_congr_left fun _ => ?_
  rw [UInt64.lt_iff_toNat_lt, UInt64.le_iff_toNat_le]
  exact Nat.lt_iff_add_one_le

theorem CacheSettings.told_check (s : CacheSettings) : Told s.requirements s.check :=
  (Told.one isExpiry_iff _).bind (.one isExpiry_iff _)

namespace QuoterSettings

theorem told_check (q : QuoterSettings) : Told q.requirements q.check := by
  have filled : (!Text.isAllBlank q.symbol) = true ↔
      ∃ c ∈ q.symbol.toList, Text.isBlank c = false := by
    rw [Bool.not_eq_true', Text.isAllBlank_eq_false_iff]
  exact (Told.one filled _).bind (.one isNonNegative_iff _)

/-- Quoters behind others, whose symbols were seen. -/
theorem told_checkAll {all done quoters : List QuoterSettings} (split : all = done ++ quoters)
    {seen : List String} (known : ∀ symbol, symbol ∈ seen ↔ ∃ p ∈ done, p.symbol = symbol) :
    Told ((quoters.zipIdx done.length).flatMap fun (q, i) => q.requirements ++
      [⟨∀ p ∈ all.take i, p.symbol ≠ q.symbol, .duplicateSymbol q.symbol⟩])
      (checkAll seen quoters) := by
  induction quoters generalizing done seen with
  | nil => exact List.forall_mem_nil _
  | cons q qs ih =>
    have front : all.take done.length = done := by rw [split, List.take_left]
    have other : (!seen.contains q.symbol) = true ↔
        ∀ p ∈ all.take done.length, p.symbol ≠ q.symbol := by
      rw [front, Bool.not_eq_true', List.contains_eq_mem, decide_eq_false_iff_not, known]
      simp
    have next : all = (done ++ [q]) ++ qs := by simp [split]
    have seen' : ∀ symbol, symbol ∈ q.symbol :: seen ↔ ∃ p ∈ done ++ [q], p.symbol = symbol := by
      simp [known, or_comm, eq_comm]
    have rest := ih next seen'
    rw [List.length_append, List.length_singleton] at rest
    rw [List.zipIdx_cons, List.flatMap_cons, List.append_assoc]
    exact q.told_check.bind ((Told.one other _).bind rest)

/-- What quoters are held to, taken together. -/
theorem allRequirements_met_iff {quoters : List QuoterSettings} :
    (∀ r ∈ allRequirements quoters, r.met) ↔
      (∀ q ∈ quoters, (∃ c ∈ q.symbol.toList, Text.isBlank c = false) ∧ IsAmount q.spread) ∧
        quoters.Pairwise fun p q => p.symbol ≠ q.symbol := by
  have each : (∀ r ∈ allRequirements quoters, r.met) ↔ ∀ i q, quoters[i]? = some q →
      ((∃ c ∈ q.symbol.toList, Text.isBlank c = false) ∧ IsAmount q.spread) ∧
        ∀ p ∈ quoters.take i, p.symbol ≠ q.symbol := by
    simp only [allRequirements, List.forall_mem_flatMap, Prod.forall,
      List.mk_mem_zipIdx_iff_getElem?, requirements, List.forall_mem_append,
      List.forall_mem_cons, List.not_mem_nil, false_imp_iff, implies_true, and_true]
    exact forall_comm
  rw [each, List.pairwise_iff_getElem]
  constructor
  · intro h
    refine ⟨fun q member => ?_, fun i j hi hj less => ?_⟩
    · obtain ⟨i, found⟩ := List.mem_iff_getElem?.1 member
      exact (h i q found).1
    · have front : quoters[i] ∈ quoters.take j :=
        List.mem_take_iff_getElem.2 ⟨i, lt_min less hi, rfl⟩
      exact (h j _ (List.getElem?_eq_getElem hj)).2 _ front
  · rintro ⟨own, distinct⟩ i q found
    obtain ⟨hi, rfl⟩ := List.getElem?_eq_some_iff.1 found
    refine ⟨own _ (List.getElem_mem hi), fun p member => ?_⟩
    obtain ⟨j, hj, rfl⟩ := List.mem_take_iff_getElem.1 member
    exact distinct j i _ hi (lt_of_lt_of_le hj (Nat.min_le_left _ _))

end QuoterSettings

/-- The check of settings looks at their requirements, in their order. -/
theorem Settings.told_check (s : Settings) : Told s.requirements s.check := by
  have quoters : Told (QuoterSettings.allRequirements s.quoters)
      (QuoterSettings.checkAll [] s.quoters) :=
    QuoterSettings.told_checkAll (List.nil_append _).symm (by simp)
  rw [requirements, List.append_assoc]
  exact s.engine.told_check.bind (s.cache.told_check.bind quoters)

/-! ## The start -/

/-- The desk of a configured quoter is new at the start. -/
theorem Replay.desk?_new {settings : EngineSettings} {quoters : List QuoterSettings} {r : Replay}
    (h : Replay.new settings quoters = .ok r) {q : QuoterSettings} (member : q ∈ quoters) :
    r.desk? q.symbol =
      some (.new settings.volatility (.new q settings.lotSize settings.priceImprovement)) := by
  obtain ⟨d, hd, made⟩ := quotedBy_new h member
  change r.desk? q.symbol = some d at hd
  rw [← reset_new h, desk?_reset, hd, settings_new h, Option.map_some, Desk.reset, made]
  rfl

/-- The symbols of a new replay are those of its quoters, whose symbols differ. -/
theorem Replay.perm_keys_new {settings : EngineSettings} {quoters : List QuoterSettings}
    {r : Replay} (h : Replay.new settings quoters = .ok r)
    (distinct : (quoters.map QuoterSettings.symbol).Nodup) :
    r.desks.keys.Perm (quoters.map QuoterSettings.symbol) ∧
      r.ledger.holdings.keys.Perm (quoters.map QuoterSettings.symbol) := by
  have quoted : ∀ symbol, symbol ∈ r.desks.keys ↔ symbol ∈ quoters.map QuoterSettings.symbol := by
    intro symbol
    rw [Table.mem_keys, ← quotes_new h]
    rfl
  have held : ∀ symbol, symbol ∈ r.ledger.holdings.keys ↔ symbol ∈ r.desks.keys := by
    intro symbol
    rw [Table.mem_keys, Table.mem_keys, (balanced_new h).holding, Option.isSome_map]
    rfl
  exact ⟨(List.perm_ext_iff_of_nodup (Table.nodup_keys _) distinct).2 quoted,
    (List.perm_ext_iff_of_nodup (Table.nodup_keys _) distinct).2 fun symbol =>
      (held symbol).trans (quoted symbol)⟩

namespace Session

variable {σ : Type} [Cache.Store σ]

/-- **What a session starts from.** The check passes just the settings that are documented as
meaningful, and else tells the first requirement that is not met: the engine's, the cache's, then
those of the quoters in their order, of each its own before that its symbol is new. Whatever the
cache, a session is refused for just the fault that the check tells. From settings that pass it starts,
with new desks and holdings for just the symbols they name, unless a symbol is to be quoted by a rolling
window so wide that there is no room for it, of which the check says nothing. -/
theorem start_checked (settings : Settings) (cache : σ) :
    (settings.check = .ok () ↔
      IsAmount settings.engine.baseSlippage ∧ 0 < settings.engine.lotSize ∧
      (settings.engine.priceImprovement.isFinite = true ∧
        0.0 < settings.engine.priceImprovement) ∧
      (0.0 ≤ settings.engine.fillTolerance ∧ settings.engine.fillTolerance < 1.0) ∧
      0 < settings.engine.progressInterval ∧
      (match settings.engine.volatility with
        | .fixed value => IsAmount value
        | .rolling window fallback => 2 ≤ window ∧ IsAmount fallback) ∧
      (1 ≤ settings.cache.tickExpiry ∧ settings.cache.tickExpiry ≤ 31536000) ∧
      (1 ≤ settings.cache.tradeExpiry ∧ settings.cache.tradeExpiry ≤ 31536000) ∧
      (∀ q ∈ settings.quoters,
        (∃ c ∈ q.symbol.toList, Text.isBlank c = false) ∧ IsAmount q.spread) ∧
      settings.quoters.Pairwise fun p q => p.symbol ≠ q.symbol) ∧
    (∀ fault, settings.check = .error fault ↔ FirstUnmet fault settings.requirements) ∧
    (∀ fault, start settings cache = .error (.refused fault) ↔ settings.check = .error fault) ∧
    (start settings cache = .error .noRoom ↔
      settings.check = .ok () ∧ settings.quoters ≠ [] ∧
        ∃ window fallback, settings.engine.volatility = .rolling window fallback ∧
          2 ^ 60 ≤ window.toNat) ∧
    ((∃ s, start settings cache = .ok s) ↔ settings.check = .ok () ∧ settings.HasRoom) ∧
    ∀ s, start settings cache = .ok s →
      s.replay.desks.keys.Perm (settings.quoters.map QuoterSettings.symbol) ∧
      s.replay.ledger.holdings.keys.Perm (settings.quoters.map QuoterSettings.symbol) ∧
      ∀ q ∈ settings.quoters, s.replay.desk? q.symbol =
        some (.new settings.engine.volatility (settings.quoter q)) := by
  have told := settings.told_check
  refine ⟨?_, fun fault => told.error_iff, fun fault => start_eq_refused_iff, ?_,
    exists_start_iff, fun s started => ?_⟩
  · rw [told.ok_iff, Settings.requirements, List.forall_mem_append, List.forall_mem_append,
      QuoterSettings.allRequirements_met_iff, EngineSettings.requirements, List.forall_mem_append,
      VolatilitySource.requirements_met_iff]
    simp [CacheSettings.requirements, and_assoc]
  · rw [start_eq_noRoom_iff, Settings.HasRoom, not_or, VolatilitySource.not_hasRoom_iff]
  · obtain ⟨valid, made⟩ := start_ok started
    have distinct : (settings.quoters.map QuoterSettings.symbol).Nodup := by
      have met := told.ok_iff.1 valid
      rw [Settings.requirements, List.forall_mem_append,
        QuoterSettings.allRequirements_met_iff] at met
      exact List.pairwise_map.2 met.2.2
    obtain ⟨desks, holdings⟩ := Replay.perm_keys_new made distinct
    exact ⟨desks, holdings, fun q member => Replay.desk?_new made member⟩

/-- Settings with a blank symbol behind one that is named twice, and settings without a fault. -/
theorem start_checked_sample :
    let faulty : Settings := { quoters := [{ symbol := "A" }, { symbol := "A" }, { symbol := " " }] }
    FirstUnmet (.duplicateSymbol "A") faulty.requirements ∧
      start faulty Cache.Absent.mk = .error (.refused (.duplicateSymbol "A")) ∧
      start Sample.settings Cache.Absent.mk = .ok Sample.session ∧
      Sample.session.replay.desks.keys.Perm ["A", "B", "C"] ∧
      Sample.session.replay.ledger.holdings.keys.Perm ["A", "B", "C"] := by
  intro faulty
  obtain ⟨_, unmet, refused, _⟩ := start_checked faulty Cache.Absent.mk
  obtain ⟨_, _, _, _, _, fine⟩ := start_checked Sample.settings Cache.Absent.mk
  obtain ⟨desks, holdings, _⟩ := fine _ Sample.started
  have told : faulty.check = .error (.duplicateSymbol "A") := by decide +kernel
  exact ⟨(unmet _).1 told, (refused _).2 told, Sample.started, desks, holdings⟩

/-- The widest window passes the check, and is more than any room: no session starts. -/
theorem wide_window_halts :
    let wide : Settings :=
      { engine := { volatility := .rolling 18446744073709551615 0.01 }
        quoters := [{ symbol := "AAPL" }] }
    wide.check = .ok () ∧ start wide Cache.Absent.mk = .error .noRoom := by
  intro wide
  have valid : wide.check = .ok () := by decide +kernel
  exact ⟨valid, start_of_lacking valid (by decide +kernel) _⟩

end Session

end MarketMaker
