import MarketMaker.Proofs.Trading

/-!
# Who quotes what

A symbol has a desk from the start if the settings quote it, and from then on if an operation adds
one; no desk is ever lost, moved to another symbol or made over. Main statements: which symbols have
desks (`Session.quotes_after`) and that the desk of a configured quoter stays that quoter's
(`Session.configured_after`).
-/

namespace MarketMaker

/-- The quoter that settings make. -/
def Settings.quoter (s : Settings) (q : QuoterSettings) : Quoter :=
  .new q s.engine.lotSize s.engine.priceImprovement

/-! ## The start -/

namespace Replay

theorem addQuoters_cons_ok {f : Replay → QuoterSettings → Except Halt Replay}
    {q : QuoterSettings} {qs : List QuoterSettings} {r r' : Replay}
    (h : (q :: qs).foldlM f r = .ok r') : ∃ r₁, f r q = .ok r₁ ∧ qs.foldlM f r₁ = .ok r' := by
  rw [List.foldlM_cons] at h
  cases hf : f r q with
  | error fault => simp [hf, bind, Except.bind] at h
  | ok r₁ => exact ⟨r₁, rfl, by simpa [hf, bind, Except.bind] using h⟩

/-- What a replay has and every added quoter keeps, the replay has once they are added. -/
theorem induct_addQuoters {P : Replay → Prop} {settings : EngineSettings}
    {quoters : List QuoterSettings} {r₀ r : Replay}
    (h : quoters.foldlM (fun r q =>
      r.addQuoter (.new q settings.lotSize settings.priceImprovement)) r₀ = .ok r)
    (start : P r₀)
    (add : ∀ q ∈ quoters, ∀ r r', P r →
      r.addQuoter (.new q settings.lotSize settings.priceImprovement) = .ok r' → P r') : P r := by
  induction quoters generalizing r₀ with
  | nil =>
    obtain rfl : r₀ = r := by simpa [pure, Except.pure] using h
    exact start
  | cons q qs ih =>
    obtain ⟨r₁, added, rest⟩ := addQuoters_cons_ok h
    refine ih rest ?_ fun q' member => add q' (List.mem_cons_of_mem _ member)
    exact add q List.mem_cons_self r₀ r₁ start added

/-- What the empty replay has and every added quoter keeps, a new replay has. -/
theorem induct_new {P : Replay → Prop} {settings : EngineSettings} {quoters : List QuoterSettings}
    {r : Replay} (h : Replay.new settings quoters = .ok r) (start : P (empty settings))
    (add : ∀ q ∈ quoters, ∀ r r', P r →
      r.addQuoter (.new q settings.lotSize settings.priceImprovement) = .ok r' → P r') : P r :=
  induct_addQuoters h start add

theorem settings_addQuoter {r r' : Replay} {q : Quoter} (h : r.addQuoter q = .ok r') :
    r'.settings = r.settings := by
  obtain ⟨_, rfl⟩ := addQuoter_ok h
  rfl

theorem settings_new {settings : EngineSettings} {quoters : List QuoterSettings} {r : Replay}
    (h : Replay.new settings quoters = .ok r) : r.settings = settings :=
  induct_new (P := fun r => r.settings = settings) h rfl fun _ _ _ _ same added =>
    (settings_addQuoter added).trans same

/-- The desk of a symbol once a quoter is added. -/
theorem desk?_addQuoter {r r' : Replay} {q : Quoter} (h : r.addQuoter q = .ok r')
    (symbol : String) :
    r'.desk? symbol =
      if symbol = q.symbol then some (.new r.settings.volatility q) else r.desk? symbol := by
  obtain ⟨_, rfl⟩ := addQuoter_ok h
  exact Table.find?_insert ..

/-- What is held in a symbol once a quoter is added. -/
theorem holding?_addQuoter {r r' : Replay} {q : Quoter} (h : r.addQuoter q = .ok r')
    (symbol : String) :
    r'.ledger.holdings.find? symbol =
      if symbol = q.symbol then some (r.ledger.holding q.symbol)
      else r.ledger.holdings.find? symbol := by
  obtain ⟨_, rfl⟩ := addQuoter_ok h
  exact Table.find?_insert ..

theorem trades_addQuoter {r r' : Replay} {q : Quoter} (h : r.addQuoter q = .ok r') :
    r'.trades = r.trades := by
  obtain ⟨_, rfl⟩ := addQuoter_ok h
  rfl

theorem history_addQuoter {r r' : Replay} {q : Quoter} (h : r.addQuoter q = .ok r') :
    r'.ledger.history = r.ledger.history := by
  obtain ⟨_, rfl⟩ := addQuoter_ok h
  rfl

theorem quotes_addQuoter {r r' : Replay} {q : Quoter} (h : r.addQuoter q = .ok r')
    (symbol : String) : r'.quotes symbol = true ↔ r.quotes symbol = true ∨ symbol = q.symbol := by
  rw [quotes_eq_isSome, quotes_eq_isSome, desk?_addQuoter h]
  split
  next same => simp [same]
  next other => simp [other]

theorem quotes_new {settings : EngineSettings} {quoters : List QuoterSettings} {r : Replay}
    (h : Replay.new settings quoters = .ok r) (symbol : String) :
    r.quotes symbol = true ↔ symbol ∈ quoters.map QuoterSettings.symbol := by
  have fold : ∀ (qs : List QuoterSettings) (r₀ : Replay),
      qs.foldlM (fun r q =>
        r.addQuoter (.new q settings.lotSize settings.priceImprovement)) r₀ = .ok r →
      (r.quotes symbol = true ↔
        r₀.quotes symbol = true ∨ symbol ∈ qs.map QuoterSettings.symbol) := by
    intro qs
    induction qs with
    | nil =>
      intro r₀ h
      obtain rfl : r₀ = r := by simpa [pure, Except.pure] using h
      simp
    | cons q qs ih =>
      intro r₀ h
      obtain ⟨r₁, added, rest⟩ := addQuoters_cons_ok h
      rw [ih r₁ rest, quotes_addQuoter added, List.map_cons, List.mem_cons, or_assoc]
      rfl
  have none_yet : (empty settings).quotes symbol = false := rfl
  rw [fold quoters (empty settings) h, none_yet]
  simp

end Replay

namespace Session

variable {σ : Type} [Cache.Store σ]

/-- A session starts from settings that pass their check, with a replay of their quoters and with what
they say about the cache, which is asked once whether it can be reached. -/
theorem start_eq_ok_iff {settings : Settings} {cache : σ} {s : Session σ} :
    start settings cache = .ok s ↔
      settings.check = .ok () ∧ ∃ r, Replay.new settings.engine settings.quoters = .ok r ∧
        s = ⟨r, settings.cache, (Cache.Store.ping cache).2, (Cache.Store.ping cache).1⟩ := by
  unfold start
  cases settings.check with
  | error fault =>
    change Except.error _ = Except.ok s ↔ _
    simp
  | ok _ =>
    cases Replay.new settings.engine settings.quoters with
    | error halt =>
      change Except.error halt = Except.ok s ↔ _
      simp
    | ok r =>
      change Except.ok (Session.mk r settings.cache (Cache.Store.ping cache).2
        (Cache.Store.ping cache).1) = Except.ok s ↔ _
      simp [eq_comm]

theorem start_ok {settings : Settings} {cache : σ} {s : Session σ}
    (h : start settings cache = .ok s) :
    settings.check = .ok () ∧ Replay.new settings.engine settings.quoters = .ok s.replay := by
  obtain ⟨valid, r, made, rfl⟩ := start_eq_ok_iff.1 h
  exact ⟨valid, made⟩

end Session

/-! ## Desks stay -/

namespace Replay

/-- A symbol has a desk or not, until one is added. -/
theorem kept_quotes (symbol : String) (known : Bool) :
    Kept (fun op => known = true ∨ op.added? ≠ some symbol)
      (fun r => r.quotes symbol = known) := by
  apply Kept.of_trading
  case same =>
    intro r r' same h
    rw [← h, quotes_eq_isSome, quotes_eq_isSome, desk?, desk?, same.desks]
  case quote =>
    intro r t d hd h
    rw [← h, quotes_eq_isSome, quotes_eq_isSome, desk?_setDesk]
    split
    next same => rw [same, hd]; rfl
    next => rfl
  case book =>
    intro r o now d t hd ht h
    rw [← h, quotes_eq_isSome, quotes_eq_isSome, desk?_book]
    split
    next same => rw [same, (Desk.tradeOf_of_trade? ht).symbol, hd]; rfl
    next => rfl
  case addQuoter =>
    intro q allowed r r' h added
    cases known with
    | true => exact (quotes_addQuoter added symbol).2 (.inl h)
    | false =>
      have other : symbol ≠ q.symbol := by
        rintro rfl
        simp [Operation.added?] at allowed
      rw [← h, quotes_eq_isSome, quotes_eq_isSome, desk?_addQuoter added, if_neg other]
  case reset =>
    intro r h
    rw [← h, quotes_eq_isSome, quotes_eq_isSome, desk?_reset, Option.isSome_map]

/-- No operation changes the settings. -/
theorem kept_settings (settings : EngineSettings) :
    Kept (fun _ => True) (fun r => r.settings = settings) := by
  apply Kept.of_trading
  case same => exact fun r r' same h => same.settings ▸ h
  case quote => exact fun r t d _ h => h
  case book => exact fun r o now d t _ _ h => h
  case addQuoter => exact fun q _ r r' h added => (settings_addQuoter added).trans h
  case reset => exact fun r h => h

/-- Every desk is filed under the symbol it quotes. -/
def Named (r : Replay) : Prop :=
  ∀ symbol d, r.desk? symbol = some d → d.quoter.symbol = symbol

theorem named_addQuoter {q : Quoter} {r r' : Replay} (h : r.Named)
    (added : r.addQuoter q = .ok r') : r'.Named := by
  intro symbol d hd
  rw [desk?_addQuoter added] at hd
  split at hd
  next same =>
    injection hd with hd
    rw [← hd, same]
    rfl
  next => exact h symbol d hd

theorem named_same {r r' : Replay} (same : SameBooks r r') (h : r.Named) : r'.Named := by
  intro symbol d hd
  rw [desk?, ← same.desks] at hd
  exact h symbol d hd

theorem kept_named : Kept (fun _ => True) Named := by
  apply Kept.of_trading
  case same => exact fun r r' => named_same
  case quote =>
    intro r t d hd h symbol d' hd'
    rw [desk?_setDesk] at hd'
    split at hd'
    next same =>
      injection hd' with hd'
      rw [← hd', same, Desk.quote_quoter]
      exact (Quoter.symbol_eq_of_reset (Quoter.quote_reset ..)).trans (h t.symbol d hd)
    next => exact h symbol d' hd'
  case book =>
    intro r o now d t hd ht h symbol d' hd'
    rw [desk?_book] at hd'
    split at hd'
    next same =>
      injection hd' with hd'
      rw [← hd', same, (Desk.tradeOf_of_trade? ht).symbol]
      exact h o.symbol d hd
    next => exact h symbol d' hd'
  case addQuoter => exact fun q _ r r' h added => named_addQuoter h added
  case reset =>
    intro r h symbol d hd
    rw [desk?_reset] at hd
    obtain ⟨d₀, hd₀, rfl⟩ := Option.map_eq_some_iff.1 hd
    exact h symbol d₀ hd₀

theorem named_new {settings : EngineSettings} {quoters : List QuoterSettings} {r : Replay}
    (h : Replay.new settings quoters = .ok r) : r.Named := by
  refine induct_new h ?_ fun q _ r r' => named_addQuoter
  intro symbol d hd
  exact absurd hd (by simp [desk?, empty, Table.find?_empty])

/-- Every quoter holds nothing and has made no order. -/
def Fresh (r : Replay) : Prop :=
  ∀ symbol d, r.desk? symbol = some d → d.quoter.IsFresh

theorem fresh_new {settings : EngineSettings} {quoters : List QuoterSettings} {r : Replay}
    (h : Replay.new settings quoters = .ok r) : r.Fresh := by
  refine induct_new h ?_ ?_
  · intro symbol d hd
    exact absurd hd (by simp [desk?, empty, Table.find?_empty])
  · intro q _ r r' fresh added symbol d hd
    rw [desk?_addQuoter added] at hd
    split at hd
    next =>
      obtain rfl := Option.some.inj hd
      exact ⟨rfl, rfl⟩
    next => exact fresh symbol d hd

/-- Nothing is traded before the first tick. -/
theorem trades_new {settings : EngineSettings} {quoters : List QuoterSettings} {r : Replay}
    (h : Replay.new settings quoters = .ok r) : r.trades = #[] :=
  induct_new (P := fun r => r.trades = #[]) h rfl fun _ _ _ _ none added =>
    (trades_addQuoter added).trans none

/-- A symbol's desk is that of a quoter made in some way. -/
def QuotedBy (r : Replay) (q : Quoter) : Prop :=
  ∃ d, r.desk? q.symbol = some d ∧ d.quoter.reset = q.reset

theorem quotedBy_same {r r' : Replay} {q : Quoter} (same : SameBooks r r') (h : r.QuotedBy q) :
    r'.QuotedBy q := by
  obtain ⟨d, hd, made⟩ := h
  exact ⟨d, by rw [desk?, ← same.desks]; exact hd, made⟩

/-- Whatever happens, a desk stays that of its quoter. -/
theorem kept_quotedBy (q : Quoter) : Kept (fun _ => True) (fun r => r.QuotedBy q) := by
  apply Kept.of_trading
  case same => exact fun r r' => quotedBy_same
  case quote =>
    rintro r t d hd ⟨d', hd', made⟩
    by_cases same : q.symbol = t.symbol
    · obtain rfl : d = d' := by rw [same, hd] at hd'; exact Option.some.inj hd'
      refine ⟨_, by rw [desk?_setDesk, if_pos same], ?_⟩
      rw [Desk.quote_quoter, Quoter.quote_reset]
      exact made
    · exact ⟨d', by rw [desk?_setDesk, if_neg same]; exact hd', made⟩
  case book =>
    rintro r o now d t hd ht ⟨d', hd', made⟩
    have symbol := (Desk.tradeOf_of_trade? ht).symbol
    by_cases same : q.symbol = t.symbol
    · obtain rfl : d = d' := by rw [same, symbol, hd] at hd'; exact Option.some.inj hd'
      exact ⟨d.onTrade t, by rw [desk?_book, if_pos same], made⟩
    · exact ⟨d', by rw [desk?_book, if_neg same]; exact hd', made⟩
  case addQuoter =>
    rintro p _ r r' ⟨d, hd, made⟩ added
    have other : q.symbol ≠ p.symbol := by
      intro same
      rw [same, (addQuoter_ok added).1] at hd
      exact absurd hd (by simp)
    exact ⟨d, by rw [desk?_addQuoter added, if_neg other]; exact hd, made⟩
  case reset =>
    rintro r ⟨d, hd, made⟩
    exact ⟨d.reset r.settings.volatility, by rw [desk?_reset, hd]; rfl, made⟩

/-- A quoter that was just added has its desk. -/
theorem quotedBy_addQuoter {r r' : Replay} {q : Quoter} (added : r.addQuoter q = .ok r') :
    r'.QuotedBy q :=
  ⟨_, by rw [desk?_addQuoter added, if_pos rfl], rfl⟩

theorem quotedBy_new {settings : EngineSettings} {quoters : List QuoterSettings} {r : Replay}
    (h : Replay.new settings quoters = .ok r) {q : QuoterSettings} (member : q ∈ quoters) :
    r.QuotedBy (.new q settings.lotSize settings.priceImprovement) := by
  unfold Replay.new at h
  generalize empty settings = r₀ at h
  induction quoters generalizing r₀ with
  | nil => exact absurd member List.not_mem_nil
  | cons p ps ih =>
    obtain ⟨r₁, added, rest⟩ := addQuoters_cons_ok h
    rcases List.mem_cons.1 member with rfl | member
    · have quoted := quotedBy_addQuoter added
      refine induct_addQuoters (P := fun r => r.QuotedBy _) rest quoted ?_
      exact fun _ _ r r' => (kept_quotedBy _).addQuoter _ trivial r r'
    · exact ih member r₁ rest

end Replay

namespace Session

variable {σ : Type} [Cache.Store σ]

theorem settings_perform (s : Session σ) (op : Operation) (w : Readings) :
    (s.perform op w).1.replay.settings = s.replay.settings :=
  kept_perform (Replay.kept_settings _) trivial rfl w

/-- An operation gives a desk to the symbol it adds, where there can be room for its window, and to no
other. -/
theorem quotes_perform (s : Session σ) (op : Operation) (w : Readings) (symbol : String) :
    (s.perform op w).1.replay.quotes symbol = true ↔
      s.replay.quotes symbol = true ∨
        s.replay.settings.volatility.HasRoom ∧ op.added? = some symbol := by
  constructor
  · intro h
    by_cases known : s.replay.quotes symbol = true
    · exact .inl known
    · by_cases adds : op.added? = some symbol
      · cases op with
        | addQuoter q =>
          change ((s.addQuoter q).toOption.getD s).replay.quotes symbol = true at h
          unfold addQuoter at h
          cases added : s.replay.addQuoter q with
          | ok r => exact .inr ⟨(Replay.addQuoter_eq_ok_iff.1 added).2.1, adds⟩
          | error halt =>
            rw [added] at h
            exact absurd h known
        | _ => exact absurd adds (by simp [Operation.added?])
      · have silent : false = true ∨ op.added? ≠ some symbol := .inr adds
        have unknown : s.replay.quotes symbol = false := by simpa using known
        have kept := kept_perform (Replay.kept_quotes symbol false) silent unknown w
        exact absurd (h.symm.trans kept) (by simp)
  · rintro (h | ⟨room, h⟩)
    · have known : true = true ∨ op.added? ≠ some symbol := .inl rfl
      exact kept_perform (Replay.kept_quotes symbol true) known h w
    · cases op with
      | addQuoter q =>
        obtain rfl : q.symbol = symbol := by simpa [Operation.added?] using h
        change ((s.addQuoter q).toOption.getD s).replay.quotes q.symbol = true
        unfold addQuoter
        cases added : s.replay.addQuoter q with
        | ok r => exact (Replay.quotes_addQuoter added _).2 (.inr rfl)
        | error halt =>
          -- Where there is room, a quoter is turned away only if its symbol has a desk.
          cases hd : s.replay.desk? q.symbol with
          | some d => exact Option.isSome_iff_exists.2 ⟨d, hd⟩
          | none =>
            have made := Replay.addQuoter_eq_ok_iff.2 ⟨hd, room, rfl⟩
            exact absurd (added.symm.trans made) (by simp)
      | _ => exact absurd h (by simp [Operation.added?])

theorem quotes_after_iff (s : Session σ) (ops : List Operation) (w : Readings) (symbol : String) :
    (s.after ops w).replay.quotes symbol = true ↔
      s.replay.quotes symbol = true ∨
        s.replay.settings.volatility.HasRoom ∧ symbol ∈ ops.filterMap Operation.added? := by
  induction ops generalizing s w with
  | nil => simp [after]
  | cons op ops ih =>
    rw [after_cons, ih, quotes_perform, settings_perform, or_assoc, ← and_or_left]
    cases h : op.added? with
    | none => simp [h]
    | some added =>
      rw [List.filterMap_cons_some h, List.mem_cons, Option.some.injEq, @eq_comm _ added]

/-- The symbols that have desks are those registered. -/
theorem quotes_after {settings : Settings} {cache : σ} {s : Session σ}
    (started : start settings cache = .ok s) (ops : List Operation) (w : Readings)
    (symbol : String) :
    (s.after ops w).replay.quotes symbol = true ↔ symbol ∈ settings.registered ops := by
  have made := (start_ok started).2
  rw [quotes_after_iff, Replay.quotes_new made, Replay.settings_new made, Settings.registered,
    List.mem_append]
  split
  next room => simp [room]
  next lacking => simp [lacking]

theorem named_after {settings : Settings} {cache : σ} {s : Session σ}
    (started : start settings cache = .ok s) (ops : List Operation) (w : Readings) :
    (s.after ops w).replay.Named :=
  kept_after Replay.kept_named (fun _ _ => trivial) (Replay.named_new (start_ok started).2) w

/-- Whatever happens, the desk of a configured quoter stays that quoter's. -/
theorem configured_after {settings : Settings} {cache : σ} {s : Session σ}
    (started : start settings cache = .ok s) (ops : List Operation) (w : Readings)
    {q : QuoterSettings} (member : q ∈ settings.quoters) :
    (s.after ops w).replay.QuotedBy (settings.quoter q) :=
  kept_after (Replay.kept_quotedBy _) (fun _ _ => trivial)
    (Replay.quotedBy_new (start_ok started).2 member) w

end Session

end MarketMaker
