import MarketMaker.Proofs.Cached
import MarketMaker.Proofs.Independence
import MarketMaker.Proofs.Keeping
import MarketMaker.Proofs.Validation

/-!
# The cache mirrors the run

After any ticks and orders, a cache that keeps what it is told holds the latest tick of every symbol and
every trade, each under its key, and nothing else (`Session.cache_mirrors`). A tick writes its
symbol's key whether or not the symbol has a desk, and a trade is written under its place in the list of
trades; as no two of these keys are the same, what one step writes leaves the rest as it was. The book of
a desk is the second place where the latest tick is kept, and the two agree.
-/

namespace MarketMaker

/-! ## The latest ticks -/

namespace Operation

/-- An operation that takes a single tick or tries a single order. -/
def IsSingle : Operation → Prop
  | tick _ | order _ _ => True
  | _ => False

/-- The tick of a symbol that an operation brings, if its prices are finite. -/
def quoted? (symbol : String) : Operation → Option Tick
  | tick t => if t.isFinite = true ∧ t.symbol = symbol then some t else none
  | _ => none

/-- The latest tick of a symbol with finite prices. -/
def latest? (ops : List Operation) (symbol : String) : Option Tick :=
  (ops.filterMap (quoted? symbol)).getLast?

theorem latest?_append (ops : List Operation) (op : Operation) (symbol : String) :
    latest? (ops ++ [op]) symbol = (op.quoted? symbol).or (latest? ops symbol) := by
  unfold latest?
  cases quoted : op.quoted? symbol with
  | none => simp [quoted]
  | some t => simp [quoted]

theorem latest?_append_finite (ops : List Operation) {t : Tick} (finite : t.isFinite = true) :
    latest? (ops ++ [.tick t]) = Function.update (latest? ops) t.symbol (some t) := by
  funext symbol
  rw [latest?_append, Function.update_apply]
  simp only [quoted?, finite, true_and, eq_comm (a := symbol)]
  split
  · rfl
  · rfl

theorem latest?_append_of_none (ops : List Operation) {op : Operation}
    (h : ∀ symbol, op.quoted? symbol = none) : latest? (ops ++ [op]) = latest? ops := by
  funext symbol
  rw [latest?_append, h]
  rfl

theorem latest?_spec {ops : List Operation} {symbol : String} {t : Tick}
    (h : latest? ops symbol = some t) : t.isFinite = true ∧ t.symbol = symbol := by
  obtain ⟨op, _, quoted⟩ := List.mem_filterMap.1 (List.mem_of_getLast? h)
  cases op with
  | tick t' =>
    obtain ⟨here, same⟩ := Option.ite_none_right_eq_some.1 quoted
    obtain rfl := Option.some.inj same
    exact here
  | _ => exact absurd quoted (by simp [quoted?])

end Operation

/-! ## Contents -/

namespace Cache

/-- The latest tick of every symbol and every trade are there, each under its key, and nothing else. -/
structure Mirrors (latest : String → Option Tick) (trades : List Trade)
    (contents : String → Option Fields) : Prop where
  tick : ∀ symbol, contents (tickKey symbol) = (latest symbol).map tickFields
  trade : ∀ n, contents (tradeKey (n + 1)) = trades[n]?.map tradeFields
  other : ∀ key, (∀ symbol, key ≠ tickKey symbol) → (∀ n, key ≠ tradeKey (n + 1)) →
    contents key = none

variable {latest : String → Option Tick} {trades : List Trade} {contents : String → Option Fields}

theorem mirrors_empty : Mirrors (fun _ => none) [] fun _ => none where
  tick _ := rfl
  trade _ := rfl
  other _ _ _ := rfl

theorem Mirrors.tickNote (h : Mirrors latest trades contents) (e : CacheSettings) (t : Tick) :
    Mirrors (Function.update latest t.symbol (some t)) trades (written contents [e.tickNote t]) := by
  change Mirrors _ _ (Function.update contents (tickKey t.symbol) (some (tickFields t)))
  constructor
  case tick =>
    intro symbol
    by_cases here : symbol = t.symbol
    · rw [here, Function.update_self, Function.update_self]
      rfl
    · rw [Function.update_of_ne here, Function.update_of_ne (tickKey_injective.ne here), h.tick]
  case trade =>
    intro n
    rw [Function.update_of_ne (tickKey_ne_tradeKey _ _).symm, h.trade]
  case other =>
    intro key tick trade
    rw [Function.update_of_ne (tick t.symbol), h.other key tick trade]

theorem Mirrors.tradeNote (h : Mirrors latest trades contents) (e : CacheSettings) (t : Trade) :
    Mirrors latest (trades ++ [t]) (written contents [e.tradeNote (trades.length + 1) t]) := by
  change Mirrors _ _ (Function.update contents (tradeKey (trades.length + 1)) (some (tradeFields t)))
  constructor
  case tick =>
    intro symbol
    rw [Function.update_of_ne (tickKey_ne_tradeKey _ _), h.tick]
  case trade =>
    intro n
    by_cases here : n = trades.length
    · rw [here, Function.update_self, List.getElem?_concat_length]
      rfl
    · have other : tradeKey (n + 1) ≠ tradeKey (trades.length + 1) :=
        tradeKey_injective.ne (by omega)
      rw [Function.update_of_ne other, h.trade]
      rcases Nat.lt_or_gt_of_ne here with before | behind
      · rw [List.getElem?_append_left before]
      · rw [List.getElem?_eq_none (by omega), List.getElem?_eq_none (by simp; omega)]
  case other =>
    intro key tick trade
    rw [Function.update_of_ne (trade _), h.other key tick trade]

theorem Mirrors.tradeNotes (h : Mirrors latest trades contents) (e : CacheSettings)
    (news : List Trade) :
    Mirrors latest (trades ++ news) (written contents (e.tradeNotes (trades.length + 1) news)) := by
  induction news generalizing trades contents with
  | nil =>
    rw [List.append_nil]
    exact h
  | cons t news ih =>
    have next := ih (h.tradeNote e t)
    rw [List.append_assoc, List.length_append] at next
    exact next

end Cache

theorem CacheSettings.seconds_of_mem_tradeNotes {e : CacheSettings} {n : Nat} {ts : List Trade}
    {note : Cache.Note} (h : note ∈ e.tradeNotes n ts) : note.seconds = e.tradeExpiry := by
  induction ts generalizing n with
  | nil => exact absurd h List.not_mem_nil
  | cons t ts ih =>
    rcases List.mem_cons.1 h with rfl | later
    · rfl
    · exact ih later

theorem CacheSettings.le_of_isExpiry {seconds : UInt64} (h : isExpiry seconds = true) :
    seconds ≤ longestExpiry := by
  rw [isExpiry, Bool.and_eq_true, decide_eq_true_eq, decide_eq_true_eq] at h
  exact h.2

/-! ## Books -/

/-- The book of a symbol after its latest tick, or before any. -/
def TopOfBook.after (symbol : String) (latest : Option Tick) : TopOfBook :=
  latest.elim (.empty symbol) (TopOfBook.empty symbol).update

theorem TopOfBook.update_after (symbol : String) (latest : Option Tick) (t : Tick) :
    (after symbol latest).update t = after symbol (some t) := by
  cases latest <;> rfl

namespace Replay

/-- Every book shows the latest tick of its symbol. -/
def Shows (latest : String → Option Tick) (r : Replay) : Prop :=
  ∀ symbol d, r.desk? symbol = some d → d.book = .after symbol (latest symbol)

variable {latest : String → Option Tick} {r r' : Replay}

theorem shows_new {settings : EngineSettings} {quoters : List QuoterSettings}
    (h : Replay.new settings quoters = .ok r) : r.Shows fun _ => none := by
  refine induct_new h ?_ ?_
  · intro symbol d hd
    exact absurd hd (by simp [desk?, empty, Table.find?_empty])
  · intro q _ r r' shows added symbol d hd
    rw [desk?_addQuoter added] at hd
    split at hd
    next here =>
      obtain rfl := Option.some.inj hd
      rw [here]
      rfl
    next => exact shows symbol d hd

theorem shows_submit (h : r.Shows latest) (o : Order) (now : Int64) :
    (r.submit o now).2.Shows latest := by
  rcases r.submit_cases o now with ⟨_, _, hs⟩ | ⟨_, _, _, _, hs⟩ | ⟨d, t, _, hd, ht, hs⟩
  · rw [hs]
    exact h
  · rw [hs]
    exact h
  · rw [hs]
    intro symbol d' hd'
    rw [desk?_book] at hd'
    split at hd'
    next here =>
      obtain rfl := Option.some.inj hd'
      rw [here, (Desk.tradeOf_of_trade? ht).symbol]
      exact h o.symbol d hd
    next => exact h symbol d' hd'

theorem shows_respond (h : r.Shows latest) (t : Tick) :
    (r.respond t).Shows (Function.update latest t.symbol (some t)) := by
  cases hd : r.desk? t.symbol with
  | none =>
    rw [respond_of_none hd]
    intro symbol d' hd'
    have other : symbol ≠ t.symbol := by
      rintro rfl
      exact absurd (hd.symm.trans hd') (by simp)
    rw [Function.update_of_ne other]
    exact h symbol d' hd'
  | some d =>
    rw [respond_of_desk hd]
    refine kept_submitAll (P := Shows _) (fun r o now h => shows_submit h o now) _ _ ?_
    intro symbol d' hd'
    rw [desk?_setDesk] at hd'
    split at hd'
    next here =>
      obtain rfl := Option.some.inj hd'
      rw [here, Function.update_self, ← TopOfBook.update_after, ← h t.symbol d hd]
      rfl
    next other =>
      rw [Function.update_of_ne other]
      exact h symbol d' hd'

theorem shows_take (h : r.Shows latest) {t : Tick} (finite : t.isFinite = true) (took : Duration) :
    (r.take t took).Shows (Function.update latest t.symbol (some t)) := by
  rw [take_of_finite took finite]
  have accepted : { r with ticksProcessed := r.ticksProcessed + 1 }.Shows latest := h
  generalize { r with ticksProcessed := r.ticksProcessed + 1 } = r' at accepted
  simp only
  split
  · exact shows_respond accepted t
  next unquoted =>
    have none : r'.desk? t.symbol = none := by simpa [quotes_eq_isSome] using unquoted
    rw [← respond_of_none none]
    exact shows_respond accepted t

end Replay

/-! ## Sessions -/

namespace Session

open Cache (Aging Keeper Mirrors)

variable {σ τ : Type} [Cache.Store σ] [Keeper σ τ]

/-- The cache and the books of a session both hold the latest ticks, and the cache holds the trades. -/
structure Mirrored (latest : String → Option Tick) (s : Session (Aging σ τ)) : Prop where
  reachable : s.reachable = true
  expiry : s.expiry.Meaningful
  accepts : s.cache.Accepts
  contents : Mirrors latest s.replay.trades.toList s.cache.kept
  books : s.replay.Shows latest

variable {latest : String → Option Tick} {s : Session (Aging σ τ)}

theorem mirrored_start {settings : Settings} {store : σ} {times : Nat → τ}
    (nothing : Keeper.kept store = fun _ => none) (years : ∀ n, Keeper.HasYear σ (times n))
    (started : start settings (Aging.new store times) = .ok s) : Mirrored (fun _ => none) s := by
  obtain ⟨meaningful, replay⟩ := start_ok started
  obtain ⟨expiry, reachable⟩ := terms_of_start started
  have cache := cache_of_start started
  rw [Aging.ping_snd] at cache
  have new : (Aging.new store times).Accepts := ⟨rfl, years⟩
  constructor
  case reachable => rw [reachable, Aging.ping_fst]
  case expiry => exact expiry ▸ Settings.cache_meaningful meaningful
  case accepts => exact cache ▸ new.next _
  case contents =>
    have none : s.cache.kept = fun _ => none := by
      rw [cache]
      exact (Aging.kept_present _).trans nothing
    rw [none, Replay.trades_new replay]
    exact Cache.mirrors_empty
  case books => exact Replay.shows_new replay

/-- What a session does is mirrored if the notes that tell of it make up for it. -/
theorem Mirrored.tell (h : Mirrored latest s) {latest' : String → Option Tick}
    {s' : Session (Aging σ τ)} (terms : SameTerms s' s) {notes : List Cache.Note}
    (cache : s'.cache = Cache.tell s.cache notes) (short : ∀ n ∈ notes, n.seconds ≤ longestExpiry)
    (contents : Mirrors latest' s'.replay.trades.toList (Cache.written s.cache.kept notes))
    (books : s'.replay.Shows latest') : Mirrored latest' s' := by
  obtain ⟨accepts, kept⟩ := Aging.tell_eq h.accepts short
  rw [← cache] at accepts kept
  exact ⟨terms.reachable.trans h.reachable, terms.expiry ▸ h.expiry, accepts, kept ▸ contents, books⟩

theorem Mirrored.short (h : Mirrored latest s) {known : Nat} {news : List Trade} :
    ∀ n ∈ s.expiry.tradeNotes known news, n.seconds ≤ longestExpiry := by
  intro n member
  rw [CacheSettings.seconds_of_mem_tradeNotes member]
  exact CacheSettings.le_of_isExpiry h.expiry.tradeExpiry

theorem mirrored_takeTick (h : Mirrored latest s) {t : Tick} (finite : t.isFinite = true)
    (w : Readings) :
    Mirrored (Function.update latest t.symbol (some t))
      ((s.takeTick t : StateM Readings _) w).1 := by
  have replay := replay_takeTick s t w
  have cache := cache_takeTick s t w
  obtain ⟨news, traded⟩ := s.replay.trades_take t w.first
  rw [h.reachable, finite, Bool.and_true, if_pos rfl, Replay.tradesSince_of_append traded] at cache
  refine h.tell (sameTerms_takeTick s t w) cache ?_ ?_ ?_
  · exact List.forall_mem_cons.2 ⟨CacheSettings.le_of_isExpiry h.expiry.tickExpiry, h.short⟩
  · rw [replay, traded]
    exact (h.contents.tickNote s.expiry t).tradeNotes s.expiry news
  · exact replay ▸ Replay.shows_take h.books finite w.first

theorem mirrored_submit (h : Mirrored latest s) (o : Order) (now : Int64) :
    Mirrored latest (s.submit o now).2 := by
  have replay := replay_submit s o now
  have cache := cache_submit s o now
  obtain ⟨news, traded⟩ := s.replay.trades_submit o now
  rw [h.reachable, if_pos rfl, Replay.tradesSince_of_append traded] at cache
  refine h.tell (sameTerms_submit s o now) cache h.short ?_ ?_
  · rw [replay, traded]
    exact h.contents.tradeNotes s.expiry news
  · exact replay ▸ Replay.shows_submit h.books o now

/-- What one tick or order does to the cache and to the books is the same. -/
theorem mirrored_perform {seen : List Operation} (h : Mirrored (Operation.latest? seen) s)
    {op : Operation} (single : op.IsSingle) (w : Readings) :
    Mirrored (Operation.latest? (seen ++ [op])) (s.perform op w).1 := by
  cases op with
  | tick t =>
    change Mirrored _ ((s.takeTick t : StateM Readings _) w).1
    cases finite : t.isFinite with
    | true =>
      rw [Operation.latest?_append_finite seen finite]
      exact mirrored_takeTick h finite w
    | false =>
      have silent : ∀ symbol, (Operation.tick t).quoted? symbol = none := by
        simp [Operation.quoted?, finite]
      rw [Operation.latest?_append_of_none seen silent, takeTick_of_not_finite s finite]
      exact h
  | order o now =>
    rw [Operation.latest?_append_of_none seen fun _ => rfl]
    exact mirrored_submit h o now
  | _ => exact absurd single (by simp [Operation.IsSingle])

theorem mirrored_after {seen : List Operation} (h : Mirrored (Operation.latest? seen) s)
    {ops : List Operation} (single : ∀ op ∈ ops, op.IsSingle) (w : Readings) :
    Mirrored (Operation.latest? (seen ++ ops)) (s.after ops w) := by
  induction ops generalizing s w seen with
  | nil =>
    rw [List.append_nil]
    exact h
  | cons op ops ih =>
    have next := mirrored_perform h (single op List.mem_cons_self) w
    have rest := ih next (fun op' member => single op' (List.mem_cons_of_mem _ member))
      (s.perform op w).2
    rw [List.append_assoc] at rest
    exact rest

/-- What is looked up is the latest tick, without the trade it carries. -/
theorem cachedTick_of_mirrored {ops : List Operation} (h : Mirrored (Operation.latest? ops) s)
    {symbol : String} (live : Keeper.isOver s.cache.present (Cache.tickKey symbol) = false) :
    (s.cachedTick symbol).1 = (Operation.latest? ops symbol).map Tick.quoteOnly := by
  have found := Aging.get_fst s.cache live
  rw [h.contents.tick] at found
  unfold cachedTick
  rw [if_pos h.reachable]
  simp only [found]
  cases latest : Operation.latest? ops symbol with
  | none => rfl
  | some t =>
    obtain ⟨finite, rfl⟩ := Operation.latest?_spec latest
    simp only [Option.map_some, Cache.tickOfFields_tickFields finite]
    rfl

/-- What a session and its cache come to by ticks and orders. -/
structure CacheMirrors (settings : Settings) (ops : List Operation) (s : Session (Aging σ τ)) :
    Prop where
  /-- Nothing that the cache was told of was refused. -/
  accepted : s.cache.faults = []
  /-- The cache holds the latest tick of every symbol and every trade, and nothing else. -/
  contents : Mirrors (Operation.latest? ops) s.replay.trades.toList s.cache.kept
  /-- As long as its time has not come, a tick is looked up without the trade it carries. -/
  lookUp : ∀ symbol, Keeper.isOver s.cache.present (Cache.tickKey symbol) = false →
    (s.cachedTick symbol).1 = (Operation.latest? ops symbol).map Tick.quoteOnly
  /-- The book of a symbol that is quoted is that after the tick that is looked up. -/
  book : ∀ q ∈ settings.quoters, Keeper.isOver s.cache.present (Cache.tickKey q.symbol) = false →
    ∃ d, s.replay.desk? q.symbol = some d ∧
      d.book = .after q.symbol (s.cachedTick q.symbol).1

theorem cacheMirrors_after {settings : Settings} {store : σ} {times : Nat → τ}
    (nothing : Keeper.kept store = fun _ => none) (years : ∀ n, Keeper.HasYear σ (times n))
    (started : start settings (Aging.new store times) = .ok s) {ops : List Operation}
    (single : ∀ op ∈ ops, op.IsSingle) (w : Readings) :
    (s.after ops w).CacheMirrors settings ops := by
  have unseen : Mirrored (Operation.latest? []) s := mirrored_start nothing years started
  have mirrored : Mirrored (Operation.latest? ops) (s.after ops w) :=
    mirrored_after unseen single w
  constructor
  case accepted => exact mirrored.accepts.faults
  case contents => exact mirrored.contents
  case lookUp => exact fun symbol => cachedTick_of_mirrored mirrored
  case book =>
    intro q member live
    obtain ⟨d, hd, _⟩ := configured_after started ops w member
    have shown : d.book = .after q.symbol (Operation.latest? ops q.symbol) :=
      mirrored.books q.symbol d hd
    refine ⟨d, hd, ?_⟩
    rw [shown, cachedTick_of_mirrored mirrored live]
    cases Operation.latest? ops q.symbol with
    | none => rfl
    | some t => rfl

end Session

/-- Ticks of a symbol that is quoted and of one that is not, and an order between them. -/
def Sample.singles : List Operation :=
  [.tick (tick "A"), .order (sale "A") 2, .tick (tick "trade:1")]

namespace Session

open Cache (Aging Keeper)

/-- **The cache mirrors the run.** A tick's key is no other symbol's and no trade's, whatever symbols are
made of. Settings that pass their check make a session beside a store in memory, and beside one of rows,
that is empty at first, if there can be room for their windows. In every session made so, any ticks and
orders leave in the store the latest tick with finite prices of every symbol, quoted or not, and the
trades under their numbers, and nothing else. Nothing is refused while the next year can be told, and
what is looked up before its time has come is the latest tick, with which the book of a quoted symbol
agrees. -/
theorem cache_mirrors {settings : Settings} (valid : settings.check = .ok ()) :
    (Function.Injective Cache.tickKey ∧ Function.Injective Cache.tradeKey ∧
      ∀ symbol n, Cache.tickKey symbol ≠ Cache.tradeKey n) ∧
    (∀ times, (∀ n, Cache.Memory.HasYear (times n)) → ∀ now,
      (settings.HasRoom → ∃ s, start settings (Aging.new (Cache.Memory.empty now) times) = .ok s) ∧
      ∀ s, start settings (Aging.new (Cache.Memory.empty now) times) = .ok s →
        ∀ ops : List Operation, (∀ op ∈ ops, op.IsSingle) → ∀ w,
          (s.after ops w).CacheMirrors settings ops) ∧
    (∀ times, (∀ n, Cache.Rows.HasYear (times n)) → ∀ now,
      (settings.HasRoom → ∃ s, start settings (Aging.new (Cache.Rows.empty now) times) = .ok s) ∧
      ∀ s, start settings (Aging.new (Cache.Rows.empty now) times) = .ok s →
        ∀ ops : List Operation, (∀ op ∈ ops, op.IsSingle) → ∀ w,
          (s.after ops w).CacheMirrors settings ops) := by
  refine ⟨⟨Cache.tickKey_injective, Cache.tradeKey_injective, Cache.tickKey_ne_tradeKey⟩, ?_, ?_⟩
  · intro times years now
    have nothing : Keeper.kept (Cache.Memory.empty now) = fun _ => none := by
      funext key
      exact congrArg (Option.map Cache.Entry.fields) Std.TreeMap.getElem?_emptyc
    exact ⟨fun room => exists_start valid room _, fun s started ops =>
      cacheMirrors_after nothing years started⟩
  · intro times years now
    have nothing : Keeper.kept (Cache.Rows.empty now) = fun _ => none := by
      funext key
      exact congrArg (Option.map Cache.Row.fields) Std.TreeMap.getElem?_emptyc
    exact ⟨fun room => exists_start valid room _, fun s started ops =>
      cacheMirrors_after nothing years started⟩

/-- A run with trades, and with a tick of a symbol that is not quoted and named like a trade's key. -/
theorem cache_mirrors_sample :
    Sample.settings.check = .ok () ∧ Cache.Memory.HasYear .zero ∧ Cache.Rows.HasYear 0 ∧
    (∀ op ∈ Sample.singles, op.IsSingle) ∧
    (∃ s, start Sample.settings (Aging.new (Cache.Memory.empty .zero) fun _ => .zero) = .ok s ∧
      (s.after Sample.singles Sample.clock).CacheMirrors Sample.settings Sample.singles ∧
      (s.after Sample.singles Sample.clock).replay.trades.size = 3 ∧
      (s.after Sample.singles Sample.clock).cache.kept (Cache.tickKey "trade:1") =
        some (Cache.tickFields (Sample.tick "trade:1")) ∧
      ((s.after Sample.singles Sample.clock).cachedTick "trade:1").1 =
        some (Sample.tick "trade:1")) ∧
    ∃ s, start Sample.settings (Aging.new (Cache.Rows.empty 0) fun _ => 0) = .ok s ∧
      (s.after Sample.singles Sample.clock).CacheMirrors Sample.settings Sample.singles ∧
      (s.after Sample.singles Sample.clock).cache.kept (Cache.tickKey "B") = none := by
  have valid : Sample.settings.check = .ok () := (start_ok Sample.started).1
  have single : ∀ op ∈ Sample.singles, op.IsSingle := by simp [Sample.singles, Operation.IsSingle]
  have year : Cache.Memory.HasYear .zero := by unfold Cache.Memory.HasYear; decide
  have year' : Cache.Rows.HasYear 0 := by unfold Cache.Rows.HasYear; decide
  obtain ⟨_, memory, rows⟩ := cache_mirrors valid
  have room : Sample.settings.HasRoom := by decide +kernel
  obtain ⟨starts, mirrors⟩ := memory (fun _ => .zero) (fun _ => year) .zero
  obtain ⟨s, started⟩ := starts room
  obtain ⟨starts', mirrors'⟩ := rows (fun _ => 0) (fun _ => year') 0
  obtain ⟨s', started'⟩ := starts' room
  have mirrored := mirrors s started Sample.singles single Sample.clock
  have mirrored' := mirrors' s' started' Sample.singles single Sample.clock
  refine ⟨valid, year, year', single, ⟨s, started, mirrored, ?_, ?_, ?_⟩,
    ⟨s', started', mirrored', ?_⟩⟩
  · have count : (start Sample.settings (Aging.new (Cache.Memory.empty .zero) fun _ =>
        Duration.zero)).toOption.map (fun s =>
          (s.after Sample.singles Sample.clock).replay.trades.size) = some 3 := by decide +kernel
    rw [started] at count
    exact Option.some.inj count
  · rw [mirrored.contents.tick]
    rfl
  · have live : (start Sample.settings (Aging.new (Cache.Memory.empty .zero) fun _ =>
        Duration.zero)).toOption.map (fun s =>
          Keeper.isOver (s.after Sample.singles Sample.clock).cache.present
            (Cache.tickKey "trade:1")) = some false := by decide +kernel
    rw [started] at live
    rw [mirrored.lookUp "trade:1" (Option.some.inj live)]
    rfl
  · rw [mirrored'.contents.tick]
    rfl

end Session

end MarketMaker
