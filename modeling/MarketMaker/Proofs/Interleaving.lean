import MarketMaker.Proofs.Separation

/-!
# Interleavings

A run of ticks and orders leaves a symbol as the part of the run that concerns it would have
(`Session.after_filter`). Operations on different symbols can be swapped, so two runs that have the
same part for every symbol come to the same in all symbols and in the counts they share
(`Session.after_interleaved`).
-/

namespace MarketMaker.Session

open Replay

variable {σ : Type} [Cache.Store σ] {s s' : Session σ}

/-! ## One symbol of a run -/

theorem concerns_iff {symbol : String} {op : Operation} :
    op.concerns symbol = true ↔ op.subject? = some symbol := by
  simp [Operation.concerns]

/-- To a symbol, a run is the part of it that concerns the symbol. -/
theorem after_filter (named : s.replay.Named) (named' : s'.replay.Named) {ops : List Operation}
    (market : ∀ op ∈ ops, op.subject?.isSome) {symbol : String}
    (h : AlikeAt symbol s.replay s'.replay) (w w' : Readings) :
    AlikeAt symbol (s.after ops w).replay
      (s'.after (ops.filter (Operation.concerns symbol)) w').replay := by
  induction ops generalizing s s' w w' with
  | nil => exact h
  | cons op ops ih =>
    have rest : ∀ op' ∈ ops, op'.subject?.isSome := fun op' member =>
      market op' (List.mem_cons_of_mem _ member)
    rw [after_cons]
    by_cases own : op.concerns symbol = true
    · rw [List.filter_cons_of_pos own, after_cons]
      have moved := perform_alike named (concerns_iff.1 own) h w w'
      exact ih (named_perform named op w) (named_perform named' op w') rest moved.alike _ _
    · rw [List.filter_cons_of_neg own]
      obtain ⟨other, about⟩ := Option.isSome_iff_exists.1 (market op List.mem_cons_self)
      have apart : symbol ≠ other := by
        rintro rfl
        exact own (concerns_iff.2 about)
      have left := perform_apart named about apart w
      exact ih (named_perform named op w) named' rest (left.trans h) _ _

/-! ## Swaps -/

theorem perform_alike_all (named : s.replay.Named) {op : Operation} {symbol : String}
    (named' : s'.replay.Named) (about : op.subject? = some symbol)
    (h : Alike s.replay s'.replay) (w w' : Readings) :
    Alike (s.perform op w).1.replay (s'.perform op w').1.replay := by
  have moved := perform_alike named about (h.at_symbol symbol) w w'
  constructor
  case at_symbol =>
    intro other
    by_cases same : other = symbol
    · rw [same]
      exact moved.alike
    · have left := perform_apart named about same w
      have left' := perform_apart named' about same w'
      exact left.trans ((h.at_symbol other).trans left'.symm)
  case tally =>
    obtain ⟨gain, grown, grown'⟩ := moved.gain
    rw [grown, grown', h.tally]

/-- Alike replays stay alike through the same operations, by any clocks. -/
theorem after_alike (named : s.replay.Named) (named' : s'.replay.Named) {ops : List Operation}
    (market : ∀ op ∈ ops, op.subject?.isSome) (h : Alike s.replay s'.replay) (w w' : Readings) :
    Alike (s.after ops w).replay (s'.after ops w').replay := by
  induction ops generalizing s s' w w' with
  | nil => exact h
  | cons op ops ih =>
    obtain ⟨symbol, about⟩ := Option.isSome_iff_exists.1 (market op List.mem_cons_self)
    have next := perform_alike_all named named' about h w w'
    exact ih (named_perform named op w) (named_perform named' op w')
      (fun op' member => market op' (List.mem_cons_of_mem _ member)) next _ _

/-- Operations on two symbols can be swapped. -/
theorem perform_swap (named : s.replay.Named) {a b : Operation} {p q : String}
    (ha : a.subject? = some p) (hb : b.subject? = some q) (apart : p ≠ q)
    (w₁ w₂ w₃ w₄ : Readings) :
    Alike ((s.perform a w₁).1.perform b w₂).1.replay
      ((s.perform b w₃).1.perform a w₄).1.replay := by
  have namedA := named_perform named a w₁
  have namedB := named_perform named b w₃
  -- Each operation finds its own symbol as it would have without the other.
  have aMoves := perform_alike named ha (perform_apart named hb apart w₃).symm w₁ w₄
  have bMoves := perform_alike named hb (perform_apart named ha apart.symm w₁).symm w₃ w₂
  constructor
  case at_symbol =>
    intro symbol
    by_cases isP : symbol = p
    · rw [isP]
      exact (perform_apart namedA hb apart w₂).trans aMoves.alike
    · by_cases isQ : symbol = q
      · rw [isQ]
        exact bMoves.alike.symm.trans (perform_apart namedB ha apart.symm w₄).symm
      · have left := (perform_apart namedA hb isQ w₂).trans (perform_apart named ha isP w₁)
        have left' := (perform_apart namedB ha isP w₄).trans (perform_apart named hb isQ w₃)
        exact left.trans left'.symm
  case tally =>
    obtain ⟨gainA, grownA, grownA'⟩ := aMoves.gain
    obtain ⟨gainB, grownB, grownB'⟩ := bMoves.gain
    rw [grownB', grownA, grownA', grownB, Tally.add_right_comm]

/-- An operation can be moved to the front of those that do not concern its symbol. -/
theorem after_move {op : Operation} {symbol : String} (about : op.subject? = some symbol)
    {pre post : List Operation} (others : ∀ op' ∈ pre, ¬op'.concerns symbol = true)
    (market : ∀ op' ∈ pre ++ post, op'.subject?.isSome) (named : s.replay.Named)
    (w w' : Readings) :
    Alike (s.after (pre ++ op :: post) w).replay (s.after (op :: (pre ++ post)) w').replay := by
  induction pre generalizing s w w' with
  | nil =>
    refine after_alike named named ?_ (.refl _) w w'
    intro op' member
    rcases List.mem_cons.1 member with rfl | member
    · rw [about]
      rfl
    · exact market op' member
  | cons a pre ih =>
    obtain ⟨other, ha⟩ := Option.isSome_iff_exists.1 (market a List.mem_cons_self)
    have apart : other ≠ symbol := by
      rintro rfl
      exact others a List.mem_cons_self (concerns_iff.2 ha)
    have rest : ∀ op' ∈ pre ++ post, op'.subject?.isSome := fun op' member =>
      market op' (List.mem_cons_of_mem _ member)
    have namedA := named_perform named a w
    have moved := ih (fun op' member => others op' (List.mem_cons_of_mem _ member)) rest namedA
      (s.perform a w).2 (s.perform a w).2
    refine moved.trans ?_
    have swapped := perform_swap named ha about apart w (s.perform a w).2 w' (s.perform op w').2
    exact after_alike (named_perform namedA op _)
      (named_perform (named_perform named op w') a _) rest swapped _ _

/-! ## Two interleavings -/

/-- Runs whose parts are the same for every symbol come to the same. -/
theorem after_interleaved (named : s.replay.Named) (named' : s'.replay.Named)
    {ops ops' : List Operation} (market : ∀ op ∈ ops, op.subject?.isSome)
    (market' : ∀ op ∈ ops', op.subject?.isSome)
    (same : ∀ symbol, ops.filter (Operation.concerns symbol) =
      ops'.filter (Operation.concerns symbol))
    (h : Alike s.replay s'.replay) (w w' : Readings) :
    Alike (s.after ops w).replay (s'.after ops' w').replay := by
  induction ops generalizing s s' ops' w w' with
  | nil =>
    cases ops' with
    | nil => exact h
    | cons op _ =>
      obtain ⟨symbol, about⟩ := Option.isSome_iff_exists.1 (market' op List.mem_cons_self)
      have part := same symbol
      rw [List.filter_nil, List.filter_cons_of_pos (concerns_iff.2 about)] at part
      exact absurd part.symm (List.cons_ne_nil _ _)
  | cons op ops ih =>
    obtain ⟨symbol, about⟩ := Option.isSome_iff_exists.1 (market op List.mem_cons_self)
    have part := same symbol
    rw [List.filter_cons_of_pos (concerns_iff.2 about)] at part
    obtain ⟨pre, post, rfl, others, _, _⟩ := List.filter_eq_cons_iff.1 part.symm
    have rest' : ∀ op' ∈ pre ++ post, op'.subject?.isSome := by
      intro op' member
      rw [List.mem_append] at member
      apply market' op'
      rcases member with member | member
      · exact List.mem_append_left _ member
      · exact List.mem_append_right _ (List.mem_cons_of_mem _ member)
    have parts : ∀ other, ops.filter (Operation.concerns other) =
        (pre ++ post).filter (Operation.concerns other) := by
      intro other
      have whole := same other
      rw [List.filter_append] at whole ⊢
      by_cases own : op.concerns other = true
      · have none_before : pre.filter (Operation.concerns other) = [] := by
          obtain rfl : symbol = other := Option.some.inj (about.symm.trans (concerns_iff.1 own))
          exact List.filter_eq_nil_iff.2 others
        rw [List.filter_cons_of_pos own, List.filter_cons_of_pos own, none_before] at whole
        rw [none_before]
        exact (List.cons.inj whole).2
      · rw [List.filter_cons_of_neg own, List.filter_cons_of_neg own] at whole
        exact whole
    have moved := after_move about others rest' named' w' w'
    have next := perform_alike_all named named' about h w w'
    have met := ih (named_perform named op w) (named_perform named' op w')
      (fun op' member => market op' (List.mem_cons_of_mem _ member)) rest' parts next
      (s.perform op w).2 (s'.perform op w').2
    exact met.trans moved.symm

/-- **Symbols do not interfere.** After any history, two runs of ticks and orders leave a symbol
alike if their parts that concern it are the same; and if this is so for every symbol, the runs also
count the same ticks and orders. -/
theorem symbols_apart {settings : Settings} {cache : σ} (started : start settings cache = .ok s)
    (history : List Operation) {ops ops' : List Operation}
    (market : ∀ op ∈ ops, op.subject?.isSome) (market' : ∀ op ∈ ops', op.subject?.isSome)
    (w₀ w w' : Readings) :
    let r := ((s.after history w₀).after ops w).replay
    let r' := ((s.after history w₀).after ops' w').replay
    (∀ symbol, ops.filter (Operation.concerns symbol) = ops'.filter (Operation.concerns symbol) →
      r.desk? symbol = r'.desk? symbol ∧
      r.ledger.holdings.find? symbol = r'.ledger.holdings.find? symbol ∧
      r.tradesOf symbol = r'.tradesOf symbol) ∧
    ((∀ symbol, ops.filter (Operation.concerns symbol) =
        ops'.filter (Operation.concerns symbol)) →
      r.ticksProcessed = r'.ticksProcessed ∧ r.ordersProcessed = r'.ordersProcessed ∧
      r.ordersRejected = r'.ordersRejected ∧ r.orders.orders = r'.orders.orders ∧
      r.orders.volume = r'.orders.volume) := by
  intro r r'
  have named := named_after started history w₀
  constructor
  · intro symbol same
    have left := after_filter named named market (.refl symbol _) w w
    have right := after_filter named named market' (.refl symbol _) w' w
    rw [← same] at right
    have met := left.trans right.symm
    exact ⟨met.desk, met.holding, met.trades⟩
  · intro same
    have met := after_interleaved named named market market' same (.refl _) w w'
    exact Tally.mk.inj met.tally

/-- Two runs that list their trades in different orders. -/
theorem symbols_apart_sample :
    let ops := [.tick (Sample.tick "A"), .tick (Sample.tick "B"), .order (Sample.sale "A") 2]
    let ops' := [.tick (Sample.tick "B"), .tick (Sample.tick "A"), .order (Sample.sale "A") 2]
    (∀ op ∈ ops, op.subject?.isSome) ∧ (∀ op ∈ ops', op.subject?.isSome) ∧
    ∃ s r r', Sample.session.after Sample.operations Sample.clock = s ∧
      (s.after ops Sample.clock).replay = r ∧ (s.after ops' Sample.clock).replay = r' ∧
      r.trades ≠ r'.trades ∧ r.tradesOf "A" = r'.tradesOf "A" ∧
      r.ordersProcessed = r'.ordersProcessed ∧ r.orders.volume = r'.orders.volume := by
  intro ops ops'
  have market : ∀ op ∈ ops, op.subject?.isSome := by simp [ops, Operation.subject?]
  have market' : ∀ op ∈ ops', op.subject?.isSome := by simp [ops', Operation.subject?]
  have same : ∀ symbol, ops.filter (Operation.concerns symbol) =
      ops'.filter (Operation.concerns symbol) := by
    intro symbol
    by_cases isA : "A" = symbol
    · subst isA
      simp [ops, ops', Operation.concerns, Operation.subject?, Sample.tick, Sample.sale]
    · simp [ops, ops', List.filter_cons, Operation.concerns, Operation.subject?, Sample.tick,
        Sample.sale, isA]
  obtain ⟨parts, counts⟩ := symbols_apart Sample.started Sample.operations market market'
    Sample.clock Sample.clock Sample.clock
  refine ⟨market, market', _, _, _, rfl, rfl, rfl, by decide +kernel, ?_, ?_, ?_⟩
  · exact (parts "A" (same "A")).2.2
  · exact (counts same).2.1
  · exact (counts same).2.2.2.2

end MarketMaker.Session
