import MarketMaker.Proofs.Bookkeeping
import MarketMaker.Proofs.Separation

/-!
# The position is bounded

A quoter checks its position when it quotes, for both sides at once, and the two fills come one
after the other. So where only ticks trade, a position overshoots its bound by less than a lot
(`Replay.Bounded`), and a quoter whose bound leaves no room never quotes (`Replay.Idle`). From at or
beyond the bound a tick brings the position no further, however it got there (`Replay.LeansBack`).
-/

namespace MarketMaker

/-! ## What one tick trades -/

/-- No trade, or one trade of a lot if it is wanted. -/
inductive Quoter.LotTraded (q : Quoter) (wanted : Bool) (side : Side) : List Trade → Prop
  | none : LotTraded q wanted side []
  | one (t : Trade) (wants : wanted = true) (own : t.side = side) (lot : t.quantity = q.lotSize) :
      LotTraded q wanted side [t]

/-- The least signed word is the one that has no negative. -/
theorem Trade.toInt_signedQuantity_of_minValue_lt {t : Trade}
    (room : Int64.minValue < t.quantity.toInt64) :
    t.signedQuantity.toInt = t.side.sign.toInt * t.quantity.toInt64.toInt := by
  rw [signedQuantity]
  cases t.side with
  | buy =>
    have plus : Side.buy.sign.toInt = 1 := rfl
    rw [plus, Side.sign, Int64.one_mul, Int.one_mul]
  | sell =>
    have minus : Side.sell.sign.toInt = -1 := rfl
    rw [minus, Side.sign, Int64.neg_mul, Int64.one_mul, Word.toInt_neg_of_lt room, Int.neg_one_mul]

theorem Trade.toInt_signedQuantity {t : Trade} (h : t.quantity.toNat < 2 ^ 63) :
    t.signedQuantity.toInt = t.side.sign.toInt * t.quantity.toNat := by
  have most := Int64.toInt_maxValue
  have least := Int64.toInt_minValue
  have lot : t.quantity.toInt64.toInt = t.quantity.toNat := Word.toInt_toInt64 (by omega)
  have room : Int64.minValue < t.quantity.toInt64 := by
    rw [Int64.lt_iff_toInt_lt]
    omega
  rw [toInt_signedQuantity_of_minValue_lt room, lot]

namespace Replay

/-- An order of a lot trades a lot or nothing, and the position moves with the trade. -/
theorem submitAll_lot {q : Quoter} {wanted : Bool} {side : Side} {orders : List Order}
    (h : q.AtMostOne wanted side orders) {r : Replay} {d : Desk} (hd : r.desk? q.symbol = some d)
    (now : Int64) :
    ∃ d' ts, q.LotTraded wanted side ts ∧ (r.submitAll orders now).desk? q.symbol = some d' ∧
      (r.submitAll orders now).tradesOf q.symbol = r.tradesOf q.symbol ++ ts ∧
      d'.quoter.position =
        (ts.map Trade.signedQuantity).foldl (· + ·) d.quoter.position := by
  cases h with
  | none => exact ⟨d, [], .none, hd, (List.append_nil _).symm, rfl⟩
  | one o wants own symbol lot =>
    change ∃ d' ts, _ ∧ (r.submit o now).2.desk? q.symbol = some d' ∧
      (r.submit o now).2.tradesOf q.symbol = _ ∧ _
    rcases r.submit_cases o now with ⟨_, _, hs⟩ | ⟨_, _, _, _, hs⟩ | ⟨d₀, t, _, hd₀, ht, hs⟩
    · rw [hs]
      exact ⟨d, [], .none, hd, (List.append_nil _).symm, rfl⟩
    · rw [hs]
      exact ⟨d, [], .none, hd, (List.append_nil _).symm, rfl⟩
    · have ofOrder := Desk.tradeOf_of_trade? ht
      obtain rfl : d = d₀ := by
        rw [symbol, hd] at hd₀
        exact Option.some.inj hd₀
      have here : t.symbol = q.symbol := ofOrder.symbol.trans symbol
      rw [hs]
      refine ⟨d.onTrade t, [t], .one t wants (ofOrder.side.trans own)
        (ofOrder.quantity.trans lot), ?_, ?_, rfl⟩
      · rw [desk?_book, if_pos here.symm]
      · rw [tradesOf_book, if_pos here]
        rfl

/-- The answer to a tick trades at most a lot on each side, and a side only if it was quoted. -/
theorem respond_lots {r : Replay} {t : Tick} {d : Desk} (hd : r.desk? t.symbol = some d)
    (named : d.quoter.symbol = t.symbol) :
    ∃ d' bought sold, d.quoter.LotTraded (d.quoter.quotesBid t) .buy bought ∧
      d.quoter.LotTraded (d.quoter.quotesAsk t) .sell sold ∧
      (r.respond t).desk? t.symbol = some d' ∧
      (r.respond t).tradesOf t.symbol = r.tradesOf t.symbol ++ (bought ++ sold) ∧
      d'.quoter.position =
        ((bought ++ sold).map Trade.signedQuantity).foldl (· + ·) d.quoter.position := by
  obtain ⟨bids, asks, quoted, bid, ask⟩ := d.quoter.quote_fst t t.timestamp
  have noted : (r.setDesk t.symbol ((d.observe t).quote t).2).desk? d.quoter.symbol =
      some ((d.observe t).quote t).2 := by
    rw [desk?_setDesk, if_pos named]
  obtain ⟨d₁, bought, lot₁, hd₁, traded₁, moved₁⟩ := submitAll_lot bid noted t.timestamp
  obtain ⟨d₂, sold, lot₂, hd₂, traded₂, moved₂⟩ := submitAll_lot ask hd₁ t.timestamp
  refine ⟨d₂, bought, sold, lot₁, lot₂, ?_⟩
  rw [respond_of_desk hd, Desk.quote_orders, Desk.observe_quoter, quoted, submitAll,
    List.foldl_append]
  rw [named] at hd₂ traded₁ traded₂
  refine ⟨hd₂, ?_, ?_⟩
  · refine traded₂.trans ?_
    rw [traded₁, List.append_assoc]
    rfl
  · rw [moved₂, moved₁, List.map_append, List.foldl_append, Desk.quote_quoter,
      Quoter.quote_position, Desk.observe_quoter]

end Replay

/-! ## When a side is quoted -/

namespace Quoter

theorem lt_of_quotesBid {q : Quoter} {t : Tick} (h : q.quotesBid t = true) :
    q.position < q.settings.maxPosition := by
  simp only [quotesBid, Bool.and_eq_true, decide_eq_true_eq] at h
  exact h.1.1

theorem lt_of_quotesAsk {q : Quoter} {t : Tick} (h : q.quotesAsk t = true) :
    -q.settings.maxPosition < q.position := by
  simp only [quotesAsk, Bool.and_eq_true, decide_eq_true_eq] at h
  exact h.1

theorem LotTraded.signed {q : Quoter} {wanted : Bool} {side : Side} {ts : List Trade}
    (h : q.LotTraded wanted side ts) (lot : q.lotSize.toNat < 2 ^ 63) :
    ts = [] ∨ wanted = true ∧ ∃ t, ts = [t] ∧
      t.signedQuantity.toInt = side.sign.toInt * q.lotSize.toNat := by
  cases h with
  | none => exact .inl rfl
  | one t wants own size =>
    have signed := Trade.toInt_signedQuantity (t := t) (by rwa [size])
    rw [own, size] at signed
    exact .inr ⟨wants, t, rfl, signed⟩

theorem LotTraded.bought {q : Quoter} {wanted : Bool} {ts : List Trade}
    (h : q.LotTraded wanted .buy ts) (lot : q.lotSize.toNat < 2 ^ 63) :
    ts = [] ∨ wanted = true ∧ ∃ t, ts = [t] ∧ t.signedQuantity.toInt = q.lotSize.toNat := by
  have plus : Side.buy.sign.toInt = 1 := rfl
  simpa only [plus, Int.one_mul] using h.signed lot

theorem LotTraded.sold {q : Quoter} {wanted : Bool} {ts : List Trade}
    (h : q.LotTraded wanted .sell ts) (lot : q.lotSize.toNat < 2 ^ 63) :
    ts = [] ∨ wanted = true ∧ ∃ t, ts = [t] ∧ t.signedQuantity.toInt = -q.lotSize.toNat := by
  have minus : Side.sell.sign.toInt = -1 := rfl
  simpa only [minus, Int.neg_mul, Int.one_mul] using h.signed lot

/-- A position less than a lot beyond its bound. -/
def Bounds (q : Quoter) (position : Int64) : Prop :=
  -(q.settings.maxPosition.toInt + q.lotSize.toNat - 1) ≤ position.toInt ∧
    position.toInt ≤ q.settings.maxPosition.toInt + q.lotSize.toNat - 1

/-- Wherever both fills start from, one fill starts inside the bound and two cancel out. -/
theorem bounds_of_lots {q : Quoter} {t : Tick} {bought sold : List Trade} {position : Int64}
    (room : 0 < q.settings.maxPosition) (lot : q.lotSize.toNat < 2 ^ 63)
    (bid : q.LotTraded (q.quotesBid t) .buy bought) (ask : q.LotTraded (q.quotesAsk t) .sell sold)
    (before : q.Bounds q.position)
    (moved : position.toInt = q.position.toInt +
      ((bought ++ sold).map fun t => t.signedQuantity.toInt).sum) : q.Bounds position := by
  have ⟨low, high⟩ := before
  have positive := Int64.lt_iff_toInt_lt.1 room
  have negated := Word.toInt_neg_of_lt (Word.minValue_lt_of_pos room)
  rw [List.map_append, List.sum_append_int] at moved
  rw [Bounds]
  rcases bid.bought lot with rfl | ⟨wantsBid, b, rfl, boughtLot⟩
  · rcases ask.sold lot with rfl | ⟨wantsAsk, s, rfl, soldLot⟩
    · simp only [List.map_nil, List.sum_nil] at moved
      omega
    · have above := Int64.lt_iff_toInt_lt.1 (lt_of_quotesAsk wantsAsk)
      simp only [List.map_nil, List.sum_nil, List.map_cons, List.sum_cons] at moved
      omega
  · have below := Int64.lt_iff_toInt_lt.1 (lt_of_quotesBid wantsBid)
    rcases ask.sold lot with rfl | ⟨_, s, rfl, soldLot⟩
    · simp only [List.map_nil, List.sum_nil, List.map_cons, List.sum_cons] at moved
      omega
    · simp only [List.map_nil, List.sum_nil, List.map_cons, List.sum_cons] at moved
      omega

/-- From its bound a position is not raised. Nothing is bought there, and a sale stays in range. -/
theorem le_of_lots {q : Quoter} {t : Tick} {bought sold : List Trade}
    (room : 0 < q.settings.maxPosition) (lot : q.lotSize.toNat < 2 ^ 63)
    (bid : q.LotTraded (q.quotesBid t) .buy bought) (ask : q.LotTraded (q.quotesAsk t) .sell sold)
    (full : q.settings.maxPosition ≤ q.position) :
    ((bought ++ sold).map Trade.signedQuantity).foldl (· + ·) q.position ≤ q.position := by
  rcases bid.bought lot with rfl | ⟨wantsBid, _⟩
  · rcases ask.sold lot with rfl | ⟨_, s, rfl, soldLot⟩
    · exact Int64.le_refl _
    · change q.position + s.signedQuantity ≤ q.position
      have positive := Int64.lt_iff_toInt_lt.1 (Int64.lt_of_lt_of_le room full)
      have zero := Int64.toInt_zero
      have least := Int64.toInt_minValue
      have high := q.position.toInt_le
      have sum : (q.position + s.signedQuantity).toInt = _ :=
        Word.toInt_add_of_range (by omega) (by omega)
      rw [Int64.le_iff_toInt_le]
      omega
  · exact absurd full (Int64.not_le.2 (lt_of_quotesBid wantsBid))

/-- From its lower bound a position is not lowered. Nothing is sold there, and a purchase stays in
range. -/
theorem ge_of_lots {q : Quoter} {t : Tick} {bought sold : List Trade}
    (room : 0 < q.settings.maxPosition) (lot : q.lotSize.toNat < 2 ^ 63)
    (bid : q.LotTraded (q.quotesBid t) .buy bought) (ask : q.LotTraded (q.quotesAsk t) .sell sold)
    (full : q.position ≤ -q.settings.maxPosition) :
    q.position ≤ ((bought ++ sold).map Trade.signedQuantity).foldl (· + ·) q.position := by
  rcases ask.sold lot with rfl | ⟨wantsAsk, _⟩
  · rcases bid.bought lot with rfl | ⟨_, b, rfl, boughtLot⟩
    · exact Int64.le_refl _
    · change q.position ≤ q.position + b.signedQuantity
      have positive := Int64.lt_iff_toInt_lt.1 room
      have negative := Int64.le_iff_toInt_le.1 full
      have zero := Int64.toInt_zero
      have most := Int64.toInt_maxValue
      have low := q.position.minValue_le_toInt
      rw [Word.toInt_neg_of_lt (Word.minValue_lt_of_pos room)] at negative
      have sum : (q.position + b.signedQuantity).toInt = _ :=
        Word.toInt_add_of_range (by omega) (by omega)
      rw [Int64.le_iff_toInt_le]
      omega
  · exact absurd full (Int64.not_le.2 (lt_of_quotesAsk wantsAsk))

/-- Without room for a position nothing is quoted from none. -/
theorem quote_of_no_room {q : Quoter} (least : Int64.minValue < q.settings.maxPosition)
    (none : q.settings.maxPosition ≤ 0) (flat : q.position = 0) (t : Tick) (now : Int64) :
    q.quote t now = ([], q) := by
  have bid : q.quotesBid t = false := by
    cases h : q.quotesBid t with
    | false => rfl
    | true =>
      have below := lt_of_quotesBid h
      rw [flat] at below
      exact absurd none (Int64.not_le.2 below)
  have ask : q.quotesAsk t = false := by
    cases h : q.quotesAsk t with
    | false => rfl
    | true =>
      have above := Int64.lt_iff_toInt_lt.1 (lt_of_quotesAsk h)
      have small := Int64.le_iff_toInt_le.1 none
      rw [flat, Word.toInt_neg_of_lt least] at above
      exact absurd above (by simpa using small)
  unfold quote
  split
  · simp [make, bid, ask]
  · rfl

end Quoter

/-! ## Ticks at the bound -/

namespace Replay

/-- A desk from which a tick moves the position no further out than it is. -/
structure LeansBack (q : Quoter) (r r' : Replay) (d d' : Desk) : Prop where
  before : r.desk? q.symbol = some d
  after : r'.desk? q.symbol = some d'
  above : q.settings.maxPosition ≤ d.quoter.position → d'.quoter.position ≤ d.quoter.position
  below : d.quoter.position ≤ -q.settings.maxPosition → d.quoter.position ≤ d'.quoter.position

theorem leansBack_respond {q : Quoter} (room : 0 < q.settings.maxPosition)
    (lot : q.lotSize.toNat < 2 ^ 63) {r : Replay} (quoted : r.QuotedBy q) {t : Tick}
    (own : q.symbol = t.symbol) : ∃ d d', LeansBack q r (r.respond t) d d' := by
  obtain ⟨d, hd, made⟩ := quoted
  have settings := Quoter.settings_eq_of_reset made
  have size := Quoter.lotSize_eq_of_reset made
  have named : d.quoter.symbol = t.symbol := (Quoter.symbol_eq_of_reset made).trans own
  rw [← settings] at room
  rw [← size] at lot
  obtain ⟨d', bought, sold, bid, ask, hd', _, moved⟩ := respond_lots (own ▸ hd) named
  refine ⟨d, d', hd, own ▸ hd', ?_, ?_⟩
  · intro full
    rw [← settings] at full
    rw [moved]
    exact Quoter.le_of_lots room lot bid ask full
  · intro full
    rw [← settings] at full
    rw [moved]
    exact Quoter.ge_of_lots room lot bid ask full

theorem leansBack_take {q : Quoter} (room : 0 < q.settings.maxPosition)
    (lot : q.lotSize.toNat < 2 ^ 63) {r : Replay} (named : r.Named) (quoted : r.QuotedBy q)
    (t : Tick) (took : Duration) : ∃ d d', LeansBack q r (r.take t took) d d' := by
  have ⟨d, hd, _⟩ := quoted
  have stays : ∀ r' : Replay, r'.desk? q.symbol = r.desk? q.symbol →
      ∃ d d', LeansBack q r r' d d' := fun r' same =>
    ⟨d, d, hd, same.trans hd, fun _ => Int64.le_refl _, fun _ => Int64.le_refl _⟩
  by_cases own : q.symbol = t.symbol
  · cases hf : t.isFinite with
    | false =>
      rw [take_of_not_finite took hf]
      exact stays r rfl
    | true =>
      rw [take_of_finite took hf]
      simp only
      split
      · obtain ⟨d, d', back⟩ :=
          leansBack_respond room lot ((kept_quotedBy q).accept r quoted) own
        exact ⟨d, d', back.before, back.after, back.above, back.below⟩
      · exact stays _ rfl
  · exact stays _ (take_apart named own took).desk

end Replay

/-! ## Runs of ticks -/

namespace Replay

/-- A quoter's position is within its bounds, as long as the additions that led to it were. -/
structure Bounded (q : Quoter) (r : Replay) : Prop where
  named : r.Named
  balanced : r.Balanced
  quoted : r.QuotedBy q
  bounds : ∀ d, r.desk? q.symbol = some d → Holding.flat.BooksExactly (r.tradesOf q.symbol) →
    q.Bounds d.quoter.position

theorem bounded_respond {q : Quoter} (room : 0 < q.settings.maxPosition)
    (lot : q.lotSize.toNat < 2 ^ 63) {r : Replay} (h : r.Bounded q) (t : Tick) :
    (r.respond t).Bounded q where
  named := kept_named.respond r t h.named
  balanced := kept_balanced.respond r t h.balanced
  quoted := (kept_quotedBy q).respond r t h.quoted
  bounds := by
    intro d' hd' inRange
    by_cases own : q.symbol = t.symbol
    · obtain ⟨d, hd, made⟩ := h.quoted
      have settings := Quoter.settings_eq_of_reset made
      have size := Quoter.lotSize_eq_of_reset made
      have named : d.quoter.symbol = t.symbol := (Quoter.symbol_eq_of_reset made).trans own
      have balanced := kept_balanced.respond r t h.balanced
      obtain ⟨_, bought, sold, bid, ask, _, traded, _⟩ := respond_lots (own ▸ hd) named
      rw [← own] at traded
      -- Where the additions up to now were in range, those before this tick were.
      have inRangeBefore := (Holding.booksExactly_append.1 (traded ▸ inRange)).1
      have before := h.bounds d hd inRangeBefore
      have sum := balanced.toInt_position hd' inRange
      rw [traded, List.map_append, List.sum_append_int,
        ← h.balanced.toInt_position hd inRangeBefore] at sum
      rw [Quoter.Bounds, ← settings, ← size] at before ⊢
      exact Quoter.bounds_of_lots (settings ▸ room) (size ▸ lot) bid ask before sum
    · have apart := respond_apart h.named own
      rw [apart.desk] at hd'
      rw [apart.trades] at inRange
      exact h.bounds d' hd' inRange

theorem bounds_zero {q : Quoter} (room : 0 < q.settings.maxPosition) : q.Bounds 0 := by
  have positive := Int64.lt_iff_toInt_lt.1 room
  have zero := Int64.toInt_zero
  rw [Quoter.Bounds]
  omega

theorem kept_bounded {q : Quoter} (room : 0 < q.settings.maxPosition)
    (lot : q.lotSize.toNat < 2 ^ 63) : Kept Operation.IsDriven (Bounded q) := by
  apply Kept.of_ticks
  case same =>
    intro r r' same h
    have alike := same.alikeAt q.symbol
    refine ⟨named_same same h.named, balanced_same same h.balanced, quotedBy_same same h.quoted, ?_⟩
    intro d hd inRange
    rw [← alike.desk] at hd
    rw [← alike.trades] at inRange
    exact h.bounds d hd inRange
  case respond => exact fun r t h => bounded_respond room lot h t
  case reset =>
    intro r h
    refine ⟨kept_named.reset trivial r h.named, balanced_reset h.balanced,
      (kept_quotedBy q).reset trivial r h.quoted, ?_⟩
    intro d hd _
    rw [desk?_reset] at hd
    obtain ⟨d₀, _, rfl⟩ := Option.map_eq_some_iff.1 hd
    exact bounds_zero room

/-- A quoter is as it was made. -/
structure Idle (q : Quoter) (r : Replay) : Prop where
  named : r.Named
  desk : ∃ d, r.desk? q.symbol = some d ∧ d.quoter = q

theorem idle_respond {q : Quoter} (least : Int64.minValue < q.settings.maxPosition)
    (none : q.settings.maxPosition ≤ 0) (flat : q.position = 0) {r : Replay} (h : r.Idle q)
    (t : Tick) : (r.respond t).Idle q where
  named := kept_named.respond r t h.named
  desk := by
    obtain ⟨d, hd, made⟩ := h.desk
    by_cases own : q.symbol = t.symbol
    · have quote := Quoter.quote_of_no_room least none flat t t.timestamp
      have quoted : ((d.observe t).quote t).1 = [] := by
        rw [Desk.quote_orders, Desk.observe_quoter, made, quote]
      rw [own] at hd
      rw [respond_of_desk hd, quoted, own]
      refine ⟨((d.observe t).quote t).2, ?_, ?_⟩
      · change (r.setDesk t.symbol _).desk? t.symbol = _
        rw [desk?_setDesk, if_pos rfl]
      · rw [Desk.quote_quoter, Desk.observe_quoter, made, quote]
    · rw [(respond_apart h.named own).desk]
      exact ⟨d, hd, made⟩

theorem kept_idle {q : Quoter} (least : Int64.minValue < q.settings.maxPosition)
    (none : q.settings.maxPosition ≤ 0) (fresh : q.reset = q) :
    Kept Operation.IsDriven (Idle q) := by
  apply Kept.of_ticks
  case same =>
    intro r r' same h
    obtain ⟨d, hd, made⟩ := h.desk
    exact ⟨named_same same h.named, d, (same.alikeAt q.symbol).desk ▸ hd, made⟩
  case respond =>
    have flat : q.position = 0 := by
      rw [← fresh]
      rfl
    exact fun r t h => idle_respond least none flat h t
  case reset =>
    intro r h
    obtain ⟨d, hd, made⟩ := h.desk
    refine ⟨kept_named.reset trivial r h.named, d.reset r.settings.volatility, ?_, ?_⟩
    · rw [desk?_reset, hd]
      rfl
    · change d.quoter.reset = q
      rw [made, fresh]

end Replay

namespace Session

variable {σ : Type} [Cache.Store σ] {settings : Settings} {cache : σ} {s : Session σ}

theorem bounded_after (started : start settings cache = .ok s) {ops : List Operation}
    (driven : ∀ op ∈ ops, op.IsDriven) (w : Readings) {q : QuoterSettings}
    (member : q ∈ settings.quoters) (room : 0 < q.maxPosition)
    (lot : settings.engine.lotSize.toNat < 2 ^ 63) :
    (s.after ops w).replay.Bounded (settings.quoter q) := by
  refine kept_after (Replay.kept_bounded (q := settings.quoter q) room lot) driven ?_ w
  have new := (start_ok started).2
  refine ⟨Replay.named_new new, Replay.balanced_new new, Replay.quotedBy_new new member, ?_⟩
  intro d hd _
  rw [(Replay.fresh_new new _ d hd).1]
  exact Replay.bounds_zero room

theorem idle_after (started : start settings cache = .ok s) {ops : List Operation}
    (driven : ∀ op ∈ ops, op.IsDriven) (w : Readings) {q : QuoterSettings}
    (member : q ∈ settings.quoters) (least : Int64.minValue < q.maxPosition)
    (none : q.maxPosition ≤ 0) :
    (s.after ops w).replay.Idle (settings.quoter q) := by
  refine kept_after (Replay.kept_idle (q := settings.quoter q) least none rfl) driven ?_ w
  have new := (start_ok started).2
  obtain ⟨d, hd, made⟩ := Replay.quotedBy_new new member
  have ⟨flat, unused⟩ := Replay.fresh_new new _ d hd
  refine ⟨Replay.named_new new, d, hd, ?_⟩
  have as_made : d.quoter = d.quoter.reset := by
    rw [Quoter.reset, Quoter.new, ← flat, ← unused]
  rw [as_made, made]
  rfl

/-- **The position is bounded where only ticks trade.** A quoter with room for a position overshoots
its bound by less than a lot, and one without room never quotes. Whatever happened before, a tick
does not take a position at or beyond its bound further out. -/
theorem inventory_bounded (started : start settings cache = .ok s)
    (lot : settings.engine.lotSize.toNat < 2 ^ 63) :
    (∀ ops, (∀ op ∈ ops, op.IsDriven) → ∀ w, ∀ q ∈ settings.quoters,
      ∃ d, (s.after ops w).replay.desk? q.symbol = some d ∧ d.quoter.settings = q ∧
        (0 < q.maxPosition →
          Holding.flat.BooksExactly ((s.after ops w).replay.tradesOf q.symbol) →
          -(q.maxPosition.toInt + settings.engine.lotSize.toNat - 1) ≤ d.quoter.position.toInt ∧
          d.quoter.position.toInt ≤ q.maxPosition.toInt + settings.engine.lotSize.toNat - 1) ∧
        (Int64.minValue < q.maxPosition → q.maxPosition ≤ 0 →
          d.quoter.position = 0 ∧ d.quoter.made = 0 ∧
          ∀ t now, (d.quoter.quote t now).1 = [])) ∧
    (∀ ops w t w', ∀ q ∈ settings.quoters, 0 < q.maxPosition →
      ∃ d d', (s.after ops w).replay.desk? q.symbol = some d ∧
        ((s.after ops w).perform (.tick t) w').1.replay.desk? q.symbol = some d' ∧
        (q.maxPosition ≤ d.quoter.position → d'.quoter.position ≤ d.quoter.position) ∧
        (d.quoter.position ≤ -q.maxPosition → d.quoter.position ≤ d'.quoter.position)) := by
  constructor
  · intro ops driven w q member
    obtain ⟨d, hd, made⟩ := configured_after started ops w member
    refine ⟨d, hd, Quoter.settings_eq_of_reset made, ?_, ?_⟩
    · intro room inRange
      exact (bounded_after started driven w member room lot).bounds d hd inRange
    · intro least none
      obtain ⟨e, he, as_made⟩ := (idle_after started driven w member least none).desk
      obtain rfl : d = e := Option.some.inj (hd.symm.trans he)
      rw [as_made]
      refine ⟨rfl, rfl, ?_⟩
      intro t now
      rw [Quoter.quote_of_no_room (q := settings.quoter q) least none rfl]
  · intro ops w t w' q member room
    have named := named_after started ops w
    have quoted := configured_after started ops w member
    obtain ⟨d, d', back⟩ :=
      Replay.leansBack_take (q := settings.quoter q) room lot named quoted t w'.first
    change ∃ d d', _ ∧
      (((s.after ops w).takeTick t : StateM Readings _) w').1.replay.desk? q.symbol = some d' ∧ _
    rw [replay_takeTick]
    exact ⟨d, d', back.before, back.after, back.above, back.below⟩

/-- A position that is beyond its bound of half a lot, and a quoter without room. -/
theorem inventory_bounded_sample :
    Sample.settings.engine.lotSize.toNat < 2 ^ 63 ∧ (∀ op ∈ Sample.ticks, op.IsDriven) ∧
    ∃ r d e d', (Sample.session.after Sample.ticks Sample.clock).replay = r ∧
      Holding.flat.BooksExactly (r.tradesOf "A") ∧ r.desk? "A" = some d ∧
      d.quoter.position = 100 ∧ d.quoter.position.toInt ≤ 149 ∧
      r.desk? "C" = some e ∧ e.quoter.made = 0 ∧
      ((Sample.session.after Sample.ticks Sample.clock).perform (.tick (Sample.tick "A"))
        Sample.clock).1.replay.desk? "A" = some d' ∧ d'.quoter.position ≤ d.quoter.position := by
  have lot : Sample.settings.engine.lotSize.toNat < 2 ^ 63 := by decide
  have driven : ∀ op ∈ Sample.ticks, op.IsDriven := by
    simp [Sample.ticks, Operation.IsDriven]
  have inRange : Holding.flat.BooksExactly
      ((Sample.session.after Sample.ticks Sample.clock).replay.tradesOf "A") := by decide +kernel
  have bought : ((Sample.session.after Sample.ticks Sample.clock).replay.desk? "A").map
      (fun d => d.quoter.position) = some 100 := by decide +kernel
  obtain ⟨bounded, back⟩ := inventory_bounded Sample.started lot
  obtain ⟨d, hd, _, bounds, _⟩ := bounded Sample.ticks driven Sample.clock
    { symbol := "A", maxPosition := 50 } (by simp [Sample.settings])
  obtain ⟨e, he, _, _, idle⟩ := bounded Sample.ticks driven Sample.clock
    { symbol := "C", maxPosition := 0 } (by simp [Sample.settings])
  obtain ⟨d₀, d', hd₀, hd', above, _⟩ := back Sample.ticks Sample.clock (Sample.tick "A")
    Sample.clock { symbol := "A", maxPosition := 50 } (by simp [Sample.settings]) (by decide)
  obtain rfl : d = d₀ := Option.some.inj (hd.symm.trans hd₀)
  have held : d.quoter.position = 100 := by simpa [hd] using bought
  refine ⟨lot, driven, _, d, e, d', rfl, inRange, hd, held, ?_, he, ?_, hd', ?_⟩
  · exact (bounds (by decide) inRange).2
  · exact (idle (by decide) (by decide)).2.1
  · apply above
    rw [held]
    decide

end Session

end MarketMaker
