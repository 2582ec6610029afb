import MarketMaker.Proofs.Inventory
import MarketMaker.Proofs.Reached

/-!
# What a fill does to a position

A quantity is an unsigned word, a position a signed one. A fill moves the position by its quantity as
long as that is below `2 ^ 63`; a larger one wraps, and the position moves the other way, by what the
quantity lacks to `2 ^ 64`; `2 ^ 63` itself lowers the position on either side (`Session.fill_moves`).
No check stands in the way of such an order, and a purchase that lowers the position is one
(`Session.purchase_lowers`).
-/

namespace MarketMaker

theorem Trade.toInt_signedQuantity_of_lt {t : Trade} (h : 2 ^ 63 < t.quantity.toNat) :
    t.signedQuantity.toInt = t.side.sign.toInt * ((t.quantity.toNat : Int) - 2 ^ 64) := by
  have most := Int64.toInt_maxValue
  have least := Int64.toInt_minValue
  have wrapped : t.quantity.toInt64.toInt = t.quantity.toNat - 2 ^ 64 :=
    Word.toInt_toInt64_of_lt (by omega)
  have room : Int64.minValue < t.quantity.toInt64 := by
    rw [Int64.lt_iff_toInt_lt]
    omega
  rw [toInt_signedQuantity_of_minValue_lt room, wrapped]

/-- The least signed word is its own negative, so the side makes no difference. -/
theorem Trade.toInt_signedQuantity_of_eq {t : Trade} (h : t.quantity.toNat = 2 ^ 63) :
    t.signedQuantity.toInt = -2 ^ 63 := by
  have most := Int64.toInt_maxValue
  have least := Int64.toInt_minValue
  have wrapped : t.quantity.toInt64.toInt = t.quantity.toNat - 2 ^ 64 :=
    Word.toInt_toInt64_of_lt (by omega)
  have word : t.quantity.toInt64 = Int64.minValue := Int64.toInt_inj.1 (by omega)
  rw [signedQuantity, word]
  cases t.side with
  | buy => decide
  | sell => decide

namespace Replay

/-- The books balance at every state on the way. -/
theorem Reached.balanced {start r : Replay} (reached : Reached start r) (h : start.Balanced) :
    r.Balanced := by
  induction reached with
  | start => exact h
  | accept _ ih => exact kept_balanced.accept _ ih
  | quote _ _ hd ih =>
    refine balanced_setDesk ih hd ?_
    rw [Desk.quote_quoter, Quoter.quote_position, Desk.observe_quoter]
  | submit _ o now ih => exact kept_balanced.submit o now trivial _ ih
  | timed _ took ih => exact kept_balanced.timed _ took ih
  | elapse _ elapsed ih => exact kept_balanced.elapse _ elapsed ih
  | addQuoter _ fresh added ih => exact balanced_addQuoter ih fresh added
  | reset _ ih => exact balanced_reset ih

/-! ## A fill -/

/-- A fill adds the same signed quantity to the quoter's position and to the ledger's. -/
structure FillMoves (r r' : Replay) (t : Trade) (h h' : Holding) : Prop where
  before : ∃ d, r.desk? t.symbol = some d ∧ d.quoter.position = h.position
  after : ∃ d, r'.desk? t.symbol = some d ∧ d.quoter.position = h'.position
  known : r.ledger.holdings.find? t.symbol = some h
  booked : r'.ledger.holdings.find? t.symbol = some h'
  moved : h'.position = h.position + t.signedQuantity

theorem fillMoves_of_submit {r : Replay} (balanced : r.Balanced) {o : Order} {now : Int64}
    {t : Trade} (fills : (r.submit o now).1 = .ok (some t)) :
    Desk.TradeOf o now t ∧ ∃ h h', FillMoves r (r.submit o now).2 t h h' := by
  rcases r.submit_cases o now with ⟨_, _, hs⟩ | ⟨_, _, _, _, hs⟩ | ⟨d, t', _, hd, ht, hs⟩
  · rw [hs] at fills
    exact absurd fills (by simp)
  · rw [hs] at fills
    exact absurd fills (by simp)
  · obtain rfl : t' = t := by
      rw [hs] at fills
      simpa using fills
    have ofOrder := Desk.tradeOf_of_trade? ht
    rw [← ofOrder.symbol] at hd
    have held := balanced.ledger_holding hd
    have known := balanced.holding t'.symbol
    rw [hd, Option.map_some, ← held] at known
    rw [hs]
    refine ⟨ofOrder, r.ledger.holding t'.symbol, (r.ledger.holding t'.symbol).book t', ⟨d, hd, ?_⟩,
      ⟨d.onTrade t', ?_, ?_⟩, known, ?_, rfl⟩
    · rw [held]
      exact balanced.position _ d hd
    · rw [desk?_book, if_pos rfl]
    · change d.quoter.position + _ = (r.ledger.holding t'.symbol).position + _
      rw [held, balanced.position _ d hd]
    · rw [holding?_book, if_pos rfl]
      rfl

end Replay

namespace Sample

/-- A purchase of the largest quantity there is. -/
def purchase : Order := ⟨1, "C", .buy, .market, 18446744073709551615, 0.0, 2⟩

end Sample

namespace Session

open Replay

variable {σ : Type} [Cache.Store σ]

/-- **A fill moves inventory by its quantity, below `2 ^ 63`.** Whatever state a run is in, and whoever
made the order, a fill moves the quoter's position and the ledger's alike. Where the addition stays in
range, they move by the quantity as long as it is below `2 ^ 63`, and by what it lacks to `2 ^ 64`, the
other way, above; at `2 ^ 63` they go down, whatever the side. -/
theorem fill_moves {settings : Settings} {cache : σ} {s : Session σ}
    (started : start settings cache = .ok s) {r : Replay} (reached : s.replay.Reached r) {o : Order}
    {now : Int64} {t : Trade} (fills : (r.submit o now).1 = .ok (some t)) :
    ∃ d h d' h', r.desk? o.symbol = some d ∧ r.ledger.holdings.find? o.symbol = some h ∧
      (r.submit o now).2.desk? o.symbol = some d' ∧
      (r.submit o now).2.ledger.holdings.find? o.symbol = some h' ∧
      d.quoter.position = h.position ∧ d'.quoter.position = h'.position ∧
      (Int64.minValue.toInt ≤ h.position.toInt + t.signedQuantity.toInt →
        h.position.toInt + t.signedQuantity.toInt ≤ Int64.maxValue.toInt →
        (o.quantity.toNat < 2 ^ 63 →
          h'.position.toInt = h.position.toInt + o.side.sign.toInt * o.quantity.toNat) ∧
        (o.quantity.toNat = 2 ^ 63 → h'.position.toInt = h.position.toInt - 2 ^ 63) ∧
        (2 ^ 63 < o.quantity.toNat →
          h'.position.toInt =
            h.position.toInt + o.side.sign.toInt * ((o.quantity.toNat : Int) - 2 ^ 64))) := by
  have balanced : r.Balanced := reached.balanced (balanced_new (start_ok started).2)
  obtain ⟨ofOrder, h, h', ⟨⟨d, hd, held⟩, ⟨d', hd', held'⟩, known, booked, moved⟩⟩ :=
    fillMoves_of_submit balanced fills
  rw [ofOrder.symbol] at hd hd' known booked
  refine ⟨d, h, d', h', hd, known, hd', booked, held, held', fun low high => ?_⟩
  have sum := Word.toInt_add_of_range low high
  rw [moved, sum, ← ofOrder.quantity, ← ofOrder.side]
  refine ⟨?_, ?_, ?_⟩
  · intro small
    rw [Trade.toInt_signedQuantity small]
  · intro middle
    rw [Trade.toInt_signedQuantity_of_eq middle, sub_eq_add_neg]
  · intro large
    rw [Trade.toInt_signedQuantity_of_lt large]

/-- A sale of seven, after trades on both sides of a reset. -/
theorem fill_moves_sample :
    ∃ r t, (Sample.session.after Sample.operations Sample.clock).replay = r ∧
      Sample.session.replay.Reached r ∧ (r.submit (Sample.sale "B") 2).1 = .ok (some t) ∧
      ∃ h h', r.ledger.holdings.find? "B" = some h ∧
        (r.submit (Sample.sale "B") 2).2.ledger.holdings.find? "B" = some h' ∧
        h'.position.toInt = h.position.toInt + -1 * 7 := by
  have fresh : ∀ op ∈ Sample.operations, op.IsFresh := by
    simp [Sample.operations, Operation.IsFresh, Quoter.IsFresh, Quoter.new]
  have reached := reached_after fresh .start Sample.clock (s := Sample.session)
  have held : ((Sample.session.after Sample.operations Sample.clock).replay.ledger.holdings.find?
      "B").map (fun h => h.position) = some (-7) := by decide +kernel
  have filled : (((Sample.session.after Sample.operations Sample.clock).replay.submit
      (Sample.sale "B") 2).1.toOption.join).map Trade.signedQuantity = some (-7) := by
    decide +kernel
  obtain ⟨t, fills, sold⟩ := Option.map_eq_some_iff.1 filled
  have submitted := Sample.ok_of_toOption (Option.join_eq_some_iff.1 fills)
  obtain ⟨_, h, _, h', _, known, _, booked, _, _, moves⟩ :=
    fill_moves Sample.started reached submitted
  refine ⟨_, t, rfl, reached, submitted, h, h', known, booked, ?_⟩
  have position : h.position = -7 := by
    have found : some h.position = some (-7) := (congrArg _ known).symm.trans held
    exact Option.some.inj found
  rw [sold, position] at moves
  rw [position]
  exact (moves (by decide) (by decide)).1 (by decide)

/-- A purchase that is accepted and fills, and no addition leaves its range; yet it lowers the
position. -/
theorem purchase_lowers :
    Session.start Sample.settings Cache.Absent.mk = .ok Sample.session ∧
    ∃ r t d d', Sample.session.replay.Reached r ∧
      (r.submit Sample.purchase 2).1 = .ok (some t) ∧ r.desk? "C" = some d ∧
      (r.submit Sample.purchase 2).2.desk? "C" = some d' ∧
      Int64.minValue.toInt ≤ d.quoter.position.toInt + t.signedQuantity.toInt ∧
      d.quoter.position.toInt + t.signedQuantity.toInt ≤ Int64.maxValue.toInt ∧
      d'.quoter.position.toInt ≠ d.quoter.position.toInt + Sample.purchase.quantity.toNat ∧
      d'.quoter.position < d.quoter.position := by
  have fresh : ∀ op ∈ [Operation.tick (Sample.tick "C")], op.IsFresh := by
    simp [Operation.IsFresh]
  have reached := reached_after fresh .start Sample.clock (s := Sample.session)
  have flat : ((Sample.session.after [.tick (Sample.tick "C")] Sample.clock).replay.desk?
      "C").map (fun d => d.quoter.position) = some 0 := by decide +kernel
  have short : (((Sample.session.after [.tick (Sample.tick "C")] Sample.clock).replay.submit
      Sample.purchase 2).2.desk? "C").map (fun d => d.quoter.position) = some (-1) := by
    decide +kernel
  have filled : (((Sample.session.after [.tick (Sample.tick "C")] Sample.clock).replay.submit
      Sample.purchase 2).1.toOption.join).map Trade.signedQuantity = some (-1) := by
    decide +kernel
  obtain ⟨d, hd, before⟩ := Option.map_eq_some_iff.1 flat
  obtain ⟨d', hd', after⟩ := Option.map_eq_some_iff.1 short
  obtain ⟨t, fills, bought⟩ := Option.map_eq_some_iff.1 filled
  refine ⟨Sample.started, _, t, d, d', reached, Sample.ok_of_toOption (Option.join_eq_some_iff.1 fills), hd, hd', ?_⟩
  rw [before, after, bought]
  decide

end Session

end MarketMaker
