import MarketMaker.Proofs.Registration

/-!
# Symbols apart

What becomes of a symbol in one operation depends on that symbol alone: two replays that are alike
at it stay so through a tick or an order that concerns it, and their counts grow by the same
(`Session.perform_alike`), while an operation that concerns another symbol leaves it as it is
(`Session.perform_apart`).
-/

namespace MarketMaker

/-! ## Tallies -/

/-- The counts that all symbols share. -/
structure Tally where
  ticks : UInt64
  processed : UInt64
  rejected : UInt64
  orders : UInt64
  volume : UInt64

namespace Tally

instance : Add Tally where
  add a b := ⟨a.ticks + b.ticks, a.processed + b.processed, a.rejected + b.rejected,
    a.orders + b.orders, a.volume + b.volume⟩

instance : Zero Tally where
  zero := ⟨0, 0, 0, 0, 0⟩

theorem add_def (a b : Tally) : a + b = ⟨a.ticks + b.ticks, a.processed + b.processed,
    a.rejected + b.rejected, a.orders + b.orders, a.volume + b.volume⟩ := rfl

theorem zero_def : (0 : Tally) = ⟨0, 0, 0, 0, 0⟩ := rfl

theorem add_zero (a : Tally) : a + 0 = a := by
  simp only [add_def, zero_def, UInt64.add_zero]

theorem add_assoc (a b c : Tally) : a + b + c = a + (b + c) := by
  simp only [add_def, UInt64.add_assoc]

theorem add_right_comm (a b c : Tally) : a + b + c = a + c + b := by
  simp only [add_def, UInt64.add_assoc, UInt64.add_comm b.ticks, UInt64.add_comm b.processed,
    UInt64.add_comm b.rejected, UInt64.add_comm b.orders, UInt64.add_comm b.volume]

end Tally

namespace Replay

/-- The counts of a replay. -/
def tally (r : Replay) : Tally :=
  ⟨r.ticksProcessed, r.ordersProcessed, r.ordersRejected, r.orders.orders, r.orders.volume⟩

/-! ## Replays that are alike at a symbol -/

/-- All that is known of a symbol is the same. -/
structure AlikeAt (symbol : String) (r r' : Replay) : Prop where
  settings : r.settings = r'.settings
  desk : r.desk? symbol = r'.desk? symbol
  holding : r.ledger.holdings.find? symbol = r'.ledger.holdings.find? symbol
  trades : r.tradesOf symbol = r'.tradesOf symbol

namespace AlikeAt

variable {symbol : String} {r r' r'' : Replay}

theorem refl (symbol : String) (r : Replay) : AlikeAt symbol r r := ⟨rfl, rfl, rfl, rfl⟩

theorem symm (h : AlikeAt symbol r r') : AlikeAt symbol r' r :=
  ⟨h.settings.symm, h.desk.symm, h.holding.symm, h.trades.symm⟩

theorem trans (h : AlikeAt symbol r r') (h' : AlikeAt symbol r' r'') : AlikeAt symbol r r'' :=
  ⟨h.settings.trans h'.settings, h.desk.trans h'.desk, h.holding.trans h'.holding,
    h.trades.trans h'.trades⟩

end AlikeAt

theorem SameBooks.alikeAt {r r' : Replay} (same : SameBooks r r') (symbol : String) :
    AlikeAt symbol r r' where
  settings := same.settings
  desk := by rw [desk?, same.desks]; rfl
  holding := by rw [same.ledger]
  trades := by rw [tradesOf, same.trades]; rfl

/-- Two replays move to ones that are alike at a symbol, and their counts grow by the same. -/
structure MovesAlike (symbol : String) (r r₁ r' r₁' : Replay) : Prop where
  alike : AlikeAt symbol r₁ r₁'
  gain : ∃ gain, r₁.tally = r.tally + gain ∧ r₁'.tally = r'.tally + gain

namespace MovesAlike

variable {symbol : String} {r r₁ r₂ r' r₁' r₂' : Replay}

theorem stay (h : AlikeAt symbol r r') : MovesAlike symbol r r r' r' :=
  ⟨h, 0, (Tally.add_zero _).symm, (Tally.add_zero _).symm⟩

theorem trans (first : MovesAlike symbol r r₁ r' r₁') (second : MovesAlike symbol r₁ r₂ r₁' r₂') :
    MovesAlike symbol r r₂ r' r₂' := by
  obtain ⟨gain₁, h₁, h₁'⟩ := first.gain
  obtain ⟨gain₂, h₂, h₂'⟩ := second.gain
  refine ⟨second.alike, gain₁ + gain₂, ?_, ?_⟩
  · rw [h₂, h₁, Tally.add_assoc]
  · rw [h₂', h₁', Tally.add_assoc]

end MovesAlike

/-! ## Orders -/

theorem alikeAt_reject {symbol : String} {r r' : Replay} (h : AlikeAt symbol r r') :
    AlikeAt symbol r.reject r'.reject :=
  ⟨h.settings, h.desk, h.holding, h.trades⟩

theorem alikeAt_count {symbol : String} {r r' : Replay} (h : AlikeAt symbol r r') (o : Order)
    (price : Float) : AlikeAt symbol (r.count o price) (r'.count o price) :=
  ⟨h.settings, h.desk, h.holding, h.trades⟩

theorem alikeAt_setDesk {symbol : String} {r r' : Replay} (h : AlikeAt symbol r r') (d : Desk) :
    AlikeAt symbol (r.setDesk symbol d) (r'.setDesk symbol d) where
  settings := h.settings
  desk := by rw [desk?_setDesk, desk?_setDesk, if_pos rfl, if_pos rfl]
  holding := h.holding
  trades := h.trades

theorem alikeAt_book {r r' : Replay} {d : Desk} {t : Trade} (h : AlikeAt t.symbol r r') :
    AlikeAt t.symbol (r.book d t) (r'.book d t) where
  settings := h.settings
  desk := by rw [desk?_book, desk?_book, if_pos rfl, if_pos rfl]
  holding := by
    rw [holding?_book, holding?_book, if_pos rfl, if_pos rfl, Ledger.holding, h.holding]
    rfl
  trades := by rw [tradesOf_book, tradesOf_book, if_pos rfl, if_pos rfl, h.trades]

/-- A trade leaves other symbols as they are. -/
theorem alikeAt_book_of_ne {r : Replay} {d : Desk} {t : Trade} {symbol : String}
    (h : symbol ≠ t.symbol) : AlikeAt symbol (r.book d t) r where
  settings := rfl
  desk := by rw [desk?_book, if_neg h]
  holding := by rw [holding?_book, if_neg h]
  trades := by rw [tradesOf_book, if_neg h.symm]

theorem submit_apart {r : Replay} {o : Order} {symbol : String} (h : symbol ≠ o.symbol)
    (now : Int64) : AlikeAt symbol (r.submit o now).2 r := by
  rcases r.submit_cases o now with ⟨_, _, hs⟩ | ⟨_, _, _, _, hs⟩ | ⟨d, t, _, _, ht, hs⟩
  · rw [hs]
    exact ⟨rfl, rfl, rfl, rfl⟩
  · rw [hs]
    exact ⟨rfl, rfl, rfl, rfl⟩
  · rw [hs]
    have other : symbol ≠ t.symbol := by rwa [(Desk.tradeOf_of_trade? ht).symbol]
    exact (alikeAt_book_of_ne other).trans ⟨rfl, rfl, rfl, rfl⟩

theorem submit_alike {r r' : Replay} {o : Order} (h : AlikeAt o.symbol r r') (now : Int64) :
    MovesAlike o.symbol r (r.submit o now).2 r' (r'.submit o now).2 := by
  have fault : r'.refusal? o = r.refusal? o := by rw [refusal?, ← h.desk, ← refusal?]
  cases refused : r.refusal? o with
  | some _ =>
    rw [submit_of_refused refused, submit_of_refused (fault.trans refused)]
    exact ⟨alikeAt_reject h, ⟨0, 0, 1, 0, 0⟩, by simp [tally, reject, Tally.add_def],
      by simp [tally, reject, Tally.add_def]⟩
  | none =>
    obtain ⟨d, hd⟩ := desk_of_accepted refused
    have hd' : r'.desk? o.symbol = some d := by rw [← h.desk, hd]
    rw [submit_of_accepted refused hd, submit_of_accepted (fault.trans refused) hd', ← h.settings]
    have counted : MovesAlike o.symbol r (r.count o (d.valuePrice o)) r'
        (r'.count o (d.valuePrice o)) :=
      ⟨alikeAt_count h .., ⟨0, 1, 0, 1, o.quantity⟩,
        by simp [tally, count, OrderTotals.record, Tally.add_def],
        by simp [tally, count, OrderTotals.record, Tally.add_def]⟩
    cases ht : d.trade? r.settings o now with
    | none => exact counted
    | some t =>
      have symbol := (Desk.tradeOf_of_trade? ht).symbol
      refine ⟨?_, counted.gain⟩
      rw [← symbol]
      exact alikeAt_book (symbol ▸ counted.alike)

theorem submitAll_apart {orders : List Order} {symbol : String}
    (h : ∀ o ∈ orders, symbol ≠ o.symbol) (now : Int64) (r : Replay) :
    AlikeAt symbol (r.submitAll orders now) r := by
  induction orders generalizing r with
  | nil => exact .refl symbol r
  | cons o os ih =>
    have first : AlikeAt symbol (r.submit o now).2 r := submit_apart (h o List.mem_cons_self) now
    exact (ih (fun o' member => h o' (List.mem_cons_of_mem _ member)) _).trans first

theorem submitAll_alike {orders : List Order} {symbol : String}
    (own : ∀ o ∈ orders, o.symbol = symbol) (now : Int64) {r r' : Replay}
    (h : AlikeAt symbol r r') :
    MovesAlike symbol r (r.submitAll orders now) r' (r'.submitAll orders now) := by
  induction orders generalizing r r' with
  | nil => exact .stay h
  | cons o os ih =>
    have first : MovesAlike symbol r (r.submit o now).2 r' (r'.submit o now).2 := by
      obtain rfl := own o List.mem_cons_self
      exact submit_alike h now
    exact first.trans (ih (fun o' member => own o' (List.mem_cons_of_mem _ member)) first.alike)

/-! ## Ticks -/

/-- The quotes of a desk are for the symbol it is filed under. -/
theorem Named.symbol_of_mem {r : Replay} (named : r.Named) {t : Tick} {d : Desk}
    (hd : r.desk? t.symbol = some d) {o : Order} (member : o ∈ ((d.observe t).quote t).1) :
    o.symbol = t.symbol := by
  rw [Desk.quote_orders, Desk.observe_quoter] at member
  exact (Quoter.symbol_of_mem_quote member).trans (named t.symbol d hd)

theorem respond_apart {r : Replay} (named : r.Named) {t : Tick} {symbol : String}
    (h : symbol ≠ t.symbol) : AlikeAt symbol (r.respond t) r := by
  cases hd : r.desk? t.symbol with
  | none =>
    rw [respond_of_none hd]
    exact .refl symbol r
  | some d =>
    rw [respond_of_desk hd]
    have noted : AlikeAt symbol (r.setDesk t.symbol ((d.observe t).quote t).2) r :=
      ⟨rfl, by rw [desk?_setDesk, if_neg h], rfl, rfl⟩
    refine (submitAll_apart ?_ _ _).trans noted
    intro o member
    rwa [named.symbol_of_mem hd member]

theorem respond_alike {r r' : Replay} (named : r.Named) {t : Tick} (h : AlikeAt t.symbol r r') :
    MovesAlike t.symbol r (r.respond t) r' (r'.respond t) := by
  cases hd : r.desk? t.symbol with
  | none =>
    rw [respond_of_none hd, respond_of_none (h.desk ▸ hd)]
    exact .stay h
  | some d =>
    rw [respond_of_desk hd, respond_of_desk (h.desk ▸ hd)]
    have noted : MovesAlike t.symbol r (r.setDesk t.symbol ((d.observe t).quote t).2) r'
        (r'.setDesk t.symbol ((d.observe t).quote t).2) :=
      ⟨alikeAt_setDesk h _, 0, (Tally.add_zero _).symm, (Tally.add_zero _).symm⟩
    refine noted.trans (submitAll_alike ?_ _ noted.alike)
    exact fun o => named.symbol_of_mem hd

theorem take_apart {r : Replay} (named : r.Named) {t : Tick} {symbol : String}
    (h : symbol ≠ t.symbol) (took : Duration) : AlikeAt symbol (r.take t took) r := by
  cases hf : t.isFinite with
  | false =>
    rw [take_of_not_finite took hf]
    exact .refl symbol r
  | true =>
    rw [take_of_finite took hf]
    have accepted : AlikeAt symbol { r with ticksProcessed := r.ticksProcessed + 1 } r :=
      ⟨rfl, rfl, rfl, rfl⟩
    simp only
    split
    · have answered := respond_apart (kept_named.accept r named) h
      exact ⟨answered.settings, answered.desk, answered.holding, answered.trades⟩
    · exact accepted

/-- Replays that are alike at a tick's symbol answer it alike, however long that takes them. -/
theorem take_alike {r r' : Replay} (named : r.Named) {t : Tick} (h : AlikeAt t.symbol r r')
    (took took' : Duration) :
    MovesAlike t.symbol r (r.take t took) r' (r'.take t took') := by
  cases hf : t.isFinite with
  | false =>
    rw [take_of_not_finite took hf, take_of_not_finite took' hf]
    exact .stay h
  | true =>
    rw [take_of_finite took hf, take_of_finite took' hf]
    have accepted : MovesAlike t.symbol r { r with ticksProcessed := r.ticksProcessed + 1 } r'
        { r' with ticksProcessed := r'.ticksProcessed + 1 } :=
      ⟨⟨h.settings, h.desk, h.holding, h.trades⟩, ⟨1, 0, 0, 0, 0⟩,
        by simp [tally, Tally.add_def], by simp [tally, Tally.add_def]⟩
    have answered := accepted.trans (respond_alike (kept_named.accept r named) accepted.alike)
    have quoted : r'.quotes t.symbol = r.quotes t.symbol := by
      rw [quotes_eq_isSome, quotes_eq_isSome, h.desk]
    change MovesAlike _ _ (if r.quotes t.symbol then _ else _) _
      (if r'.quotes t.symbol then _ else _)
    rw [quoted]
    split
    · obtain ⟨⟨settings, desk, holding, trades⟩, gain⟩ := answered
      exact ⟨⟨settings, desk, holding, trades⟩, gain⟩
    · exact accepted

/-- All symbols are alike, and so are the counts. -/
structure Alike (r r' : Replay) : Prop where
  at_symbol : ∀ symbol, AlikeAt symbol r r'
  tally : r.tally = r'.tally

namespace Alike

variable {r r' r'' : Replay}

theorem refl (r : Replay) : Alike r r := ⟨fun symbol => .refl symbol r, rfl⟩

theorem symm (h : Alike r r') : Alike r' r :=
  ⟨fun symbol => (h.at_symbol symbol).symm, h.tally.symm⟩

theorem trans (h : Alike r r') (h' : Alike r' r'') : Alike r r'' :=
  ⟨fun symbol => (h.at_symbol symbol).trans (h'.at_symbol symbol), h.tally.trans h'.tally⟩

end Alike

end Replay

/-! ## Operations -/

namespace Session

open Replay

variable {σ : Type} [Cache.Store σ] {s s' : Session σ}

theorem named_perform (named : s.replay.Named) (op : Operation) (w : Readings) :
    (s.perform op w).1.replay.Named :=
  kept_perform kept_named trivial named w

theorem perform_apart (named : s.replay.Named) {op : Operation} {symbol other : String}
    (about : op.subject? = some symbol) (h : other ≠ symbol) (w : Readings) :
    AlikeAt other (s.perform op w).1.replay s.replay := by
  cases op with
  | tick t =>
    obtain rfl : t.symbol = symbol := by simpa [Operation.subject?] using about
    change AlikeAt other ((s.takeTick t : StateM Readings _) w).1.replay _
    rw [replay_takeTick]
    exact take_apart named h _
  | order o now =>
    obtain rfl : o.symbol = symbol := by simpa [Operation.subject?] using about
    change AlikeAt other (s.submit o now).2.replay _
    rw [replay_submit]
    exact submit_apart h now
  | _ => exact absurd about (by simp [Operation.subject?])

theorem perform_alike (named : s.replay.Named) {op : Operation} {symbol : String}
    (about : op.subject? = some symbol) (h : AlikeAt symbol s.replay s'.replay) (w w' : Readings) :
    MovesAlike symbol s.replay (s.perform op w).1.replay s'.replay
      (s'.perform op w').1.replay := by
  cases op with
  | tick t =>
    obtain rfl : t.symbol = symbol := by simpa [Operation.subject?] using about
    change MovesAlike t.symbol _ ((s.takeTick t : StateM Readings _) w).1.replay _
      ((s'.takeTick t : StateM Readings _) w').1.replay
    rw [replay_takeTick, replay_takeTick]
    exact take_alike named h _ _
  | order o now =>
    obtain rfl : o.symbol = symbol := by simpa [Operation.subject?] using about
    change MovesAlike o.symbol _ (s.submit o now).2.replay _ (s'.submit o now).2.replay
    rw [replay_submit, replay_submit]
    exact submit_alike h now
  | _ => exact absurd about (by simp [Operation.subject?])

end Session

end MarketMaker
