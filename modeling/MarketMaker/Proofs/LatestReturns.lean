import MarketMaker.Proofs.Room
import Mathlib.Data.List.DropRight

/-!
# The latest returns

Of all the returns that a price made, a window keeps the latest ones, in their order
(`ReturnWindow.latest_foldl`). A price that breaks the chain is on neither side of a return, but what
was kept before it stays. With fewer than two returns there is no deviation, and the fallback is the
figure for volatility (`VolatilityGauge.keeps_latest`). There is a window only where there can be room for
one: a gauge with a window of `2 ^ 60` returns or more is not made.
-/

namespace MarketMaker

namespace ReturnWindow

variable {α : Type}

/-- The returns of a price from each observation to the next. There is none to or from a price that
breaks the chain. -/
def chained (breaksChain : α → Bool) (returnOf : α → α → α) (prices : List α) : List α :=
  prices.consecutivePairs.filterMap fun pair =>
    if breaksChain pair.1 || breaksChain pair.2 then none else some (returnOf pair.1 pair.2)

variable {breaksChain : α → Bool} {returnOf : α → α → α} {prices : List α}

theorem consecutivePairs_concat (prices : List α) (p q : α) :
    (prices ++ [p] ++ [q]).consecutivePairs = (prices ++ [p]).consecutivePairs ++ [(p, q)] := by
  induction prices with
  | nil => rfl
  | cons first rest ih =>
    cases rest with
    | nil => rfl
    | cons second rest => exact congrArg ((first, second) :: ·) ih

/-- With one price more comes the return to it, unless the chain is broken on either side. -/
theorem chained_concat (breaksChain : α → Bool) (returnOf : α → α → α) (prices : List α) (p q : α) :
    chained breaksChain returnOf (prices ++ [p] ++ [q]) =
      chained breaksChain returnOf (prices ++ [p]) ++
        if breaksChain p || breaksChain q then [] else [returnOf p q] := by
  unfold chained
  rw [consecutivePairs_concat, List.filterMap_append]
  congr 1
  by_cases broken : (breaksChain p || breaksChain q) = true
  · rw [if_pos broken]
    exact List.filterMap_cons_none (if_pos broken)
  · rw [if_neg broken]
    exact List.filterMap_cons_some (if_neg broken)

/-- A new element takes the place of the oldest one, if there is no room beside it. Room for none is
room for one. -/
theorem rtake_concat (xs : List α) (x : α) (n : Nat) :
    (xs ++ [x]).rtake (max n 1) =
      (if n ≤ (xs.rtake (max n 1)).length then (xs.rtake (max n 1)).tail
        else xs.rtake (max n 1)) ++ [x] := by
  obtain ⟨k, hk⟩ : ∃ k, max n 1 = k + 1 := ⟨max n 1 - 1, by omega⟩
  rw [hk, List.rtake_concat_succ]
  congr 1
  unfold List.rtake
  rw [List.length_drop]
  rcases Nat.lt_or_ge k xs.length with full | room
  · have next : xs.length - k = xs.length - (k + 1) + 1 := by omega
    rw [if_pos (by omega), next, List.tail_drop]
  · rw [Nat.sub_eq_zero_of_le room, Nat.sub_eq_zero_of_le (Nat.le_succ_of_le room), List.drop_zero]
    split
    next small =>
      -- Only where there is room for none does nothing take a place.
      obtain rfl : xs = [] := List.eq_nil_of_length_eq_zero (by omega)
      rfl
    next => rfl

/-! ## What is kept -/

/-- What a window of some size knows of the prices it has taken. -/
structure Latest (breaksChain : α → Bool) (returnOf : α → α → α) (size : Nat) (prices : List α)
    (w : ReturnWindow α) : Prop where
  sized : w.size = size
  previous : w.previous = prices.getLast?.filter fun p => !breaksChain p
  returns : w.returns = (chained breaksChain returnOf prices).rtake (max size 1)

theorem latest_empty [OfNat α 0] (breaksChain : α → Bool) (returnOf : α → α → α) (size : Nat) :
    Latest breaksChain returnOf size [] (empty size) where
  sized := rfl
  previous := rfl
  returns := (List.rtake_nil _).symm

/-- The return to the next price, if the price before is known and neither breaks the chain. -/
theorem Latest.chained_concat {w : ReturnWindow α} {size : Nat}
    (h : Latest breaksChain returnOf size prices w) (q : α) :
    chained breaksChain returnOf (prices ++ [q]) = chained breaksChain returnOf prices ++
      if breaksChain q then [] else (w.previous.map fun p => returnOf p q).toList := by
  rw [h.previous]
  rcases List.eq_nil_or_concat' prices with rfl | ⟨before, p, rfl⟩
  · cases breaksChain q <;> rfl
  · rw [ReturnWindow.chained_concat, List.getLast?_concat, Option.filter_some]
    cases breaksChain p <;> cases breaksChain q <;> rfl

section Arithmetic

variable [Add α] [Sub α] [Mul α] {w : ReturnWindow α} {size : Nat}

theorem size_push (w : ReturnWindow α) (r : α) : (w.push r).size = w.size := by
  unfold push append dropOldest
  split
  · cases w.kept.pop? with
    | none => rfl
    | some popped => rfl
  · rfl

theorem returns_push (w : ReturnWindow α) (r : α) :
    (w.push r).returns = (if w.size ≤ w.returns.length then w.returns.tail else w.returns) ++ [r] := by
  unfold push
  rw [returns_append, length_returns]
  split
  · rw [returns_dropOldest]
  · rfl

/-- What a price changes: it breaks the chain, starts one, or is the end of a return. -/
theorem addPrice_cases (breaksChain : α → Bool) (returnOf : α → α → α) (w : ReturnWindow α) (q : α) :
    (breaksChain q = true ∧
      w.addPrice breaksChain returnOf q = { w with previous := none }) ∨
    (breaksChain q = false ∧ w.previous = none ∧
      w.addPrice breaksChain returnOf q = { w with previous := some q }) ∨
    ∃ p, breaksChain q = false ∧ w.previous = some p ∧
      w.addPrice breaksChain returnOf q = { w.push (returnOf p q) with previous := some q } := by
  unfold addPrice
  cases broken : breaksChain q with
  | true => exact .inl ⟨rfl, rfl⟩
  | false =>
    cases before : w.previous with
    | none => exact .inr (.inl ⟨rfl, rfl, rfl⟩)
    | some p => exact .inr (.inr ⟨p, rfl, rfl, rfl⟩)

theorem Latest.addPrice (h : Latest breaksChain returnOf size prices w) (q : α) :
    Latest breaksChain returnOf size (prices ++ [q]) (w.addPrice breaksChain returnOf q) := by
  have next := h.chained_concat q
  rcases w.addPrice_cases breaksChain returnOf q with
    ⟨broken, taken⟩ | ⟨sound, first, taken⟩ | ⟨p, sound, before, taken⟩
  · rw [broken, if_pos rfl, List.append_nil] at next
    rw [taken]
    exact ⟨h.sized, by simp [Option.filter_some, broken], h.returns.trans (by rw [next])⟩
  · rw [sound, first, if_neg Bool.false_ne_true, Option.map_none, Option.toList_none,
      List.append_nil] at next
    rw [taken]
    exact ⟨h.sized, by simp [Option.filter_some, sound], h.returns.trans (by rw [next])⟩
  · rw [sound, before, if_neg Bool.false_ne_true, Option.map_some, Option.toList_some] at next
    rw [taken]
    refine ⟨(w.size_push (returnOf p q)).trans h.sized, by simp [Option.filter_some, sound], ?_⟩
    rw [next, rtake_concat, ← h.returns, ← h.sized]
    exact w.returns_push (returnOf p q)

/-- **A window keeps the latest returns.** -/
theorem latest_foldl [OfNat α 0] (breaksChain : α → Bool) (returnOf : α → α → α) (size : Nat)
    (prices : List α) :
    Latest breaksChain returnOf size prices
      (prices.foldl (ReturnWindow.addPrice breaksChain returnOf) (empty size)) := by
  induction prices using List.reverseRecOn with
  | nil => exact latest_empty breaksChain returnOf size
  | append_singleton prices q ih =>
    rw [List.foldl_concat]
    exact ih.addPrice q

end Arithmetic

/-! ## Returns of doubles -/

theorem volatility?_eq_none_iff (w : ReturnWindow Float) :
    w.volatility? = none ↔ w.returns.length < 2 := by
  rw [length_returns, volatility?]
  split
  next few => exact iff_of_true rfl few
  next enough => exact iff_of_false (Option.some_ne_none _) enough

end ReturnWindow

namespace VolatilityGauge

theorem foldl_observe (prices : List Float) (w : ReturnWindow Float) (fallback : Float) :
    prices.foldl observe (.rolling w fallback) =
      .rolling (prices.foldl ReturnWindow.observe w) fallback := by
  induction prices generalizing w with
  | nil => rfl
  | cons price prices ih => exact ih _

/-- **The window holds the latest returns.** There is a window of every size for which there can be
room, with a gauge around it, and of no other. After any prices it keeps, in their order, the latest
logarithmic returns between neighbouring prices of which neither is at most zero: as many as its size,
but at least one. There is no deviation exactly where fewer than two are kept. The gauge then shows its
fallback, which is always so for a window below two, and else the deviation. -/
theorem keeps_latest (size : UInt64) (fallback : Float) (prices : List Float) :
    (ReturnWindow.make? size = none ↔ 2 ^ 60 ≤ size.toNat) ∧
    (make? (.rolling size fallback) = none ↔ 2 ^ 60 ≤ size.toNat) ∧
    ∀ new, ReturnWindow.make? size = some new →
      make? (.rolling size fallback) = some (.rolling new fallback) ∧
      let window := prices.foldl ReturnWindow.observe new
      let gauge := prices.foldl observe (.rolling new fallback)
      window.returns = (ReturnWindow.chained (fun price => price ≤ 0.0)
        (fun earlier later => (later / earlier).log) prices).rtake (max size.toNat 1) ∧
      (window.volatility? = none ↔ window.returns.length < 2) ∧
      (window.returns.length < 2 → gauge.current = fallback) ∧
      (2 ≤ window.returns.length → window.volatility? = some gauge.current) ∧
      (size < 2 → gauge.current = fallback) := by
  refine ⟨ReturnWindow.make?_eq_none_iff, ?_, fun new made => ⟨?_, ?_⟩⟩
  · rw [make?, Option.map_eq_none_iff, ReturnWindow.make?_eq_none_iff]
  · rw [make?, made, Option.map_some]
  obtain ⟨_, rfl⟩ := ReturnWindow.make?_eq_some_iff.1 made
  have kept := (ReturnWindow.latest_foldl (fun price : Float => price ≤ 0.0)
    (fun earlier later => (later / earlier).log) size.toNat prices).returns
  rw [foldl_observe]
  intro window gauge
  change window.returns = _ at kept
  have none_iff := window.volatility?_eq_none_iff
  have few (h : window.returns.length < 2) : window.volatility?.getD fallback = fallback := by
    rw [none_iff.2 h, Option.getD_none]
  refine ⟨kept, none_iff, few, ?_, ?_⟩
  · intro enough
    obtain ⟨v, deviation⟩ := Option.ne_none_iff_exists'.1 (mt none_iff.1 (by omega))
    change _ = some (window.volatility?.getD fallback)
    rw [deviation, Option.getD_some]
  · intro narrow
    have small : size.toNat < 2 := UInt64.lt_iff_toNat_lt.1 narrow
    apply few
    rw [kept, List.rtake, List.length_drop]
    omega

/-- A window of two that has seen a break: the last two returns are kept, and show a deviation. -/
theorem keeps_latest_sample :
    let prices := [1.0, 2.0, 0.0, 4.0, 8.0, 16.0, 32.0]
    ∃ two one, ReturnWindow.make? 2 = some two ∧ ReturnWindow.make? 1 = some one ∧
      (prices.foldl ReturnWindow.observe two).returns =
        [((16.0 : Float) / 8.0).log, ((32.0 : Float) / 16.0).log] ∧
      (prices.foldl ReturnWindow.observe two).volatility? =
        some (prices.foldl observe (.rolling two 0.01)).current ∧
      (prices.foldl observe (.rolling one 0.01)).current = 0.01 := by
  intro prices
  obtain ⟨_, _, wide⟩ := keeps_latest 2 0.01 prices
  obtain ⟨_, _, narrow⟩ := keeps_latest 1 0.01 prices
  obtain ⟨_, kept, _, _, figure, _⟩ := wide _ rfl
  obtain ⟨_, _, _, _, _, fallback⟩ := narrow _ rfl
  have latest := kept.trans (b := _) rfl
  exact ⟨_, _, rfl, rfl, latest, figure (by rw [latest]; decide), fallback (by decide)⟩

/-- There is no window of the greatest size, so that no price can be given to it. -/
theorem widest_window_lacks_room :
    ReturnWindow.make? 18446744073709551615 = none ∧
      make? (.rolling 18446744073709551615 0.02) = none := by
  decide +kernel

end VolatilityGauge

end MarketMaker
