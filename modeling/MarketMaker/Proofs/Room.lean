import MarketMaker.Session
import Mathlib.Algebra.Group.Nat.Defs

/-!
# Room for windows

The room that a window of returns may ever need is set aside when its desk is made. The check of
settings asks for a window of two returns at least, but not for one that there can be room for; so
settings that pass it may still be more than a replay can be made of. Every source of volatility has a
gauge just if its window, should it have one, is smaller than `2 ^ 60` (`VolatilityGauge.make?_eq_some_iff`),
and that is what it takes to make a desk (`Desk.make?_eq_some_iff`).
-/

namespace MarketMaker

namespace ReturnWindow

variable {size : UInt64}

theorem hasRoom_iff : hasRoom size = true ↔ size.toNat < 2 ^ 60 := by
  have half : UInt64.size / 2 = 8 * 2 ^ 60 := rfl
  rw [hasRoom, decide_eq_true_eq, half]
  omega

theorem make?_eq_some_iff {w : ReturnWindow Float} :
    make? size = some w ↔ size.toNat < 2 ^ 60 ∧ empty size.toNat = w := by
  simp [make?, hasRoom_iff]

theorem make?_eq_none_iff : make? size = none ↔ 2 ^ 60 ≤ size.toNat := by
  rw [make?, ite_eq_right_iff, hasRoom_iff]
  simp

end ReturnWindow

/-- There can be room for the window, if there is one. -/
def VolatilitySource.HasRoom : VolatilitySource → Prop
  | .fixed _ => True
  | .rolling window _ => window.toNat < 2 ^ 60

instance : DecidablePred VolatilitySource.HasRoom
  | .fixed _ => inferInstanceAs (Decidable True)
  | .rolling window _ => inferInstanceAs (Decidable (window.toNat < 2 ^ 60))

/-- There can be room for the windows of all quoters. -/
def Settings.HasRoom (s : Settings) : Prop :=
  s.quoters = [] ∨ s.engine.volatility.HasRoom

instance : DecidablePred Settings.HasRoom :=
  fun s => inferInstanceAs (Decidable (s.quoters = [] ∨ s.engine.volatility.HasRoom))

theorem VolatilitySource.not_hasRoom_iff {source : VolatilitySource} :
    ¬ source.HasRoom ↔
      ∃ window fallback, source = .rolling window fallback ∧ 2 ^ 60 ≤ window.toNat := by
  cases source with
  | fixed value => simp [HasRoom]
  | rolling window fallback => simp [HasRoom]

theorem VolatilityGauge.make?_eq_some_iff {source : VolatilitySource} {gauge : VolatilityGauge} :
    make? source = some gauge ↔ source.HasRoom ∧ ofSource source = gauge := by
  cases source with
  | fixed value => simp [make?, ofSource, VolatilitySource.HasRoom]
  | rolling window fallback =>
    simp [make?, ofSource, ReturnWindow.make?_eq_some_iff, VolatilitySource.HasRoom, and_assoc]

namespace Desk

variable {source : VolatilitySource} {quoter : Quoter}

theorem make?_eq_some_iff {d : Desk} :
    make? source quoter = some d ↔ source.HasRoom ∧ new source quoter = d := by
  simp [make?, new, VolatilityGauge.make?_eq_some_iff, and_assoc]

theorem make?_eq_none_iff : make? source quoter = none ↔ ¬ source.HasRoom := by
  rw [Option.eq_none_iff_forall_ne_some]
  simp [make?_eq_some_iff]

end Desk

end MarketMaker
