/-!
# The order of doubles

What comparisons of doubles say of each other. What is no number compares with nothing, so the order
is total among numbers alone.
-/

namespace MarketMaker.Double

open Float.Model (UnpackedFloat)
open Float.Model.UnpackedFloat (Sign)

/-! ## Comparisons -/

theorem swap_compare_sign (s s' : Sign) : (compare s s').swap = compare s' s := by
  cases s <;> cases s' <;> rfl

theorem swap_compare_magnitude (m m' : Nat) (e e' : Int) :
    ((compare e e').then (compare m m')).swap = (compare e' e).then (compare m' m) := by
  rw [Ordering.swap_then, ← Std.OrientedCmp.eq_swap, ← Std.OrientedCmp.eq_swap]

/-- The other way round, a comparison comes out the other way round. -/
theorem swap_compare (x y : UnpackedFloat) : (x.compare y).map Ordering.swap = y.compare x := by
  cases x with
  | notANumber => cases y <;> rfl
  | infinity s =>
    cases y with
    | infinity s' => exact congrArg some (swap_compare_sign s s')
    | _ => cases s <;> rfl
  | zero s =>
    cases y with
    | notANumber => rfl
    | zero _ => rfl
    | infinity s' => cases s' <;> rfl
    | finite s' _ _ _ => cases s' <;> rfl
  | finite s m e h =>
    cases y with
    | notANumber => cases s <;> rfl
    | zero _ => cases s <;> rfl
    | infinity s' => cases s <;> cases s' <;> rfl
    | finite s' m' e' h' =>
      cases s <;> cases s'
      · exact congrArg (fun o => some o.swap) (swap_compare_magnitude m m' e e')
      · rfl
      · rfl
      · exact congrArg some (swap_compare_magnitude m m' e e')

/-- What does not compare is no number. -/
theorem isNaN_of_compare {x y : UnpackedFloat} (h : x.compare y = none) :
    x.isNaN = true ∨ y.isNaN = true := by
  have compared : ∀ {o : Ordering} {P : Prop}, some o = none → P := fun h =>
    absurd h (Option.some_ne_none _)
  cases x with
  | notANumber => exact .inl rfl
  | infinity s =>
    cases y with
    | notANumber => exact .inr rfl
    | _ => cases s <;> exact compared h
  | zero s =>
    cases y with
    | notANumber => exact .inr rfl
    | zero _ => exact compared h
    | infinity s' => cases s' <;> exact compared h
    | finite s' _ _ _ => cases s' <;> exact compared h
  | finite s _ _ _ =>
    cases y with
    | notANumber => exact .inr rfl
    | zero _ => cases s <;> exact compared h
    | infinity s' => cases s <;> cases s' <;> exact compared h
    | finite s' _ _ _ => cases s <;> cases s' <;> exact compared h

/-! ## The order -/

theorem lt_iff (x y : Float) :
    x < y ↔ x.toModel.unpack.compare y.toModel.unpack = some .lt := by
  change decide (x.toModel < y.toModel) = true ↔ _
  rw [decide_eq_true_iff]
  exact beq_iff_eq

theorem le_iff (x y : Float) : x ≤ y ↔
    x.toModel.unpack.compare y.toModel.unpack = some .lt ∨
      x.toModel.unpack.compare y.toModel.unpack = some .eq := by
  change decide (x.toModel ≤ y.toModel) = true ↔ _
  rw [decide_eq_true_iff]
  change (x.toModel.unpack.compare y.toModel.unpack).any (fun o => o.isLE) = true ↔ _
  cases x.toModel.unpack.compare y.toModel.unpack with
  | none => simp
  | some o => cases o <;> simp

theorem not_lt_of_le {x y : Float} (h : x ≤ y) : ¬y < x := by
  rw [lt_iff, ← swap_compare]
  rcases (le_iff x y).1 h with h | h
  · rw [h]
    decide
  · rw [h]
    decide

/-- Numbers compare one way or the other. -/
theorem lt_of_not_le {x y : Float} (hx : x.isNaN = false) (hy : y.isNaN = false) (h : ¬x ≤ y) :
    y < x := by
  rw [le_iff] at h
  rw [lt_iff, ← swap_compare]
  cases compared : x.toModel.unpack.compare y.toModel.unpack with
  | none =>
    rcases isNaN_of_compare compared with none | none
    · exact absurd (none.symm.trans hx) (by decide)
    · exact absurd (none.symm.trans hy) (by decide)
  | some o =>
    cases o with
    | lt => exact absurd (.inl compared) h
    | eq => exact absurd (.inr compared) h
    | gt => rfl

end MarketMaker.Double
