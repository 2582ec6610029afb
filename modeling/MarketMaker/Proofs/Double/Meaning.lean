import MarketMaker.Proofs.Double.Order
import MarketMaker.Proofs.Double.Packing

/-!
# What doubles stand for

A double that is a number stands for an extended real (`Denotes`), and the order of doubles is that of
the numbers they stand for (`lt_iff_of_denotes`). Zeros of either sign stand for zero.
-/

namespace MarketMaker.Double

open Float.Model (UnpackedFloat)
open Float.Model.UnpackedFloat (Sign)

/-- A number with a sign. -/
def signed (s : Sign) (x : ℝ) : ℝ :=
  match s with
  | .negative => -x
  | .positive => x

/-- The infinity with a sign. -/
noncomputable def infinite : Sign → EReal
  | .negative => ⊥
  | .positive => ⊤

/-- The number that an unpacked double stands for, if it is one. -/
noncomputable def number? : UnpackedFloat → Option EReal
  | .notANumber => none
  | .infinity s => some (infinite s)
  | .zero _ => some 0
  | .finite s m e _ => some (signed s (quanta m e) : EReal)

/-- A double stands for a number. -/
def Denotes (x : Float) (a : EReal) : Prop :=
  number? x.toModel.unpack = some a

variable {x y : Float} {a b : EReal}

theorem Denotes.unique (ha : Denotes x a) (hb : Denotes x b) : a = b :=
  Option.some.inj (ha.symm.trans hb)

theorem exists_denotes (h : x.isNaN = false) : ∃ a, Denotes x a := by
  unfold Denotes
  change x.toModel.unpack.isNaN = false at h
  cases hu : x.toModel.unpack with
  | notANumber =>
    rw [hu] at h
    exact absurd h (by decide)
  | infinity s => exact ⟨_, rfl⟩
  | zero s => exact ⟨_, rfl⟩
  | finite s m e positive => exact ⟨_, rfl⟩

theorem Denotes.isNaN (h : Denotes x a) : x.isNaN = false := by
  unfold Denotes at h
  change x.toModel.unpack.isNaN = false
  cases hu : x.toModel.unpack with
  | notANumber =>
    rw [hu] at h
    exact absurd h (by simp [number?])
  | infinity s => rfl
  | zero s => rfl
  | finite s m e positive => rfl

theorem isFinite_iff : x.isFinite = true ↔ ∃ r : ℝ, Denotes x r := by
  unfold Denotes
  change x.toModel.unpack.isFinite = true ↔ _
  cases x.toModel.unpack with
  | notANumber => simp [number?, UnpackedFloat.isFinite]
  | infinity s => cases s <;> simp [number?, infinite, UnpackedFloat.isFinite]
  | zero s => exact ⟨fun _ => ⟨0, rfl⟩, fun _ => rfl⟩
  | finite s m e positive => exact ⟨fun _ => ⟨_, rfl⟩, fun _ => rfl⟩

theorem isInf_of_isFinite (h : x.isFinite = true) : x.isInf = false := by
  change x.toModel.unpack.isFinite = true at h
  change x.toModel.unpack.isInf = false
  cases hu : x.toModel.unpack with
  | infinity s =>
    rw [hu] at h
    exact absurd h (by simp [UnpackedFloat.isFinite])
  | notANumber => rfl
  | zero s => rfl
  | finite s m e positive => rfl

theorem isFinite_or_isInf (h : x.isNaN = false) : x.isFinite = true ∨ x.isInf = true := by
  change x.toModel.unpack.isNaN = false at h
  change x.toModel.unpack.isFinite = true ∨ x.toModel.unpack.isInf = true
  cases hu : x.toModel.unpack with
  | notANumber =>
    rw [hu] at h
    exact absurd h (by decide)
  | infinity s => exact .inr rfl
  | zero s => exact .inl rfl
  | finite s m e positive => exact .inl rfl

/-- What stands for a real is a zero or a finite number of quanta. -/
theorem cases_of_number? {u : UnpackedFloat} {r : ℝ} (h : number? u = some (r : EReal)) :
    (∃ s, u = .zero s ∧ r = 0) ∨
      ∃ s m e positive, u = .finite s m e positive ∧ signed s (quanta m e) = r := by
  cases u with
  | notANumber => cases h
  | infinity s =>
    cases s with
    | negative => exact absurd (Option.some.inj h).symm (EReal.coe_ne_bot r)
    | positive => exact absurd (Option.some.inj h).symm (EReal.coe_ne_top r)
  | zero s => exact .inl ⟨s, rfl, EReal.coe_eq_zero.1 (Option.some.inj h).symm⟩
  | finite s m e positive =>
    exact .inr ⟨s, m, e, positive, rfl, EReal.coe_injective (Option.some.inj h)⟩

/-! ## The order -/

theorem quanta_lt {m m' : ℕ} {e e' : ℤ} (h : Canonical m e) (h' : Canonical m' e') (less : e < e') :
    quanta m e < quanta m' e' := by
  have floor := h.floor
  have digits : (m : ℝ) < 2 ^ (53 : ℕ) := by exact_mod_cast h.digits
  have full : (2 : ℝ) ^ (52 : ℕ) ≤ m' := by
    exact_mod_cast h'.normal.resolve_right (by omega)
  calc (m : ℝ) * 2 ^ e < 2 ^ (53 : ℕ) * 2 ^ e := mul_lt_mul_of_pos_right digits (two_zpow_pos e)
    _ = 2 ^ (52 : ℕ) * 2 ^ (e + 1) := by
        rw [two_zpow_add]
        ring
    _ ≤ 2 ^ (52 : ℕ) * 2 ^ e' := by
        have exponents := two_zpow_le (show e + 1 ≤ e' from less)
        gcongr
    _ ≤ m' * 2 ^ e' := mul_le_mul_of_nonneg_right full (two_zpow_pos e').le

/-- Where the digits are as many as there can be, the exponents are compared first. -/
theorem compare_quanta {m m' : ℕ} {e e' : ℤ} (h : Canonical m e) (h' : Canonical m' e') :
    (compare e e').then (compare m m') = .lt ↔ quanta m e < quanta m' e' := by
  rcases lt_trichotomy e e' with less | rfl | greater
  · rw [compare_lt_iff_lt.2 less]
    exact iff_of_true rfl (quanta_lt h h' less)
  · rw [compare_eq_iff_eq.2 rfl, mul_lt_mul_iff_left₀ (two_zpow_pos e), Nat.cast_lt]
    exact compare_lt_iff_lt
  · rw [compare_gt_iff_gt.2 greater]
    exact iff_of_false (by simp) (quanta_lt h' h greater).not_gt

theorem quanta_pos {m : ℕ} (e : ℤ) (positive : 0 < m) : 0 < quanta m e :=
  mul_pos (Nat.cast_pos.2 positive) (two_zpow_pos e)

theorem compare_lt_iff {u v : UnpackedFloat} (hu : Representable u) (hv : Representable v)
    (ha : number? u = some a) (hb : number? v = some b) :
    u.compare v = some .lt ↔ a < b := by
  cases u with
  | notANumber => cases ha
  | infinity s =>
    cases ha
    cases v with
    | notANumber => cases hb
    | infinity s' =>
      cases hb
      cases s <;> cases s'
      · exact iff_of_false (by decide) (lt_irrefl _)
      · exact iff_of_true rfl bot_lt_top
      · exact iff_of_false (by decide) bot_lt_top.not_gt
      · exact iff_of_false (by decide) (lt_irrefl _)
    | zero _ =>
      cases hb
      cases s <;> simp [UnpackedFloat.compare, infinite]
    | finite _ _ _ _ =>
      cases hb
      cases s <;> simp [UnpackedFloat.compare, infinite]
  | zero _ =>
    cases ha
    cases v with
    | notANumber => cases hb
    | infinity s' =>
      cases hb
      cases s' <;> simp [UnpackedFloat.compare, infinite]
    | zero _ =>
      cases hb
      simp [UnpackedFloat.compare]
    | finite s' m' e' positive' =>
      cases hb
      have right := quanta_pos e' positive'
      rw [← EReal.coe_zero, EReal.coe_lt_coe_iff]
      cases s' with
      | negative => exact iff_of_false (by simp [UnpackedFloat.compare]) (by simp [signed, right.le])
      | positive => exact iff_of_true rfl right
  | finite s m e positive =>
    cases ha
    have left := quanta_pos e positive
    cases v with
    | notANumber => cases hb
    | infinity s' =>
      cases hb
      cases s <;> cases s' <;> simp [UnpackedFloat.compare, infinite]
    | zero _ =>
      cases hb
      rw [← EReal.coe_zero, EReal.coe_lt_coe_iff]
      cases s with
      | negative => exact iff_of_true rfl (neg_neg_of_pos left)
      | positive => exact iff_of_false (by simp [UnpackedFloat.compare]) left.not_gt
    | finite s' m' e' positive' =>
      cases hb
      have right := quanta_pos e' positive'
      rw [EReal.coe_lt_coe_iff]
      cases s <;> cases s'
      · change some ((compare e e').then (compare m m')).swap = some .lt ↔ -_ < -_
        rw [swap_compare_magnitude, Option.some_inj, compare_quanta hv.1 hu.1, neg_lt_neg_iff]
      · exact iff_of_true rfl ((neg_neg_of_pos left).trans right)
      · refine iff_of_false (by simp [UnpackedFloat.compare]) (not_lt.2 ?_)
        exact (neg_neg_of_pos right).le.trans left.le
      · change some ((compare e e').then (compare m m')) = some .lt ↔ _ < _
        rw [Option.some_inj, compare_quanta hu.1 hv.1]
        rfl

theorem lt_iff_of_denotes (hx : Denotes x a) (hy : Denotes y b) : x < y ↔ a < b := by
  rw [lt_iff]
  exact compare_lt_iff (representable_unpack _) (representable_unpack _) hx hy

theorem le_iff_of_denotes (hx : Denotes x a) (hy : Denotes y b) : x ≤ y ↔ a ≤ b := by
  rw [← not_lt, ← lt_iff_of_denotes hy hx]
  exact ⟨not_lt_of_le, fun h => by_contra fun h' => h (lt_of_not_le hx.isNaN hy.isNaN h')⟩

/-! ## What is packed -/

theorem denotes_pack {u : UnpackedFloat} (h : Representable u) (hu : number? u = some a) :
    Denotes (.ofModel (.pack u)) a := by
  change number? (Float.Model.pack u).unpack = some a
  rwa [unpack_pack h]

theorem number?_ofQuanta (s : Sign) (m : ℕ) (e : ℤ) :
    number? (ofQuanta s m e) = some (signed s (quanta m e) : EReal) := by
  unfold ofQuanta
  split
  · next zero =>
    rw [zero]
    cases s <;> simp [number?, signed]
  · rfl

theorem denotes_pack_ofQuanta (s : Sign) {m : ℕ} {e : ℤ} (h : Canonical m e) :
    Denotes (.ofModel (.pack (ofQuanta s m e))) (capped (signed s (quanta m e))) := by
  change number? (Float.Model.pack _).unpack = _
  rw [unpack_pack_ofQuanta s h]
  split_ifs with small
  · have below : (m : ℝ) * 2 ^ e < overflow := by
      have digits : (m : ℝ) < 2 ^ (53 : ℕ) := by exact_mod_cast h.digits
      calc (m : ℝ) * 2 ^ e < 2 ^ (53 : ℕ) * 2 ^ e := mul_lt_mul_of_pos_right digits (two_zpow_pos e)
        _ ≤ 2 ^ (53 : ℕ) * 2 ^ (971 : ℤ) := by
            have exponents := two_zpow_le small
            gcongr
        _ = 2 ^ (1024 : ℤ) := by rw [← zpow_natCast, ← two_zpow_add]; rfl
        _ = overflow := zpow_natCast 2 1024
    have above : 0 ≤ (m : ℝ) * 2 ^ e := mul_nonneg m.cast_nonneg (two_zpow_pos e).le
    rw [number?_ofQuanta, capped_of_abs_lt]
    cases s with
    | negative => rwa [signed, abs_neg, abs_of_nonneg above]
    | positive => rwa [signed, abs_of_nonneg above]
  · have full : (2 : ℝ) ^ (52 : ℕ) ≤ m := by
      exact_mod_cast h.normal.resolve_right (by omega)
    have large : overflow ≤ (m : ℝ) * 2 ^ e := by
      calc overflow = 2 ^ (1024 : ℤ) := (zpow_natCast 2 1024).symm
        _ = 2 ^ (52 : ℕ) * 2 ^ (972 : ℤ) := by rw [← zpow_natCast, ← two_zpow_add]; rfl
        _ ≤ 2 ^ (52 : ℕ) * 2 ^ e := by
            have exponents := two_zpow_le (show (972 : ℤ) ≤ e by omega)
            gcongr
        _ ≤ m * 2 ^ e := mul_le_mul_of_nonneg_right full (two_zpow_pos e).le
    cases s with
    | negative => rw [signed, capped_neg, capped_of_le large]; rfl
    | positive => rw [signed, capped_of_le large]; rfl

end MarketMaker.Double
