import MarketMaker.Proofs.Double.Comparison
import MarketMaker.Word

/-!
# Whole numbers as doubles

The double of a signed word is the one nearest to it (`denotes_ofSigned`). Below zero it is that of
the magnitude, with the sign, since rounding is the same on both sides of zero (`round_neg`).
-/

namespace MarketMaker.Double

theorem round_neg (a : EReal) : round (-a) = -round a := by
  induction a with
  | bot => rw [EReal.neg_bot, round_top, round_bot, EReal.neg_bot]
  | coe r => rw [← EReal.coe_neg, round_coe, round_coe, nearest_neg, capped_neg]
  | top => rw [EReal.neg_top, round_bot, round_top, EReal.neg_top]

theorem abs_nearest_le {x y : ℝ} (hy : Fits y) (h : |x| ≤ y) : |nearest x| ≤ y := by
  obtain ⟨low, high⟩ := abs_le'.1 h
  have mirrored := nearest_le hy high
  rw [nearest_neg] at mirrored
  exact abs_le'.2 ⟨nearest_le hy low, mirrored⟩

/-- What is no larger than a double is not too large. -/
theorem round_of_abs_le {x y : ℝ} (hy : Fits y) (h : |x| ≤ y) (below : y < overflow) :
    round x = nearest x := by
  rw [round_coe, capped_of_abs_lt ((abs_nearest_le hy h).trans_lt below)]

theorem denotes_ofSigned (n : Int64) : Denotes (ofSigned n) (nearest n.toInt : ℝ) := by
  have bounded : |(n.toInt : ℝ)| ≤ 2 ^ (63 : ℤ) := by
    have low := n.le_toInt
    have high := n.toInt_lt
    have magnitude : |n.toInt| ≤ 2 ^ 63 := abs_le.2 ⟨by omega, by omega⟩
    exact_mod_cast magnitude
  rw [← round_of_abs_le (fits_two_zpow (by norm_num)) bounded (two_zpow_lt_overflow (by norm_num))]
  unfold ofSigned
  split
  next negative =>
    have magnitude : (((-n).toUInt64.toNat : ℝ) : EReal) = -(n.toInt : ℝ) := by
      exact_mod_cast congrArg (fun i : ℤ => ((i : ℝ) : EReal)) (Word.toNat_toUInt64_neg negative)
    have negated := (denotes_toFloat (-n).toUInt64).neg
    rwa [magnitude, round_neg, neg_neg] at negated
  next positive =>
    have same : ((n.toUInt64.toNat : ℝ) : EReal) = (n.toInt : ℝ) := by
      exact_mod_cast congrArg (fun i : ℤ => ((i : ℝ) : EReal)) (Word.toNat_toUInt64 positive)
    have value := denotes_toFloat n.toUInt64
    rwa [same] at value

theorem nearest_pos_of_one_le {x : ℝ} (h : 1 ≤ x) : 0 < nearest x :=
  zero_lt_one.trans_le (le_nearest fits_one h)

end MarketMaker.Double
