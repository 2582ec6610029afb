/-!
# Words

Whole numbers as words of sixty-four bits, unsigned or signed. A number out of range is no word.
-/

namespace MarketMaker.Word

/-- The unsigned word with some value. -/
def ofNat? (n : Nat) : Option UInt64 :=
  if n < UInt64.size then some n.toUInt64 else none

/-- The signed word with some value. -/
def ofInt? (n : Int) : Option Int64 :=
  if Int64.minValue.toInt ≤ n ∧ n ≤ Int64.maxValue.toInt then some (Int64.ofInt n) else none

/-! ## Arithmetic that stays in range -/

theorem toInt_add_of_range {a b : Int64} (low : Int64.minValue.toInt ≤ a.toInt + b.toInt)
    (high : a.toInt + b.toInt ≤ Int64.maxValue.toInt) : (a + b).toInt = a.toInt + b.toInt := by
  have most := Int64.toInt_maxValue
  rw [Int64.toInt_add]
  apply Int.bmod_eq_of_le
  · exact low
  · omega

theorem toInt_sub_of_range {a b : Int64} (low : Int64.minValue.toInt ≤ a.toInt - b.toInt)
    (high : a.toInt - b.toInt ≤ Int64.maxValue.toInt) : (a - b).toInt = a.toInt - b.toInt := by
  have most := Int64.toInt_maxValue
  rw [Int64.toInt_sub]
  apply Int.bmod_eq_of_le
  · exact low
  · omega

theorem minValue_lt_of_pos {a : Int64} (h : 0 < a) : Int64.minValue < a :=
  Int64.lt_of_le_of_lt (Int64.minValue_le 0) h

theorem toInt_neg_of_lt {a : Int64} (h : Int64.minValue < a) : (-a).toInt = -a.toInt := by
  have low := Int64.lt_iff_toInt_lt.1 h
  have high := a.toInt_le
  have least := Int64.toInt_minValue
  have most := Int64.toInt_maxValue
  rw [Int64.toInt_neg]
  apply Int.bmod_eq_of_le
  · omega
  · omega

theorem toNat_add_of_range {a b : UInt64} (h : a.toNat + b.toNat < UInt64.size) :
    (a + b).toNat = a.toNat + b.toNat := by
  rw [UInt64.toNat_add]
  exact Nat.mod_eq_of_lt h

/-- An unsigned word up to the largest signed one is the same number as a signed word. -/
theorem toInt_toInt64 {n : UInt64} (h : n.toNat ≤ Int64.maxValue.toInt) :
    n.toInt64.toInt = n.toNat := by
  have most := Int64.toInt_maxValue
  rw [← Int64.toInt_toBitVec]
  change n.toBitVec.toInt = _
  rw [BitVec.toInt_eq_toNat_cond, UInt64.toNat_toBitVec, if_pos (by omega)]

/-- A larger one comes out too small by all the words there are. -/
theorem toInt_toInt64_of_lt {n : UInt64} (h : Int64.maxValue.toInt < n.toNat) :
    n.toInt64.toInt = n.toNat - UInt64.size := by
  have most := Int64.toInt_maxValue
  rw [← Int64.toInt_toBitVec]
  change n.toBitVec.toInt = _
  rw [BitVec.toInt_eq_toNat_cond, UInt64.toNat_toBitVec, if_neg (by omega)]

/-! ## Magnitudes -/

/-- A word that is not negative is the same number as an unsigned one. -/
theorem toNat_toUInt64 {a : Int64} (h : ¬a < 0) : (a.toUInt64.toNat : Int) = a.toInt := by
  have sign : ¬a.toInt < 0 := fun negative => h (Int64.lt_iff_toInt_lt.2 negative)
  have bound := a.toBitVec.isLt
  rw [← Int64.toInt_toBitVec, BitVec.toInt_eq_toNat_cond] at sign ⊢
  change (a.toBitVec.toNat : Int) = _
  split
  next => rfl
  next large =>
    rw [if_neg large] at sign
    omega

/-- The magnitude of a negative word is its negation as an unsigned one, also of the least word. -/
theorem toNat_toUInt64_neg {a : Int64} (h : a < 0) : ((-a).toUInt64.toNat : Int) = -a.toInt := by
  have sign : a.toInt < 0 := Int64.lt_iff_toInt_lt.1 h
  have bound := a.toBitVec.isLt
  rw [← Int64.toInt_toBitVec, BitVec.toInt_eq_toNat_cond] at sign ⊢
  change ((-a).toBitVec.toNat : Int) = _
  rw [Int64.toBitVec_neg, BitVec.toNat_neg]
  split
  next small =>
    rw [if_pos small] at sign
    omega
  next => omega

end MarketMaker.Word
