import MarketMaker.Proofs.Double.Comparison
import MarketMaker.Proofs.Json.Record

/-!
# Documents that can be read in full

A word is read as a double whatever it is (`Json.isSome_float?_ofNat`): its digits are all taken, and it is
far below the largest double. So what is written of words, of doubles that read back and of strings can be
read wherever a whole document must be.
-/

namespace MarketMaker.Json

open Double (Denotes)

/-! ## Words as doubles -/

/-- All digits are taken while what they stand for fits a word. -/
theorem takeWhole_eq {ds : List Char} {taken : ℕ} {shift : ℤ}
    (fits : Nat.ofDigitChars 10 ds taken < UInt64.size) :
    Accumulator.takeWhole ⟨taken, shift⟩ ds = ⟨Nat.ofDigitChars 10 ds taken, shift⟩ := by
  induction ds generalizing taken with
  | nil => rfl
  | cons d ds ih =>
    have next : taken * 10 + Numeral.natural [d] = 10 * taken + (d.toNat - '0'.toNat) := by
      rw [Numeral.natural, Nat.ofDigitChars_cons, Nat.ofDigitChars_nil]
      omega
    rw [Nat.ofDigitChars_cons] at fits ⊢
    have room : Accumulator.hasRoom taken d = true := by
      rw [Nat.ofDigitChars_eq_ofDigitChars_zero] at fits
      have grows := Nat.le_mul_of_pos_left (10 * taken + (d.toNat - '0'.toNat))
        (Nat.pow_pos (n := ds.length) (show 0 < 10 by decide))
      rw [Accumulator.hasRoom, next, decide_eq_true_eq]
      omega
    rw [Accumulator.takeWhole, if_pos room, next, ih fits]

theorem ofNumeral_ofNat (n : UInt64) : Accumulator.ofNumeral (.ofNat n.toNat) = ⟨n.toNat, 0⟩ := by
  have digits : Nat.ofDigitChars 10 (Numeral.digitsOf n.toNat) 0 = n.toNat := Numeral.natural_digitsOf _
  have fits : Nat.ofDigitChars 10 (Numeral.digitsOf n.toNat) 0 < UInt64.size := by
    rw [digits]
    exact n.toNat_lt
  have taken : Accumulator.takeWhole ⟨0, 0⟩ (Numeral.digitsOf n.toNat) = ⟨n.toNat, 0⟩ := by
    rw [takeWhole_eq fits, digits]
  change (Accumulator.takeWhole ⟨0, 0⟩ (Numeral.digitsOf n.toNat)).takeFraction [] = _
  rw [taken]
  rfl

/-- A word has a value as a double, since all words are far below the largest one. -/
theorem isFinite_toFloat_mul_one (n : UInt64) : (n.toFloat * 1.0).isFinite = true := by
  have most : Double.Fits ((2 : ℝ) ^ (64 : ℤ)) := Double.fits_two_zpow (by norm_num)
  have below : (n.toNat : ℝ) ≤ 2 ^ (64 : ℤ) := by exact_mod_cast n.toNat_lt.le
  obtain ⟨r, rounded, -⟩ := Double.round_between Double.fits_zero most le_rfl
    (Nat.cast_nonneg n.toNat) below (Double.two_zpow_lt_overflow (by norm_num))
  have word : Denotes n.toFloat r := rounded ▸ Double.denotes_toFloat n
  have product := word.mul Double.denotes_one Double.not_noProduct_of_real
  rw [EReal.coe_one, mul_one, word.round_eq] at product
  exact Double.isFinite_iff.2 ⟨r, product⟩

theorem isSome_float?_ofNat (n : UInt64) : (float? (.ofNat n.toNat)).isSome = true := by
  have unit : power 0 = 1.0 := by decide +kernel
  have bounded := Double.isInf_of_isFinite (isFinite_toFloat_mul_one n)
  have scaled : scale? n.toFloat 0 = some (n.toFloat * 1.0) := by
    rw [scale?, if_neg (by decide), if_pos (by decide)]
    change (if (n.toFloat * power 0).isInf = true then none else some (n.toFloat * power 0)) = _
    rw [unit, bounded]
    rfl
  have magnitude : magnitude? (.ofNat n.toNat) = some (n.toFloat * 1.0) := by
    rw [magnitude?, ofNumeral_ofNat]
    change scale? n.toNat.toUInt64.toFloat 0 = _
    rw [← scaled, Nat.toUInt64, UInt64.ofNat_toNat]
  rw [float?, magnitude]
  rfl

/-! ## Readable documents -/

theorem isReadable_ofWord (room : ℕ) (n : UInt64) : (ofWord n).isReadable room = true := by
  cases room <;> exact isSome_float?_ofNat n

theorem isReadable_text (room : ℕ) (s : String) : (text s).isReadable room = true := by
  cases room <;> rfl

theorem isReadable_of_asFloat? (room : ℕ) {j : Json} {x : Float} (h : j.asFloat? = some x) :
    j.isReadable room = true := by
  cases j with
  | number n =>
    have value : (float? n).isSome = true := Option.isSome_iff_exists.2 ⟨x, h⟩
    cases room <;> exact value
  | _ => exact absurd h (by simp [asFloat?])

theorem isReadable_record {room : ℕ} {members : List (String × Json)}
    (all : ∀ m ∈ members, m.2.isReadable room = true) :
    (record members).isReadable (room + 1) = true := by
  rw [record, isReadable, List.all_map, List.all_eq_true]
  exact fun m member => all m member

end MarketMaker.Json
