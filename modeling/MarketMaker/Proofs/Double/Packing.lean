import MarketMaker.Proofs.Double.Shifting
import Mathlib

/-!
# Packing

A double is packed into a sign, an exponent and digits. It unpacks in one way only
(`representable_unpack`), which comes back when it is packed (`unpack_pack`). A number too large to
pack becomes infinite.
-/

namespace MarketMaker.Double

open Float.Model (Format UnpackedFloat)
open Float.Model.UnpackedFloat (Sign packComponents unpackExponent unpackMantissa unpackSign)

/-- The shapes into which doubles unpack. -/
def Representable : UnpackedFloat → Prop
  | .finite _ m e _ => Canonical m e ∧ e ≤ 971
  | _ => True

/-- What three parts make. The leading digit is left out, except where the exponent is the least. -/
def ofParts (s : Sign) (e : BitVec 11) (m : BitVec 52) : UnpackedFloat :=
  if e = -1#11 then if m = 0#52 then .infinity s else .notANumber
  else if e = 0#11 then ofQuanta s m.toNat (-1074)
  else ofQuanta s (2 ^ 52 + m.toNat) (e.toNat - 1075)

theorem ofQuanta_of_pos (s : Sign) {m : ℕ} (e : ℤ) (h : 0 < m) :
    ofQuanta s m e = .finite s m e h :=
  dif_neg h.ne'

theorem representable_ofQuanta (s : Sign) {m : ℕ} {e : ℤ} (h : Canonical m e) (he : e ≤ 971) :
    Representable (ofQuanta s m e) := by
  unfold ofQuanta
  split
  · trivial
  · exact ⟨h, he⟩

/-! ## Unpacking -/

theorem toNat_leadingOne (m : BitVec 52) : (1#1 ++ m).toNat = 2 ^ 52 + m.toNat := by
  rw [BitVec.toNat_append, ← Nat.shiftLeft_add_eq_or_of_lt m.isLt, Nat.shiftLeft_eq]
  rfl

theorem unpack_eq (b : BitVec 64) : UnpackedFloat.unpack .binary64 b =
    ofParts (.ofBitVec (@unpackSign .binary64 b)) (@unpackExponent .binary64 b)
      (@unpackMantissa .binary64 b) := by
  unfold UnpackedFloat.unpack ofParts
  simp only
  split_ifs with infinite digits least zero
  · rfl
  · rfl
  · rw [zero]
    rfl
  · have positive : 0 < (@unpackMantissa .binary64 b).toNat := by
      rw [BitVec.toNat_pos, BitVec.pos_iff_ne_zero]
      exact zero
    rw [ofQuanta_of_pos _ _ positive, least]
    rfl
  · rw [ofQuanta_of_pos _ _ (Nat.add_pos_left (by norm_num) _)]
    congr 1
    exact toNat_leadingOne _

theorem representable_ofParts (s : Sign) (e : BitVec 11) (m : BitVec 52) :
    Representable (ofParts s e m) := by
  have digits := m.isLt
  unfold ofParts
  split_ifs with infinite _ least
  · trivial
  · trivial
  · exact representable_ofQuanta s ⟨by omega, le_rfl, .inr rfl⟩ (by norm_num)
  · have most := e.isLt
    have above : e.toNat ≠ 0 := fun h => least (BitVec.eq_of_toNat_eq h)
    have below : e.toNat ≠ 2047 := fun h => infinite (BitVec.eq_of_toNat_eq h)
    exact representable_ofQuanta s ⟨by omega, by omega, .inl (by omega)⟩ (by omega)

theorem representable_unpack (x : Float.Model) : Representable x.unpack := by
  rw [Float.Model.unpack, unpack_eq]
  exact representable_ofParts _ _ _

/-! ## Packing -/

theorem unpack_packComponents (s : Sign) (e : BitVec 11) (m : BitVec 52) :
    UnpackedFloat.unpack .binary64 (packComponents .binary64 s e m) = ofParts s e m := by
  rw [unpack_eq, UnpackedFloat.unpackSign_packComponents, UnpackedFloat.unpackExponent_packComponents,
    UnpackedFloat.unpackMantissa_packComponents, Sign.ofBitVec_toBitVec]

theorem pack_finite (s : Sign) {m : ℕ} {e : ℤ} (positive : 0 < m) (h : Canonical m e) :
    UnpackedFloat.pack .binary64 (.finite s m e positive) =
      if 971 < e then packComponents .binary64 s (-1#11) 0#52
      else if 2 ^ 52 ≤ m then
        packComponents .binary64 s (.ofNat 11 (e + 1075).toNat) (.ofNat 52 m)
      else packComponents .binary64 s 0#11 (.ofNat 52 m) := by
  have floor := h.floor
  have bias : e + Format.binary64.exponentBias + (52 : ℕ) = e + 1075 := by
    have bias : Format.binary64.exponentBias = 1023 := rfl
    omega
  have tooLarge : 2 ^ 11 ≤ (e + 1075).toNat + 1 ↔ 971 < e := by omega
  have full : m.log2 + 1 = Format.binary64.mantissaBits ↔ 2 ^ 52 ≤ m := by
    have bits : Format.binary64.mantissaBits = 53 := rfl
    have most := (Nat.log2_lt positive.ne').2 h.digits
    rw [← Nat.le_log2 positive.ne']
    omega
  simp only [UnpackedFloat.pack, bias, tooLarge, full]
  rfl

/-- What is too large becomes infinite. -/
theorem unpack_pack_ofQuanta (s : Sign) {m : ℕ} {e : ℤ} (h : Canonical m e) :
    (Float.Model.pack (ofQuanta s m e)).unpack =
      if e ≤ 971 then ofQuanta s m e else .infinity s := by
  have floor := h.floor
  have digits := h.digits
  rcases m.eq_zero_or_pos with rfl | positive
  · have least : e = -1074 := h.normal.resolve_left (by norm_num)
    rw [least, if_pos (by norm_num)]
    cases s <;> rfl
  · rw [ofQuanta_of_pos s e positive]
    change UnpackedFloat.unpack .binary64 (UnpackedFloat.pack .binary64 _) = _
    rw [pack_finite s positive h]
    by_cases large : 971 < e
    · rw [if_pos large, if_neg (by omega), unpack_packComponents]
      rfl
    have small : e ≤ 971 := by omega
    rw [if_neg large, if_pos small]
    split_ifs with full
    · -- All digits are there, and the first is left out.
      have exponent : (BitVec.ofNat 11 (e + 1075).toNat).toNat = (e + 1075).toNat := by
        rw [BitVec.toNat_ofNat, Nat.mod_eq_of_lt (by omega)]
      have others : 2 ^ 52 + (BitVec.ofNat 52 m).toNat = m := by
        rw [BitVec.toNat_ofNat]
        omega
      have bounded : BitVec.ofNat 11 (e + 1075).toNat ≠ -1#11 := fun h => by
        have top : (e + 1075).toNat = 2047 := exponent.symm.trans (congrArg BitVec.toNat h)
        omega
      have above : BitVec.ofNat 11 (e + 1075).toNat ≠ 0#11 := fun h => by
        have bottom : (e + 1075).toNat = 0 := exponent.symm.trans (congrArg BitVec.toNat h)
        omega
      have shift : (((e + 1075).toNat : ℤ)) - 1075 = e := by omega
      rw [unpack_packComponents, ofParts, if_neg bounded, if_neg above, exponent, others, shift,
        ofQuanta_of_pos s e positive]
    · have least : e = -1074 := h.normal.resolve_left full
      have same : (BitVec.ofNat 52 m).toNat = m := by
        rw [BitVec.toNat_ofNat, Nat.mod_eq_of_lt (by omega)]
      rw [unpack_packComponents, ofParts, if_neg (by decide), if_pos rfl, same, ← least,
        ofQuanta_of_pos s e positive]

theorem unpack_pack {u : UnpackedFloat} (h : Representable u) :
    (Float.Model.pack u).unpack = u := by
  cases u with
  | notANumber => rfl
  | infinity s => cases s <;> rfl
  | zero s => cases s <;> rfl
  | finite s m e positive =>
    have packed := unpack_pack_ofQuanta s h.1
    rwa [if_pos h.2, ofQuanta_of_pos s e positive] at packed

end MarketMaker.Double
