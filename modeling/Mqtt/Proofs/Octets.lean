import Mqtt.Octets
import Mathlib.Algebra.Group.Nat.Defs

/-! Bytes and two-byte numbers as natural numbers. -/
namespace Mqtt

theorem testBit_eq_iff {n i : Nat} {value : Bool} :
    n.testBit i = value ↔ n / 2 ^ i % 2 = value.toNat := by
  rw [Nat.testBit_eq_decide_div_mod_eq]
  have hbit : n / 2 ^ i % 2 < 2 := Nat.mod_lt _ (by decide)
  cases value with
  | false => simp
  | true => simp

namespace Octets

theorem toNat_ofNat_of_lt {n : Nat} (h : n < 256) : (UInt8.ofNat n).toNat = n := by
  rw [UInt8.toNat_ofNat']
  exact Nat.mod_eq_of_lt h

theorem ofNat_eq {b : UInt8} {n : Nat} (h : b.toNat = n) : UInt8.ofNat n = b := by
  rw [← h, UInt8.ofNat_toNat]

theorem ofNat_eq_iff {b : UInt8} {n : Nat} (h : n < 256) : UInt8.ofNat n = b ↔ b.toNat = n := by
  constructor
  · rintro rfl
    exact toNat_ofNat_of_lt h
  · exact ofNat_eq

theorem toNat_toUInt16 (high low : UInt8) :
    (toUInt16 high low).toNat = high.toNat * 256 + low.toNat := by
  have hhigh := high.toNat_lt
  have hlow := low.toNat_lt
  unfold toUInt16
  rw [UInt16.toNat_ofNat']
  omega

theorem toUInt16_eq_iff {high low : UInt8} {n : UInt16} :
    toUInt16 high low = n ↔ ofUInt16 n = [high, low] := by
  have hn := n.toNat_lt
  have hlow := low.toNat_lt
  rw [← UInt16.toNat_inj, toNat_toUInt16]
  unfold ofUInt16
  simp only [List.cons.injEq, and_true]
  rw [ofNat_eq_iff (by omega), ofNat_eq_iff (by omega)]
  omega

end Octets
end Mqtt
