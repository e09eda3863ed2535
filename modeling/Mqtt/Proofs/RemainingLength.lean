import Mqtt.RemainingLength
import Mqtt.Proofs.Octets

/-!
A remaining length is read off exactly the numerals of at most four groups, and written as the
shortest of them.
-/
namespace Mqtt
namespace RemainingLength

/-- The numerals of a number, low group first. High groups of zero pad a numeral without changing
its number. -/
inductive Numeral : Octets → Nat → Prop where
  | last {b : UInt8} (final : b.toNat < 128) : Numeral [b] b.toNat
  | more {b : UInt8} {bytes : Octets} {n : Nat} (goesOn : 128 ≤ b.toNat) (rest : Numeral bytes n) :
      Numeral (b :: bytes) (b.toNat % 128 + 128 * n)

structure Minimal (bytes : Octets) (n : Nat) : Prop where
  numeral : Numeral bytes n
  length_le : ∀ other, Numeral other n → bytes.length ≤ other.length

variable {bytes other : Octets} {n : Nat}

theorem Numeral.ne_nil (h : Numeral bytes n) : bytes ≠ [] := by
  cases h <;> simp

/-- All groups but the last go on. -/
theorem Numeral.forall_take {k : Nat} (h : Numeral bytes n) (hk : k < bytes.length) :
    ∀ b ∈ bytes.take k, 128 ≤ b.toNat := by
  induction h generalizing k with
  | last _ =>
    obtain rfl : k = 0 := Nat.lt_one_iff.mp hk
    simp
  | more goesOn _ ih =>
    cases k with
    | zero => simp
    | succ k =>
      rw [List.take_succ_cons, List.forall_mem_cons]
      exact ⟨goesOn, ih (Nat.lt_of_succ_lt_succ hk)⟩

theorem Numeral.lt_pow (h : Numeral bytes n) : n < 128 ^ bytes.length := by
  induction h with
  | last final => simpa using final
  | @more b bytes n _ _ ih =>
    have hgroup : b.toNat % 128 < 128 := Nat.mod_lt _ (by decide)
    rw [List.length_cons, Nat.pow_succ]
    omega

/-- A byte is known by whether it is the last and by its group. -/
theorem eq_of_group {b c : UInt8} (hlast : b.toNat < 128 ↔ c.toNat < 128)
    (hgroup : b.toNat % 128 = c.toNat % 128) : b = c := by
  have hb := b.toNat_lt
  have hc := c.toNat_lt
  apply UInt8.toNat_inj.mp
  omega

/-- Numerals of a number differ in their length only. -/
theorem Numeral.eq_of_length_eq (h : Numeral bytes n) (h' : Numeral other n)
    (hl : bytes.length = other.length) : bytes = other := by
  induction h generalizing other with
  | @last b final =>
    generalize hn : b.toNat = n at h'
    cases h' with
    | last _ => rw [UInt8.toNat_inj.mp hn]
    | more _ rest => simp [rest.ne_nil] at hl
  | @more b bytes n goesOn rest ih =>
    generalize hm : b.toNat % 128 + 128 * n = m at h'
    cases h' with
    | last _ => simp [rest.ne_nil] at hl
    | @more c bytes' n' goesOn' rest' =>
      have hn : n = n' := by omega
      have hb : b = c := eq_of_group (by omega) (by omega)
      rw [hb, ih (hn ▸ rest') (by simpa using hl)]

theorem split_last {b : UInt8} {rest : Octets} (hb : b.toNat < 128)
    (hsplit : b :: other = bytes ++ rest) (h : Numeral bytes n) :
    bytes = [b] ∧ rest = other ∧ n = b.toNat := by
  cases h with
  | last _ =>
    obtain ⟨rfl, rfl⟩ := List.cons.inj hsplit
    exact ⟨rfl, rfl, rfl⟩
  | more goesOn _ =>
    obtain ⟨rfl, _⟩ := List.cons.inj hsplit
    omega

theorem split_more {b : UInt8} {rest : Octets} (hb : ¬ b.toNat < 128)
    (hsplit : b :: other = bytes ++ rest) (h : Numeral bytes n) :
    ∃ tail m, bytes = b :: tail ∧ other = tail ++ rest ∧ Numeral tail m ∧
      n = b.toNat % 128 + 128 * m := by
  cases h with
  | last final =>
    obtain ⟨rfl, _⟩ := List.cons.inj hsplit
    omega
  | more _ hrest =>
    obtain ⟨rfl, htail⟩ := List.cons.inj hsplit
    exact ⟨_, _, rfl, htail, hrest, rfl⟩

/-! What is written. -/

theorem numeral_groups {fuel : Nat} (hfuel : 0 < fuel) (hn : n < 128 ^ fuel) :
    Numeral (groups fuel n) n := by
  induction fuel generalizing n with
  | zero => cases hfuel
  | succ fuel ih =>
    unfold groups
    split
    next h =>
      have hb := Octets.toNat_ofNat_of_lt (n := n) (by omega)
      simpa [hb] using Numeral.last (b := UInt8.ofNat n) (by omega)
    next h =>
      rw [Nat.pow_succ] at hn
      have hb := Octets.toNat_ofNat_of_lt (n := 128 + n % 128) (by omega)
      have hpos : 0 < fuel := Nat.pos_of_ne_zero (by rintro rfl; omega)
      have hrest : Numeral (groups fuel (n / 128)) (n / 128) := ih hpos (by omega)
      have hmore := Numeral.more (b := UInt8.ofNat (128 + n % 128)) (by omega) hrest
      have hvalue : (UInt8.ofNat (128 + n % 128)).toNat % 128 + 128 * (n / 128) = n := by omega
      rwa [hvalue] at hmore

theorem length_groups_le {fuel k : Nat} (hk : 0 < k) (hn : n < 128 ^ k) :
    (groups fuel n).length ≤ k := by
  induction fuel generalizing n k with
  | zero => exact Nat.zero_le k
  | succ fuel ih =>
    unfold groups
    split
    next => exact hk
    next h =>
      cases k with
      | zero => omega
      | succ k =>
        rw [Nat.pow_succ] at hn
        have hpos : 0 < k := Nat.pos_of_ne_zero (by rintro rfl; omega)
        have hrest : (groups fuel (n / 128)).length ≤ k := ih hpos (by omega)
        exact Nat.succ_le_succ hrest

theorem encode_ofNat (h : n ≤ max) : encode (UInt32.ofNat n) = groups 5 n := by
  have hword : (UInt32.ofNat n).toNat = n := by
    unfold max at h
    rw [UInt32.toNat_ofNat']
    omega
  rw [encode, hword]

theorem minimal_encode (h : n ≤ max) : Minimal (encode (UInt32.ofNat n)) n := by
  rw [encode_ofNat h]
  refine ⟨numeral_groups (by decide) ?_, fun other ho => ?_⟩
  · unfold max at h
    omega
  · exact length_groups_le (List.length_pos_iff.mpr ho.ne_nil) ho.lt_pow

theorem length_encode_le (h : n ≤ max) : (encode (UInt32.ofNat n)).length ≤ 4 := by
  rw [encode_ofNat h]
  refine length_groups_le (by decide) ?_
  unfold max at h
  omega

theorem Minimal.eq (h : Minimal bytes n) (h' : Minimal other n) : bytes = other :=
  h.numeral.eq_of_length_eq h'.numeral
    (Nat.le_antisymm (h.length_le other h'.numeral) (h'.length_le bytes h.numeral))

/-- Every byte asks for another one. -/
def unfinished : PacketError :=
  .needMore 1 "vbi: not enough bytes for remaining length"

end RemainingLength

/-! What is read. -/

namespace LengthReader

open RemainingLength

/-- The reader behind `k` groups that make up `value`. -/
def behind (k value : Nat) : LengthReader :=
  { value, weight := if k = 0 then 0 else 128 ^ k, taken := k }

theorem add_group_lt {k value : Nat} (hv : value < 128 ^ k) (b : UInt8) :
    value + b.toNat % 128 * 128 ^ k < 128 ^ (k + 1) := by
  have hgroup : b.toNat % 128 * 128 ^ k ≤ 127 * 128 ^ k := Nat.mul_le_mul_right _ (by omega)
  rw [Nat.pow_succ]
  omega

/-- Four groups stay far below the word that the reader counts in. -/
theorem push_behind {k value : Nat} (hk : k ≤ 3) (hv : value < 128 ^ k) (b : UInt8) :
    (behind k value).push b =
      if k = 3 ∧ 128 ≤ b.toNat then .error (.malformed .lengthOverrun)
      else .ok (behind (k + 1) (value + b.toNat % 128 * 128 ^ k),
        if b.toNat < 128 then some (value + b.toNat % 128 * 128 ^ k) else none) := by
  have hword : 128 ^ 4 < word := by decide
  have hweight : (if (behind k value).weight = 0 then 1 else (behind k value).weight) = 128 ^ k := by
    unfold behind
    by_cases hz : k = 0
    · simp [hz]
    · simp [hz]
  have hnext : 128 ^ (k + 1) < word :=
    Nat.lt_of_le_of_lt (Nat.pow_le_pow_right (by decide) (by omega)) hword
  have hsum := Nat.lt_trans (add_group_lt hv b) hnext
  rw [Nat.pow_succ] at hnext
  unfold push
  rw [hweight]
  simp only [behind, Nat.mod_eq_of_lt hsum, Nat.mod_eq_of_lt hnext, Nat.pow_succ,
    Nat.add_eq_zero_iff, Nat.one_ne_zero, and_false, if_false]

/-- What is left to read is a numeral that fits with the groups taken. -/
theorem read_behind_iff {k value m size : Nat} (hk : k ≤ 3) (hv : value < 128 ^ k)
    (bytes : Octets) :
    (behind k value).read bytes = .ok (m, size) ↔
      ∃ len rest n, bytes = len ++ rest ∧ Numeral len n ∧ m = value + n * 128 ^ k ∧
        size = k + len.length ∧ size ≤ 4 := by
  induction bytes generalizing k value with
  | nil =>
    constructor
    · intro h
      cases h
    · rintro ⟨len, rest, n, hsplit, hn, _⟩
      exact absurd (List.append_eq_nil_iff.mp hsplit.symm).1 hn.ne_nil
  | cons b bytes ih =>
    unfold read
    rw [push_behind hk hv]
    by_cases hfinal : b.toNat < 128
    · rw [if_neg (by omega)]
      simp only [hfinal, if_true, Except.ok.injEq, Prod.mk.injEq]
      have hb : b.toNat % 128 = b.toNat := Nat.mod_eq_of_lt hfinal
      constructor
      · rintro ⟨rfl, rfl⟩
        exact ⟨[b], bytes, b.toNat, rfl, .last hfinal, by rw [hb], rfl, Nat.succ_le_succ hk⟩
      · rintro ⟨len, rest, n, hsplit, hn, rfl, rfl, _⟩
        obtain ⟨rfl, _, rfl⟩ := split_last hfinal hsplit hn
        exact ⟨by rw [hb], rfl⟩
    · by_cases hk3 : k = 3
      · rw [if_pos ⟨hk3, by omega⟩]
        constructor
        · intro h
          cases h
        · rintro ⟨len, rest, n, hsplit, hn, _, rfl, hsize⟩
          obtain ⟨tail, _, rfl, _, htail, _⟩ := split_more hfinal hsplit hn
          have hpos := List.length_pos_iff.mpr htail.ne_nil
          rw [List.length_cons] at hsize
          omega
      · rw [if_neg (by omega)]
        simp only [hfinal, if_false]
        have hvalue : ∀ n, value + b.toNat % 128 * 128 ^ k + n * 128 ^ (k + 1) =
            value + (b.toNat % 128 + 128 * n) * 128 ^ k := by
          intro n
          rw [Nat.pow_succ, Nat.add_mul, Nat.mul_comm 128 n, Nat.mul_assoc n, Nat.mul_comm 128]
          omega
        rw [ih (by omega) (add_group_lt hv b)]
        constructor
        · rintro ⟨len, rest, n, rfl, hn, rfl, rfl, hsize⟩
          refine ⟨b :: len, rest, _, rfl, .more (by omega) hn, hvalue n, ?_, hsize⟩
          rw [List.length_cons]
          omega
        · rintro ⟨len, rest, n, hsplit, hn, rfl, rfl, hsize⟩
          obtain ⟨tail, n, rfl, rfl, htail, rfl⟩ := split_more hfinal hsplit hn
          refine ⟨tail, rest, n, rfl, htail, (hvalue n).symm, ?_, hsize⟩
          rw [List.length_cons]
          omega

/-- Bytes are refused if none of the four ends the number; how many there are decides the reason. -/
theorem read_behind_eq_error_iff {k value : Nat} {e : PacketError} (hk : k ≤ 3)
    (hv : value < 128 ^ k) (bytes : Octets) :
    (behind k value).read bytes = .error e ↔
      (∀ b ∈ bytes.take (4 - k), 128 ≤ b.toNat) ∧
        e = if k + bytes.length < 4 then unfinished else .malformed .lengthOverrun := by
  induction bytes generalizing k value with
  | nil =>
    have hshort : k + ([] : Octets).length < 4 := Nat.lt_succ_of_le hk
    rw [if_pos hshort]
    simp [read, unfinished, eq_comm]
  | cons b bytes ih =>
    have htake : (b :: bytes).take (4 - k) = b :: bytes.take (4 - (k + 1)) := by
      rw [show 4 - k = 4 - (k + 1) + 1 by omega, List.take_succ_cons]
    unfold read
    rw [push_behind hk hv, htake, List.forall_mem_cons]
    by_cases hfinal : b.toNat < 128
    · rw [if_neg (by omega)]
      simp [hfinal, Nat.not_le.mpr hfinal]
    · have hmore : 128 ≤ b.toNat := Nat.not_lt.mp hfinal
      by_cases hk3 : k = 3
      · subst hk3
        have hlong : ¬ 3 + (b :: bytes).length < 4 := by
          rw [List.length_cons]
          omega
        rw [if_neg hlong]
        simp [hmore, eq_comm]
      · rw [if_neg (by omega)]
        simp only [hfinal, if_false]
        rw [ih (by omega) (add_group_lt hv b), List.length_cons, Nat.add_right_comm k 1, Nat.add_assoc]
        simp [hmore]

end LengthReader

namespace RemainingLength

variable {bytes : Octets} {n : Nat} {e : PacketError}

/-- A remaining length is read off a numeral of at most four groups, whatever follows it. -/
theorem decode_eq_ok_iff {size : Nat} :
    decode bytes = .ok (n, size) ↔
      ∃ len rest, bytes = len ++ rest ∧ Numeral len n ∧ size = len.length ∧ len.length ≤ 4 := by
  have hread : decode bytes = .ok (n, size) ↔
      (LengthReader.behind 0 0).read bytes = .ok (n, size) := by
    cases bytes with
    | nil => simp [decode, LengthReader.read]
    | cons b bytes => rfl
  rw [hread, LengthReader.read_behind_iff (by decide) (by decide)]
  constructor
  · rintro ⟨len, rest, m, hsplit, hm, hn, hsize, hle⟩
    obtain rfl : n = m := by omega
    exact ⟨len, rest, hsplit, hm, by omega, by omega⟩
  · rintro ⟨len, rest, hsplit, hn, hsize, hle⟩
    exact ⟨len, rest, n, hsplit, hn, by omega, by omega, by omega⟩

theorem decode_of_ne_nil (h : bytes ≠ []) : decode bytes = LengthReader.read {} bytes := by
  cases bytes with
  | nil => exact absurd rfl h
  | cons b bytes => rfl

theorem decode_eq_error_iff :
    decode bytes = .error e ↔
      (∀ b ∈ bytes.take 4, 128 ≤ b.toNat) ∧
        e = if bytes = [] then .bufferTooShort
          else if bytes.length < 4 then unfinished else .malformed .lengthOverrun := by
  by_cases h : bytes = []
  · simp [h, decode, eq_comm]
  · have hread : (LengthReader.behind 0 0).read bytes = .error e ↔ _ :=
      LengthReader.read_behind_eq_error_iff (by decide) (by decide) bytes
    rw [decode_of_ne_nil h, if_neg h]
    rwa [Nat.zero_add] at hread

theorem decode_eq_unfinished_iff :
    decode bytes = .error unfinished ↔
      bytes ≠ [] ∧ bytes.length < 4 ∧ ∀ b ∈ bytes, 128 ≤ b.toNat := by
  rw [decode_eq_error_iff]
  by_cases h : bytes = []
  · simp [h, unfinished]
  · by_cases hlen : bytes.length < 4
    · simp [h, hlen, List.take_of_length_le (Nat.le_of_lt hlen)]
    · simp [h, hlen, unfinished]

theorem decode_eq_overrun_iff :
    decode bytes = .error (.malformed .lengthOverrun) ↔
      4 ≤ bytes.length ∧ ∀ b ∈ bytes.take 4, 128 ≤ b.toNat := by
  rw [decode_eq_error_iff]
  by_cases h : bytes = []
  · simp [h]
  · by_cases hlen : bytes.length < 4
    · simp [h, hlen, Nat.not_le.mpr hlen, unfinished]
    · simp [h, hlen, Nat.not_lt.mp hlen]

end RemainingLength
end Mqtt
