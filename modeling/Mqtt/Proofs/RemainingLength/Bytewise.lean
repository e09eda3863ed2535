import Mqtt.Proofs.RemainingLength
import Mathlib.Data.Nat.Digits.Defs

/-!
Four continuation bits decide what a remaining length is read off and what it is refused for. Whether
bytes are pushed one at a time or read at once makes no difference, and nothing that is computed on
the way leaves 32 bits.
-/
namespace Mqtt

namespace RemainingLength

variable {bytes : Octets} {n : Nat}

def value (bytes : Octets) : Nat :=
  Nat.ofDigits 128 (bytes.map fun b => b.toNat % 128)

theorem Numeral.eq_value (h : Numeral bytes n) : n = value bytes := by
  induction h with
  | last final => simp [value, Nat.mod_eq_of_lt final]
  | more _ _ ih => simp [value, Nat.ofDigits_cons, ih]

theorem Numeral.iff_eq {m : Nat} (h : Numeral bytes n) : Numeral bytes m ↔ m = n := by
  constructor
  · intro hm
    rw [hm.eq_value, h.eq_value]
  · rintro rfl
    exact h

theorem Numeral.lt_length {k : Nat} (h : Numeral bytes n) (hn : 128 ^ k ≤ n) : k < bytes.length := by
  by_contra hle
  have hpow : 128 ^ bytes.length ≤ 128 ^ k := Nat.pow_le_pow_right (by decide) (by omega)
  have hlt := h.lt_pow
  omega

/-- The table of sizes counts the groups. -/
theorem length_encode {v : UInt32} (h : v.toNat ≤ max) : (encode v).length = size v.toNat := by
  have hnumeral : Numeral (encode v) v.toNat := by
    have hminimal := minimal_encode h
    rw [UInt32.ofNat_toNat] at hminimal
    exact hminimal.numeral
  have hpos := List.length_pos_iff.mpr hnumeral.ne_nil
  have hle : ∀ k, 0 < k → v.toNat < 128 ^ k → (encode v).length ≤ k := fun k hk hv =>
    length_groups_le hk hv
  unfold max at h
  unfold size
  split_ifs
  · exact Nat.le_antisymm (hle 1 (by decide) (by omega)) hpos
  · exact Nat.le_antisymm (hle 2 (by decide) (by omega)) (hnumeral.lt_length (k := 1) (by omega))
  · exact Nat.le_antisymm (hle 3 (by decide) (by omega)) (hnumeral.lt_length (k := 2) (by omega))
  · exact Nat.le_antisymm (hle 4 (by decide) (by omega)) (hnumeral.lt_length (k := 3) (by omega))

theorem size_bounds (n : Nat) : 1 ≤ size n ∧ size n ≤ 4 := by
  unfold size
  split_ifs <;> decide

end RemainingLength

namespace LengthReader

open RemainingLength (unfinished)

variable {r r' : LengthReader} {bytes front rest : Octets} {b : UInt8} {k v : Nat}
  {result : Except PacketError (Nat × Nat)}

/-! One byte at a time. -/

/-- Bytes are pushed, and none of them ends the number. -/
inductive Pushes : LengthReader → Octets → LengthReader → Prop where
  | nil {r : LengthReader} : Pushes r [] r
  | cons {r r' r'' : LengthReader} {b : UInt8} {bytes : Octets} (push : r.push b = .ok (r', none))
      (rest : Pushes r' bytes r'') : Pushes r (b :: bytes) r''

/-- What comes of pushing bytes up to the first value or error, with the count of those taken. -/
inductive Comes (r : LengthReader) (bytes : Octets) : Except PacketError (Nat × Nat) → Prop where
  | value {r' r'' : LengthReader} {front rest : Octets} {b : UInt8} {v : Nat}
      (split : bytes = front ++ b :: rest) (pushes : r.Pushes front r')
      (push : r'.push b = .ok (r'', some v)) : r.Comes bytes (.ok (v, r''.taken))
  | error {r' : LengthReader} {front rest : Octets} {b : UInt8} {e : PacketError}
      (split : bytes = front ++ b :: rest) (pushes : r.Pushes front r')
      (push : r'.push b = .error e) : r.Comes bytes (.error e)
  | neither {r' : LengthReader} (pushes : r.Pushes bytes r') : r.Comes bytes (.error unfinished)

theorem Pushes.read_append (h : r.Pushes front r') (rest : Octets) :
    r.read (front ++ rest) = r'.read rest := by
  induction h with
  | nil => rfl
  | cons push _ ih => rw [List.cons_append, read, push, ← ih]

theorem Comes.cons (push : r.push b = .ok (r', none)) (h : r'.Comes bytes result) :
    r.Comes (b :: bytes) result := by
  cases h with
  | value split pushes last =>
    exact .value (by rw [split, List.cons_append]) (.cons push pushes) last
  | error split pushes refused =>
    exact .error (by rw [split, List.cons_append]) (.cons push pushes) refused
  | neither pushes => exact .neither (.cons push pushes)

theorem comes_read (r : LengthReader) (bytes : Octets) : r.Comes bytes (r.read bytes) := by
  induction bytes generalizing r with
  | nil => exact .neither .nil
  | cons b bytes ih =>
    unfold read
    cases hpush : r.push b with
    | error e => exact .error (List.nil_append _).symm .nil hpush
    | ok result =>
      obtain ⟨r', v | v⟩ := result
      · exact (ih r').cons hpush
      · exact .value (List.nil_append _).symm .nil hpush

/-- Reading is pushing. -/
theorem comes_iff : r.Comes bytes result ↔ r.read bytes = result := by
  constructor
  · intro h
    cases h with
    | value split pushes push => rw [split, pushes.read_append, read, push]
    | error split pushes push => rw [split, pushes.read_append, read, push]
    | neither pushes =>
      rw [← List.append_nil bytes, pushes.read_append]
      rfl
  · rintro rfl
    exact comes_read r bytes

def factor (r : LengthReader) : Nat :=
  if r.weight = 0 then 1 else r.weight

/-- Whatever pushing a byte computes has room in 32 bits. -/
structure Roomy (r : LengthReader) (b : UInt8) : Prop where
  group : b.toNat % 128 * r.factor < UInt32.size
  value : r.value + b.toNat % 128 * r.factor < UInt32.size
  weight : r.factor * 128 < UInt32.size
  taken : r.taken + 1 < UInt32.size

theorem Pushes.exists_behind (hk : k ≤ 3) (hv : v < 128 ^ k)
    (h : (behind k v).Pushes bytes r) :
    ∃ k' v', k' ≤ 3 ∧ v' < 128 ^ k' ∧ r = behind k' v' := by
  induction bytes generalizing k v with
  | nil =>
    cases h
    exact ⟨k, v, hk, hv, rfl⟩
  | cons b bytes ih =>
    cases h with
    | cons push rest =>
      rw [push_behind hk hv] at push
      split_ifs at push with hfull hlast
      · simp at push
      · simp only [Except.ok.injEq, Prod.mk.injEq, and_true] at push
        exact ih (by omega) (add_group_lt hv b) (push ▸ rest)

theorem factor_behind (k v : Nat) : (behind k v).factor = 128 ^ k := by
  unfold factor behind
  by_cases hk : k = 0 <;> simp [hk]

/-- No bytes take a fresh reader out of its 32 bits. -/
theorem Pushes.roomy (h : Pushes {} bytes r) (b : UInt8) : r.Roomy b := by
  obtain ⟨k, v, hk, hv, rfl⟩ := h.exists_behind (k := 0) (v := 0) (by decide) (by decide)
  have hsum := add_group_lt hv b
  have hpow : 128 ^ (k + 1) ≤ 128 ^ 4 := Nat.pow_le_pow_right (by decide) (by omega)
  have hsmall : 128 ^ 4 < UInt32.size := by decide
  have htaken : k + 1 < UInt32.size := Nat.lt_of_le_of_lt (Nat.succ_le_succ hk) (by decide)
  refine ⟨?_, ?_, ?_, htaken⟩
  · rw [factor_behind]
    omega
  · rw [factor_behind]
    exact Nat.lt_of_lt_of_le hsum (Nat.le_trans hpow hsmall.le)
  · rw [factor_behind, ← Nat.pow_succ]
    omega

end LengthReader

namespace RemainingLength

variable {bytes : Octets} {n v : Nat}

theorem decode_eq_ok_take (h : decode bytes = .ok (v, n)) :
    n ≤ 4 ∧ n ≤ bytes.length ∧ v ≤ max ∧ Numeral (bytes.take n) v := by
  obtain ⟨len, rest, rfl, hnumeral, rfl, hle⟩ := decode_eq_ok_iff.mp h
  have hv := hnumeral.lt_pow
  have hpow : 128 ^ len.length ≤ 128 ^ 4 := Nat.pow_le_pow_right (by decide) hle
  refine ⟨hle, by simp, ?_, by simpa using hnumeral⟩
  unfold max
  omega

/-- A legal length is written in as few bytes as any bytes that are read as it, the table of sizes
knows how many, and it is read back whatever follows. What is read is spelled by the bytes that it
takes, at most four; other bytes are unfinished, or overrun if there are four of them. The same comes
of pushing them one by one, except that none at all are unfinished then, and no word overflows. -/
theorem shortest_written_exactly_read (bytes : Octets) :
    (∀ v : UInt32, v.toNat ≤ max →
      (encode v).length = size v.toNat ∧ 1 ≤ size v.toNat ∧ size v.toNat ≤ 4 ∧
      (∀ n, decode bytes = .ok (v.toNat, n) → size v.toNat ≤ n) ∧
      decode (encode v ++ bytes) = .ok (v.toNat, size v.toNat)) ∧
    (∀ v n, decode bytes = .ok (v, n) →
      n ≤ 4 ∧ n ≤ bytes.length ∧ v ≤ max ∧ v = value (bytes.take n) ∧ Numeral (bytes.take n) v) ∧
    (∀ e, decode bytes = .error e →
      e = .bufferTooShort ∧ bytes = [] ∨ e = unfinished ∨ e = .malformed .lengthOverrun) ∧
    (decode bytes = .error unfinished ↔
      bytes ≠ [] ∧ bytes.length < 4 ∧ ∀ b ∈ bytes, 128 ≤ b.toNat) ∧
    (decode bytes = .error (.malformed .lengthOverrun) ↔
      4 ≤ bytes.length ∧ ∀ b ∈ bytes.take 4, 128 ≤ b.toNat) ∧
    (∀ result, LengthReader.Comes {} bytes result ↔
      result = if bytes = [] then .error unfinished else decode bytes) ∧
    ∀ r, LengthReader.Pushes {} bytes r → ∀ b, r.Roomy b := by
  refine ⟨fun v hv => ?_, fun v n h => ?_, fun e h => ?_, decode_eq_unfinished_iff,
    decode_eq_overrun_iff, fun result => ?_, fun r h b => h.roomy b⟩
  · have hminimal := minimal_encode hv
    rw [UInt32.ofNat_toNat] at hminimal
    have hlength := length_encode hv
    obtain ⟨hpos, hle⟩ := size_bounds v.toNat
    refine ⟨hlength, hpos, hle, fun n h => ?_, ?_⟩
    · obtain ⟨len, rest, _, hnumeral, rfl, _⟩ := decode_eq_ok_iff.mp h
      exact hlength ▸ hminimal.length_le len hnumeral
    · exact decode_eq_ok_iff.mpr
        ⟨encode v, bytes, rfl, hminimal.numeral, hlength.symm, hlength ▸ hle⟩
  · obtain ⟨hle, hlen, hmax, hnumeral⟩ := decode_eq_ok_take h
    exact ⟨hle, hlen, hmax, hnumeral.eq_value, hnumeral⟩
  · obtain ⟨_, rfl⟩ := decode_eq_error_iff.mp h
    split_ifs with hnil
    · exact .inl ⟨rfl, hnil⟩
    · exact .inr (.inl rfl)
    · exact .inr (.inr rfl)
  · rw [LengthReader.comes_iff, eq_comm]
    split_ifs with hnil
    · rw [hnil]
      rfl
    · rw [decode_of_ne_nil hnil]

end RemainingLength
end Mqtt
