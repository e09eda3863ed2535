import Mqtt.Utf8
import Mqtt.Proofs.Octets
import Mqtt.Proofs.Outcome
import Mathlib.Tactic.SplitIfs

/-! A text is read off exactly the bytes that it is written as. -/
namespace Mqtt.Utf8

open Octets (ofNat_eq toNat_ofNat_of_lt)

def Tail (b : UInt8) : Prop :=
  0x80 ≤ b.toNat ∧ b.toNat ≤ 0xBF

/-- The byte sequences of the scalar values: the value's bits are spread over the bytes, no
sequence is longer than it has to be, and none spells a surrogate. -/
inductive Sequence : Octets → Nat → Prop where
  | one {a : UInt8} (short : a.toNat < 0x80) : Sequence [a] a.toNat
  | two {a b : UInt8} (first : 0xC0 ≤ a.toNat ∧ a.toNat < 0xE0) (second : Tail b) {n : Nat}
      (value : n = (a.toNat - 0xC0) * 64 + b.toNat % 64) (long : 0x80 ≤ n) : Sequence [a, b] n
  | three {a b c : UInt8} (first : 0xE0 ≤ a.toNat ∧ a.toNat < 0xF0) (second : Tail b)
      (third : Tail c) {n : Nat}
      (value : n = ((a.toNat - 0xE0) * 64 + b.toNat % 64) * 64 + c.toNat % 64) (long : 0x800 ≤ n)
      (scalar : n < 0xD800 ∨ 0xDFFF < n) : Sequence [a, b, c] n
  | four {a b c d : UInt8} (first : 0xF0 ≤ a.toNat ∧ a.toNat < 0xF8) (second : Tail b)
      (third : Tail c) (fourth : Tail d) {n : Nat}
      (value : n =
        (((a.toNat - 0xF0) * 64 + b.toNat % 64) * 64 + c.toNat % 64) * 64 + d.toNat % 64)
      (long : 0x10000 ≤ n) (scalar : n < 0x110000) : Sequence [a, b, c, d] n

/-! Writing. -/

theorem Sequence.toNat_ofNat {bytes : Octets} {n : Nat} (h : Sequence bytes n) :
    (Char.ofNat n).toNat = n := by
  have hvalid : n.isValidChar := by
    unfold Nat.isValidChar
    cases h with
    | one short => omega
    | two first second value long => omega
    | three first second third value long scalar => omega
    | four first second third fourth value long scalar => omega
  unfold Char.ofNat
  rw [dif_pos hvalid]
  rfl

/-- A sequence is what its character is written as. -/
theorem Sequence.encodeChar_eq {bytes : Octets} {n : Nat} (h : Sequence bytes n) :
    encodeChar (Char.ofNat n) = bytes := by
  unfold encodeChar
  rw [h.toNat_ofNat]
  cases h with
  | one short =>
    rw [if_pos short, UInt8.ofNat_toNat]
  | two first second value long =>
    unfold Tail at second
    rw [if_neg (by omega), if_pos (by omega)]
    simp only [List.cons.injEq, and_true]
    exact ⟨ofNat_eq (by omega), ofNat_eq (by omega)⟩
  | three first second third value long scalar =>
    unfold Tail at second third
    rw [if_neg (by omega), if_neg (by omega), if_pos (by omega)]
    simp only [List.cons.injEq, and_true]
    exact ⟨ofNat_eq (by omega), ofNat_eq (by omega), ofNat_eq (by omega)⟩
  | four first second third fourth value long scalar =>
    unfold Tail at second third fourth
    rw [if_neg (by omega), if_neg (by omega), if_neg (by omega)]
    simp only [List.cons.injEq, and_true]
    exact ⟨ofNat_eq (by omega), ofNat_eq (by omega), ofNat_eq (by omega), ofNat_eq (by omega)⟩

theorem toNat_tail (n : Nat) : (UInt8.ofNat (0x80 + n % 64)).toNat = 0x80 + n % 64 :=
  toNat_ofNat_of_lt (by omega)

theorem tail_ofNat (n : Nat) : Tail (UInt8.ofNat (0x80 + n % 64)) := by
  unfold Tail
  rw [toNat_tail]
  omega

theorem sequence_encodeChar (c : Char) : Sequence (encodeChar c) c.toNat := by
  have hvalid : c.toNat < 0xD800 ∨ 0xDFFF < c.toNat ∧ c.toNat < 0x110000 := c.valid
  unfold encodeChar
  generalize c.toNat = n at hvalid
  dsimp only
  split
  next h1 =>
    have ha := toNat_ofNat_of_lt (n := n) (by omega)
    have hone : Sequence [UInt8.ofNat n] (UInt8.ofNat n).toNat := .one (by omega)
    rwa [ha] at hone
  next h1 =>
    split
    next h2 =>
      have ha := toNat_ofNat_of_lt (n := 0xC0 + n / 64) (by omega)
      refine .two (by omega) (tail_ofNat n) ?_ (by omega)
      rw [ha, toNat_tail]
      omega
    next h2 =>
      split
      next h3 =>
        have ha := toNat_ofNat_of_lt (n := 0xE0 + n / 4096) (by omega)
        refine .three (by omega) (tail_ofNat (n / 64)) (tail_ofNat n) ?_ (by omega) (by omega)
        rw [ha, toNat_tail, toNat_tail]
        omega
      next h3 =>
        have ha := toNat_ofNat_of_lt (n := 0xF0 + n / 262144) (by omega)
        refine .four (by omega) (tail_ofNat (n / 4096)) (tail_ofNat (n / 64)) (tail_ofNat n) ?_
          (by omega) (by omega)
        rw [ha, toNat_tail, toNat_tail, toNat_tail]
        omega

theorem exists_encodeChar_eq_cons (c : Char) : ∃ b tail, encodeChar c = b :: tail := by
  have hseq := sequence_encodeChar c
  cases henc : encodeChar c with
  | nil =>
    rw [henc] at hseq
    cases hseq
  | cons b tail => exact ⟨b, tail, rfl⟩

/-! Reading. -/

theorem follow_zero_iff {low high bits size size' : Nat} {bytes rest : Octets} {c : Char} :
    follow 0 low high bits size bytes = .char c size' rest ↔
      Char.ofNat bits = c ∧ size = size' ∧ bytes = rest := by
  simp only [follow, Scan.char.injEq]

theorem follow_succ_iff {owed low high bits size size' : Nat} {bytes rest : Octets} {c : Char} :
    follow (owed + 1) low high bits size bytes = .char c size' rest ↔
      ∃ b tail, bytes = b :: tail ∧ (low ≤ b.toNat ∧ b.toNat ≤ high) ∧
        follow owed 0x80 0xBF (bits * 64 + b.toNat % 64) (size + 1) tail = .char c size' rest := by
  cases bytes with
  | nil => simp [follow]
  | cons b tail =>
    rw [follow]
    split
    next h =>
      constructor
      · exact fun hf => ⟨b, tail, rfl, h, hf⟩
      · rintro ⟨_, _, hsplit, _, hf⟩
        obtain ⟨rfl, rfl⟩ := List.cons.inj hsplit
        exact hf
    next h =>
      constructor
      · intro hf
        cases hf
      · rintro ⟨_, _, hsplit, hb, _⟩
        obtain ⟨rfl, rfl⟩ := List.cons.inj hsplit
        exact absurd hb h

section
variable {a : UInt8} {bytes rest : Octets} {ch : Char} {low high bits size : Nat}

def Begins (a : UInt8) (bytes : Octets) (ch : Char) (size : Nat) (rest : Octets) : Prop :=
  ∃ tail n, bytes = tail ++ rest ∧ Sequence (a :: tail) n ∧ Char.ofNat n = ch ∧
    tail.length + 1 = size

theorem follow_one_iff (ha : a.toNat < 0x80) :
    follow 0 low high a.toNat 1 bytes = .char ch size rest ↔ Begins a bytes ch size rest := by
  rw [follow_zero_iff]
  constructor
  · rintro ⟨rfl, rfl, rfl⟩
    exact ⟨[], _, rfl, .one ha, rfl, rfl⟩
  · rintro ⟨tail, n, rfl, hn, rfl, rfl⟩
    cases hn with
    | one short => exact ⟨rfl, rfl, rfl⟩
    | _ => omega

theorem follow_two_iff (ha : 0xC0 ≤ a.toNat ∧ a.toNat < 0xE0) (hbits : bits = a.toNat - 0xC0)
    (hrange : ∀ b, low ≤ b ∧ b ≤ high ↔ (0x80 ≤ b ∧ b ≤ 0xBF) ∧ 0x80 ≤ bits * 64 + b % 64) :
    follow 1 low high bits 1 bytes = .char ch size rest ↔ Begins a bytes ch size rest := by
  simp only [follow_succ_iff, follow_zero_iff]
  constructor
  · rintro ⟨b, _, rfl, hb, rfl, rfl, rfl⟩
    obtain ⟨hb, hlong⟩ := (hrange _).mp hb
    exact ⟨[b], _, rfl, .two ha hb (by rw [hbits]) hlong, rfl, rfl⟩
  · rintro ⟨tail, n, rfl, hn, rfl, rfl⟩
    cases hn with
    | @two _ b first second _ value long =>
      rw [← hbits] at value
      exact ⟨b, _, rfl, (hrange _).mpr ⟨second, by omega⟩, by rw [value], rfl, rfl⟩
    | _ => omega

/-- The second byte's range says that a value of three bytes is neither overlong nor a surrogate. -/
theorem follow_three_iff (ha : 0xE0 ≤ a.toNat ∧ a.toNat < 0xF0) (hbits : bits = a.toNat - 0xE0)
    (hrange : ∀ b, low ≤ b ∧ b ≤ high ↔ (0x80 ≤ b ∧ b ≤ 0xBF) ∧ 0x20 ≤ bits * 64 + b % 64 ∧
      (bits * 64 + b % 64 < 0x360 ∨ 0x37F < bits * 64 + b % 64)) :
    follow 2 low high bits 1 bytes = .char ch size rest ↔ Begins a bytes ch size rest := by
  simp only [follow_succ_iff, follow_zero_iff]
  constructor
  · rintro ⟨b, _, rfl, hb, c, _, rfl, hc, rfl, rfl, rfl⟩
    obtain ⟨hb, hlong, hscalar⟩ := (hrange _).mp hb
    exact ⟨[b, c], _, rfl, .three ha hb hc (by rw [hbits]) (by omega) (by omega), rfl, rfl⟩
  · rintro ⟨tail, n, rfl, hn, rfl, rfl⟩
    cases hn with
    | @three _ b c first second third _ value long scalar =>
      rw [← hbits] at value
      exact ⟨b, _, rfl, (hrange _).mpr ⟨second, by omega, by omega⟩, c, _, rfl, third,
        by rw [value], rfl, rfl⟩
    | _ => omega

/-- The second byte's range says that a value of four bytes is neither overlong nor too large. -/
theorem follow_four_iff (ha : 0xF0 ≤ a.toNat ∧ a.toNat < 0xF8) (hbits : bits = a.toNat - 0xF0)
    (hrange : ∀ b, low ≤ b ∧ b ≤ high ↔ (0x80 ≤ b ∧ b ≤ 0xBF) ∧ 0x10 ≤ bits * 64 + b % 64 ∧
      bits * 64 + b % 64 < 0x110) :
    follow 3 low high bits 1 bytes = .char ch size rest ↔ Begins a bytes ch size rest := by
  simp only [follow_succ_iff, follow_zero_iff]
  constructor
  · rintro ⟨b, _, rfl, hb, c, _, rfl, hc, d, _, rfl, hd, rfl, rfl, rfl⟩
    obtain ⟨hb, hlong, hscalar⟩ := (hrange _).mp hb
    exact ⟨[b, c, d], _, rfl, .four ha hb hc hd (by rw [hbits]) (by omega) (by omega), rfl, rfl⟩
  · rintro ⟨tail, n, rfl, hn, rfl, rfl⟩
    cases hn with
    | @four _ b c d first second third fourth _ value long scalar =>
      rw [← hbits] at value
      exact ⟨b, _, rfl, (hrange _).mpr ⟨second, by omega, by omega⟩, c, _, rfl, third, d, _, rfl,
        fourth, by rw [value], rfl, rfl⟩
    | _ => omega

theorem not_begins (ha : 0x80 ≤ a.toNat ∧ a.toNat < 0xC2 ∨ 0xF5 ≤ a.toNat) :
    ¬ Begins a bytes ch size rest := by
  rintro ⟨tail, n, rfl, hn, rfl, rfl⟩
  cases hn with
  | one short => omega
  | two first second value long =>
    unfold Tail at second
    omega
  | three first second third value long scalar => omega
  | four first second third fourth value long scalar => omega

/-- A character is read off its sequence, whatever follows. -/
theorem scan_eq_char_iff : scan a bytes = .char ch size rest ↔ Begins a bytes ch size rest := by
  unfold scan lead
  dsimp only
  -- one case for each kind of first byte
  split_ifs with h1 h2 h3 h4 h5 h6 h7 h8 h9 <;> try dsimp only
  · exact follow_one_iff h1
  · simp [not_begins (a := a) (by omega)]
  · exact follow_two_iff (by omega) rfl fun b => by omega
  · exact follow_three_iff (by omega) (by omega) fun b => by omega
  · exact follow_three_iff (by omega) (by omega) fun b => by omega
  · exact follow_three_iff (by omega) rfl fun b => by omega
  · exact follow_four_iff (by omega) (by omega) fun b => by omega
  · exact follow_four_iff (by omega) rfl fun b => by omega
  · exact follow_four_iff (by omega) (by omega) fun b => by omega
  · simp [not_begins (a := a) (by omega)]

theorem begins_iff :
    Begins a bytes ch size rest ↔
      a :: bytes = encodeChar ch ++ rest ∧ (encodeChar ch).length = size := by
  constructor
  · rintro ⟨tail, n, rfl, hn, rfl, rfl⟩
    rw [hn.encodeChar_eq]
    exact ⟨rfl, rfl⟩
  · rintro ⟨hsplit, hsize⟩
    have hch := sequence_encodeChar ch
    obtain ⟨b, tail, henc⟩ := exists_encodeChar_eq_cons ch
    rw [henc] at hsplit hch hsize
    obtain ⟨rfl, rfl⟩ := List.cons.inj hsplit
    exact ⟨tail, _, rfl, hch, Char.ofNat_toNat ch, hsize⟩

end

theorem decodeFrom_sound {fuel offset : Nat} {bytes : Octets} {cs : List Char}
    (h : decodeFrom fuel offset bytes = .ok cs) : bytes = cs.flatMap encodeChar := by
  induction fuel generalizing offset bytes cs with
  | zero =>
    cases bytes with
    | nil =>
      cases h
      rfl
    | cons b bytes => cases h
  | succ fuel ih =>
    cases bytes with
    | nil =>
      cases h
      rfl
    | cons b bytes =>
      unfold decodeFrom at h
      split at h
      next c size rest hscan =>
        obtain ⟨cs, hrest, rfl⟩ := exists_of_map_eq_ok h
        rw [(begins_iff.mp (scan_eq_char_iff.mp hscan)).1, ih hrest, List.flatMap_cons]
      next => cases h
      next => cases h

theorem decodeFrom_flatMap {fuel : Nat} (offset : Nat) (cs : List Char)
    (h : (cs.flatMap encodeChar).length ≤ fuel) :
    decodeFrom fuel offset (cs.flatMap encodeChar) = .ok cs := by
  induction cs generalizing fuel offset with
  | nil => unfold decodeFrom; rfl
  | cons c cs ih =>
    obtain ⟨b, tail, hc⟩ := exists_encodeChar_eq_cons c
    rw [List.flatMap_cons, hc, List.cons_append] at h ⊢
    cases fuel with
    | zero => cases h
    | succ fuel =>
      have hscan : scan b (tail ++ cs.flatMap encodeChar) =
          .char c (tail.length + 1) (cs.flatMap encodeChar) := by
        rw [scan_eq_char_iff, begins_iff, hc]
        exact ⟨rfl, rfl⟩
      rw [List.length_cons, List.length_append] at h
      unfold decodeFrom
      rw [hscan]
      dsimp only
      rw [ih (offset + (tail.length + 1)) (by omega)]
      rfl

/-- A text is read off its own bytes and off no others. -/
theorem decode_eq_ok_iff {bytes : Octets} {text : String} :
    decode bytes = .ok text ↔ bytes = encode text := by
  unfold decode encode
  constructor
  · intro h
    obtain ⟨cs, hcs, rfl⟩ := exists_of_map_eq_ok h
    rw [String.toList_ofList]
    exact decodeFrom_sound hcs
  · rintro rfl
    rw [decodeFrom_flatMap 0 text.toList (Nat.le_refl _)]
    exact congrArg Except.ok String.ofList_toList

end Mqtt.Utf8
