import Mqtt.Packet.Decode
import Mqtt.Proofs.Outcome
import Mqtt.Proofs.Utf8

/-! Every field reader accepts exactly what its writer writes, whatever stands behind it. -/
namespace Mqtt.Field

/-- The reader takes a value from the front of an input when the writer's bytes stand there, and
only then. -/
def Reads {α : Type} (read : Octets → Except PacketError (α × Octets))
    (write : α → Except PacketError Octets) : Prop :=
  ∀ {input rest : Octets} {value : α},
    read input = .ok (value, rest) ↔ ∃ bytes, write value = .ok bytes ∧ input = bytes ++ rest

theorem word_eq_ok_iff {input rest : Octets} {n : UInt16} :
    word input = .ok (n, rest) ↔ input = Octets.ofUInt16 n ++ rest := by
  unfold word
  split
  next high low tail =>
    simp only [Except.ok.injEq, Prod.mk.injEq, Octets.toUInt16_eq_iff]
    constructor
    · rintro ⟨hn, rfl⟩
      rw [hn]
      rfl
    · intro h
      unfold Octets.ofUInt16 at h ⊢
      simp only [List.cons_append, List.nil_append, List.cons.injEq] at h
      obtain ⟨rfl, rfl, rfl⟩ := h
      exact ⟨rfl, rfl⟩
  next hshort =>
    constructor
    · intro h
      cases h
    · rintro rfl
      exact absurd rfl (hshort _ _ _)

theorem byte_eq_ok_iff {input rest : Octets} {b : UInt8} :
    byte input = .ok (b, rest) ↔ input = b :: rest := by
  cases input with
  | nil => simp [byte]
  | cons c tail => simp [byte]

theorem ofBinary_eq_ok_iff {data bytes : Octets} :
    ofBinary data = .ok bytes ↔ data.length ≤ 65535 ∧ bytes = counted data := by
  unfold ofBinary
  rw [ite_error_eq_ok_iff, Except.ok.injEq, Nat.not_lt, eq_comm (a := bytes)]

theorem reads_binary : Reads binary ofBinary := by
  intro input rest data
  simp only [ofBinary_eq_ok_iff, and_assoc]
  unfold binary
  constructor
  · intro h
    obtain ⟨⟨count, bytes⟩, hcount, h⟩ := exists_of_bind_eq_ok h
    rw [word_eq_ok_iff] at hcount
    dsimp only at h
    split at h
    next => cases h
    next hlen =>
      have hdata : (bytes.take count.toNat).length = count.toNat := by
        rw [List.length_take] at hlen ⊢
        omega
      cases h
      refine ⟨_, ?_, rfl, ?_⟩
      · rw [hdata]
        exact Nat.le_of_lt_succ count.toNat_lt
      · unfold counted
        rw [hdata, UInt16.ofNat_toNat, List.append_assoc, List.take_append_drop, hcount]
  · rintro ⟨bytes, hlen, rfl, rfl⟩
    have hcount : (UInt16.ofNat data.length).toNat = data.length := by
      rw [UInt16.toNat_ofNat']
      omega
    have hword : word (counted data ++ rest) = .ok (UInt16.ofNat data.length, data ++ rest) := by
      unfold counted
      rw [word_eq_ok_iff, List.append_assoc]
    rw [hword, ok_bind]
    dsimp only
    rw [hcount, List.take_left, List.drop_left]
    exact if_neg (Nat.lt_irrefl _)

theorem reads_text : Reads text ofText := by
  intro input rest value
  unfold text ofText
  constructor
  · intro h
    obtain ⟨⟨data, bytes⟩, hdata, h⟩ := exists_of_bind_eq_ok h
    dsimp only at h
    split at h
    next value' hvalue =>
      cases h
      obtain rfl := Utf8.decode_eq_ok_iff.mp hvalue
      exact reads_binary.mp hdata
    next => cases h
  · intro h
    rw [reads_binary.mpr h, ok_bind]
    dsimp only
    rw [Utf8.decode_eq_ok_iff.mpr rfl]
    rfl

theorem ofText_ne_nil (value : String) : ofText value ≠ .ok [] := by
  intro h
  obtain ⟨_, hempty⟩ := ofBinary_eq_ok_iff.mp h
  cases hempty

theorem checkQos_eq_ok_iff {qos qos' : UInt8} :
    checkQos qos = .ok qos' ↔ qos.toNat ≤ 2 ∧ qos' = qos := by
  unfold checkQos
  rw [ite_error_eq_ok_iff, Except.ok.injEq, Nat.not_lt, eq_comm (a := qos')]

theorem ofIdentifier_eq_ok_iff {id : UInt16} {bytes : Octets} :
    ofIdentifier id = .ok bytes ↔ id ≠ 0 ∧ bytes = Octets.ofUInt16 id := by
  unfold ofIdentifier
  rw [ite_error_eq_ok_iff, Except.ok.injEq, eq_comm (a := bytes)]

/-- What an optional field is written as. -/
def ofOption {α : Type} (write : α → Except PacketError Octets) :
    Option α → Except PacketError Octets
  | none => .ok []
  | some value => write value

variable {α : Type} {read : Octets → Except PacketError (α × Octets)}
  {write : α → Except PacketError Octets}

/-- A flag elsewhere decides whether an optional field is there. -/
theorem optional_eq_ok_iff {present : Bool} {input rest : Octets} {value : Option α} :
    Field.optional present read input = .ok (value, rest) ↔
      present = value.isSome ∧ value.elim (input = rest) fun v => read input = .ok (v, rest) := by
  unfold Field.optional
  cases present with
  | false => cases value <;> simp
  | true =>
    rw [if_pos rfl, map_eq_ok_iff]
    cases value with
    | none => simp
    | some value => simp

theorem Reads.optional (h : Reads read write) {present : Bool} {input rest : Octets}
    {value : Option α} :
    Field.optional present read input = .ok (value, rest) ↔
      present = value.isSome ∧
        ∃ bytes, ofOption write value = .ok bytes ∧ input = bytes ++ rest := by
  rw [optional_eq_ok_iff]
  cases value with
  | none => simp [ofOption]
  | some value => exact and_congr_right fun _ => h

theorem flatMapM_cons_eq_ok_iff {value : α} {values : List α} {bytes : Octets} :
    (value :: values).flatMapM write = .ok bytes ↔
      ∃ first rest, write value = .ok first ∧ values.flatMapM write = .ok rest ∧
        bytes = first ++ rest := by
  rw [List.flatMapM_cons]
  constructor
  · intro h
    obtain ⟨first, hfirst, h⟩ := exists_of_bind_eq_ok h
    obtain ⟨rest, hrest, h⟩ := exists_of_bind_eq_ok h
    cases h
    exact ⟨first, rest, hfirst, hrest, rfl⟩
  · rintro ⟨first, rest, hfirst, hrest, rfl⟩
    rw [hfirst, hrest]
    rfl

theorem flatMapM_eq_ok_nil_iff (hne : ∀ value, write value ≠ .ok []) {values : List α} :
    values.flatMapM write = .ok [] ↔ values = [] := by
  cases values with
  | nil => exact iff_of_true (List.flatMapM_nil ..) rfl
  | cons value values =>
    simp only [flatMapM_cons_eq_ok_iff, reduceCtorEq, iff_false]
    rintro ⟨first, rest, hfirst, _, hempty⟩
    rw [(List.append_eq_nil_iff.mp hempty.symm).1] at hfirst
    exact hne value hfirst

/-- Items stand one behind the other to the end of the input; none is empty. -/
theorem Reads.many (h : Reads read write) (hne : ∀ value, write value ≠ .ok []) {fuel : Nat}
    {input : Octets} {values : List α} (hfuel : input.length ≤ fuel) :
    Field.many read fuel input = .ok values ↔ values.flatMapM write = .ok input := by
  induction fuel generalizing input values with
  | zero =>
    obtain rfl := List.length_eq_zero_iff.mp (Nat.le_zero.mp hfuel)
    rw [flatMapM_eq_ok_nil_iff hne]
    simp [Field.many, eq_comm]
  | succ fuel ih =>
    cases input with
    | nil =>
      rw [flatMapM_eq_ok_nil_iff hne]
      simp [Field.many, eq_comm]
    | cons b tail =>
      -- an item takes at least one byte, so the fuel lasts for what is behind it
      have hrest : ∀ {value first rest}, write value = .ok first → b :: tail = first ++ rest →
          rest.length ≤ fuel := by
        intro value first rest hfirst hsplit
        have hpos : 0 < first.length :=
          List.length_pos_iff.mpr fun hempty => hne value (hempty ▸ hfirst)
        have hlen := congrArg List.length hsplit
        rw [List.length_append] at hlen
        omega
      unfold Field.many
      constructor
      · intro hmany
        split at hmany
        next => cases hmany
        next value rest hread =>
          obtain ⟨values, hvalues, rfl⟩ := exists_of_map_eq_ok hmany
          obtain ⟨first, hfirst, hsplit⟩ := h.mp hread
          rw [hsplit, flatMapM_cons_eq_ok_iff]
          exact ⟨first, rest, hfirst, (ih (hrest hfirst hsplit)).mp hvalues, rfl⟩
      · intro hvalues
        cases values with
        | nil => cases hvalues
        | cons value values =>
          obtain ⟨first, rest, hfirst, hvalues, hsplit⟩ := flatMapM_cons_eq_ok_iff.mp hvalues
          rw [h.mpr ⟨first, hfirst, hsplit⟩]
          dsimp only
          rw [(ih (hrest hfirst hsplit)).mpr hvalues]
          rfl

end Mqtt.Field
