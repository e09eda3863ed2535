import Mqtt.Proofs.Packet.Frame

/-!
What a buffer begins with does not change when more bytes come behind it: a packet stays the same
packet, and an error the same error.
-/
namespace Mqtt

variable {bytes : Octets}

namespace RemainingLength

theorem decode_error_cases {e : PacketError} (h : decode bytes = .error e) :
    e = .bufferTooShort ∨ (∃ hint text, e = .needMore hint text) ∨ ∃ defect, e = .malformed defect := by
  obtain ⟨_, rfl⟩ := decode_eq_error_iff.mp h
  split_ifs
  · exact .inl rfl
  · exact .inr (.inl ⟨_, _, rfl⟩)
  · exact .inr (.inr ⟨_, rfl⟩)

/-- Four bytes that all go on are enough to refuse a length. -/
theorem decode_append_of_malformed {defect : Defect} (h : decode bytes = .error (.malformed defect))
    (rest : Octets) : decode (bytes ++ rest) = .error (.malformed defect) := by
  obtain ⟨hmore, herror⟩ := decode_eq_error_iff.mp h
  split_ifs at herror with hnil hshort
  · cases herror
  · rw [herror]
    have hlong : 4 ≤ bytes.length := Nat.not_lt.mp hshort
    refine decode_eq_overrun_iff.mpr ⟨?_, ?_⟩
    · rw [List.length_append]
      omega
    · rwa [List.take_append_of_le_length hlong]

end RemainingLength

namespace FixedHeader

/-- A header that is there stays there, with its body. -/
theorem read_append_of_some {h : FixedHeader} (hread : read bytes = .ok (some h)) (rest : Octets) :
    read (bytes ++ rest) = .ok (some h) ∧ h.body (bytes ++ rest) = h.body bytes := by
  obtain ⟨len, body, tail, rfl, hnumeral, hle, hsize, hremaining⟩ := read_eq_ok_some_iff.mp hread
  have hsplit : h.first :: (len ++ (body ++ tail)) ++ rest =
      h.first :: (len ++ (body ++ (tail ++ rest))) := by simp
  rw [hsplit, body_append hsize hremaining, body_append hsize hremaining]
  exact ⟨read_eq_ok_some_iff.mpr ⟨len, body, tail ++ rest, rfl, hnumeral, hle, hsize, hremaining⟩,
    rfl⟩

theorem read_append_of_error {e : PacketError} (hread : read bytes = .error e) (rest : Octets) :
    read (bytes ++ rest) = .error e := by
  cases bytes with
  | nil => cases hread
  | cons first tail =>
    simp only [List.cons_append, read] at hread ⊢
    cases hlength : RemainingLength.decode tail with
    | error e' =>
      obtain rfl | ⟨_, _, rfl⟩ | ⟨defect, rfl⟩ := RemainingLength.decode_error_cases hlength
      · simp [hlength] at hread
      · simp [hlength] at hread
      · have hmore := RemainingLength.decode_append_of_malformed hlength rest
        simp only [hlength, hmore] at hread ⊢
        exact hread
    | ok result =>
      obtain ⟨remaining, size⟩ := result
      simp only [hlength] at hread
      split at hread <;> cases hread

end FixedHeader

namespace Packet

variable {rest : Octets} {e : PacketError}

theorem decode_append_of_complete {p : Packet} {size : Nat}
    (h : decode bytes = .ok (.complete p size)) (rest : Octets) :
    decode (bytes ++ rest) = .ok (.complete p size) := by
  obtain ⟨hproper, len, body, tail, hbody, rfl, hnumeral, hle, hsize⟩ := decode_eq_complete_iff.mp h
  exact decode_eq_complete_iff.mpr
    ⟨hproper, len, body, tail ++ rest, hbody, by simp, hnumeral, hle, hsize⟩

theorem checkFirst_append {type : PacketType} (hne : bytes ≠ []) (rest : Octets) :
    checkFirst type (bytes ++ rest) = checkFirst type bytes := by
  cases bytes with
  | nil => exact absurd rfl hne
  | cons first tail => rfl

theorem decodeAs_append_of_error {type : PacketType} (h : decodeAs type bytes = .error e)
    (hne : bytes ≠ []) (rest : Octets) : decodeAs type (bytes ++ rest) = .error e := by
  unfold decodeAs at h ⊢
  rw [checkFirst_append hne]
  cases hfirst : checkFirst type bytes with
  | error e' =>
    rw [hfirst] at h
    exact h
  | ok _ =>
    rw [hfirst, ok_bind] at h
    rw [ok_bind]
    cases hread : FixedHeader.read bytes with
    | error e' =>
      rw [hread] at h
      rw [FixedHeader.read_append_of_error hread]
      exact h
    | ok header =>
      rw [hread, ok_bind] at h
      cases header with
      | none => cases h
      | some header =>
        obtain ⟨hmore, hbody⟩ := FixedHeader.read_append_of_some hread rest
        rw [hmore, ok_bind]
        dsimp only at h ⊢
        rw [hbody]
        exact h

/-- What makes a packet bad stands in the packet itself. -/
theorem decode_append_of_error (h : decode bytes = .error e) (hne : bytes ≠ []) (rest : Octets) :
    decode (bytes ++ rest) = .error e := by
  have hcode : leadingCode (bytes ++ rest) = leadingCode bytes := by
    cases bytes with
    | nil => exact absurd rfl hne
    | cons first tail => rfl
  unfold decode at h ⊢
  rw [hcode]
  cases hlead : leadingCode bytes with
  | error e' =>
    rw [hlead] at h
    exact h
  | ok code =>
    rw [hlead, ok_bind] at h
    rw [ok_bind]
    cases htype : PacketType.ofCode? code with
    | none =>
      rw [htype] at h
      exact h
    | some type =>
      rw [htype] at h
      exact decodeAs_append_of_error h hne rest

/-- A packet takes at least its first byte and its length. -/
theorem two_le_of_complete {p : Packet} {size : Nat} (h : decode bytes = .ok (.complete p size)) :
    2 ≤ size ∧ size ≤ bytes.length ∧
      decode (bytes.take size) = .ok (.complete p (bytes.take size).length) := by
  obtain ⟨hproper, len, body, tail, hbody, rfl, hnumeral, hle, rfl⟩ := decode_eq_complete_iff.mp h
  have hpos : 0 < len.length := List.length_pos_iff.mpr hnumeral.ne_nil
  have htake : (p.first :: (len ++ (body ++ tail))).take (1 + len.length + body.length) =
      p.first :: (len ++ (body ++ [])) := by
    rw [Nat.add_assoc, Nat.add_comm, List.take_succ_cons, ← List.append_assoc,
      ← List.length_append, List.take_left, List.append_nil]
  rw [htake]
  refine ⟨by omega, ?_, decode_eq_complete_iff.mpr
    ⟨hproper, len, body, [], hbody, rfl, hnumeral, hle, ?_⟩⟩
  · simp only [List.length_cons, List.length_append]
    omega
  · simp only [List.length_cons, List.length_append, List.length_nil]
    omega

end Packet
end Mqtt
