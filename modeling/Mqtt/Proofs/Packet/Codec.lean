import Mqtt.ConnectOptions
import Mqtt.Delivery
import Mqtt.Proofs.Packet.Frame

/-!
Encoding and decoding undo each other: bytes that are written are read back, and bytes that are
read are the ones that are written, up to the padding of the remaining length.
-/
namespace Mqtt.Packet

open RemainingLength (Numeral Minimal)

variable {p : Packet} {bytes : Octets}

/-! Both rules of a proper packet are kept where packets are made. -/

theorem proper_delivery (id : UInt16) (m : Publish) : (Delivery.publish id m).packet.Proper :=
  proper_publish_iff.mpr fun hq => if_pos hq

theorem proper_of_check {o : ConnectOptions} (h : o.check = .ok ()) : o.packet.Proper := by
  refine proper_connect_iff.mpr fun hpassword => ?_
  cases hname : o.username with
  | some name => exact rfl
  | none =>
    unfold ConnectOptions.check at h
    rw [hname] at h
    dsimp only at h
    split at h
    next => cases h
    next =>
      rw [if_pos ⟨hpassword, rfl⟩] at h
      cases h

theorem exists_of_encode (h : p.encode = .ok bytes) :
    ∃ header payload len, p.header = .ok header ∧ p.payload = .ok payload ∧
      bytes = p.first :: (len ++ (header ++ payload)) ∧
      Minimal len (header ++ payload).length ∧ len.length ≤ 4 := by
  unfold encode at h
  obtain ⟨header, hheader, h⟩ := exists_of_bind_eq_ok h
  obtain ⟨payload, hpayload, h⟩ := exists_of_bind_eq_ok h
  dsimp only at h
  split at h
  next => cases h
  next hle =>
    cases h
    have hlen : (header ++ payload).length ≤ RemainingLength.max := by
      rw [List.length_append]
      omega
    have hminimal := RemainingLength.minimal_encode hlen
    refine ⟨header, payload, _, hheader, hpayload, ?_, hminimal, ?_⟩
    · rw [List.length_append]
      unfold fixedHeader first
      simp
    · exact RemainingLength.length_encode_le hlen

/-- What is written is read back whole, whatever stands behind it, unless an identifier goes with
quality 0, which is not written, or a password with no user name, which is not read. Behind the
first byte stand the shortest numeral of the body's length, and the body. -/
theorem decode_encode (hp : p.Proper) (h : p.encode = .ok bytes) :
    (∀ rest, decode (bytes ++ rest) = .ok (.complete p bytes.length)) ∧
      ∃ header payload len, p.header = .ok header ∧ p.payload = .ok payload ∧
        bytes = p.first :: (len ++ (header ++ payload)) ∧
        Minimal len (header ++ payload).length := by
  obtain ⟨header, payload, len, hheader, hpayload, rfl, hminimal, hle⟩ := exists_of_encode h
  refine ⟨fun rest => ?_, header, payload, len, hheader, hpayload, rfl, hminimal⟩
  rw [decode_eq_complete_iff]
  refine ⟨hp, len, header ++ payload, rest, body_eq_ok hheader hpayload, by simp,
    hminimal.numeral, hle, ?_⟩
  simp only [List.length_cons, List.length_append]
  omega

/-- Every optional field of a CONNECT comes back, and a byte behind it stays where it is. -/
theorem decode_encode_of_full_connect :
    let p : Packet := .connect
      { version := 4, cleanSession := true, keepAlive := 60, clientId := "c"
        will := some ⟨true, 1, "w", [1]⟩, username := some "ü", password := some [2] }
    let bytes : Octets := [16, 26, 0, 4, 77, 81, 84, 84, 4, 238, 0, 60, 0, 1, 99, 0, 1, 119, 0, 1, 1,
      0, 2, 195, 188, 0, 1, 2]
    p.Proper ∧ p.encode = .ok bytes ∧ decode (bytes ++ [255]) = .ok (.complete p 28) := by
  intro p bytes
  have hproper : p.Proper := proper_connect_iff.mpr fun _ => rfl
  have hencode : p.encode = .ok bytes := by cbv
  exact ⟨hproper, hencode, (decode_encode hproper hencode).1 [255]⟩

theorem exists_of_decode {buffer : Octets} {n : Nat} (h : decode buffer = .ok (.complete p n)) :
    ∃ len body, p.body = .ok body ∧ buffer.take n = p.first :: (len ++ body) ∧
      Numeral len body.length ∧ n = 1 + len.length + body.length ∧ n ≤ buffer.length := by
  obtain ⟨_, len, body, rest, hbody, rfl, hnumeral, _, rfl⟩ := decode_eq_complete_iff.mp h
  refine ⟨len, body, hbody, ?_, hnumeral, rfl, ?_⟩
  · rw [Nat.add_assoc, Nat.add_comm, List.take_succ_cons, ← List.append_assoc,
      ← List.length_append, List.take_left]
  · simp only [List.length_cons, List.length_append]
    omega

/-- What is read is what is written, but for the padding of the remaining length. Only a PUBLISH has
flags of its own; the packet decides its first byte and its body, so that no bit and no byte of them
goes unread; and where the packet can be written, the writer takes the shortest remaining length. -/
theorem encode_of_decode {buffer : Octets} {n : Nat} (h : decode buffer = .ok (.complete p n)) :
    n ≤ buffer.length ∧ ∃ len body, buffer.take n = p.first :: (len ++ body) ∧
      Numeral len body.length ∧ (p.type ≠ .publish → p.first.toNat % 16 = p.type.fixedFlags) ∧
      (∀ bytes, p.encode = .ok bytes → ∃ len', bytes = p.first :: (len' ++ body) ∧
        Minimal len' body.length ∧ bytes.length ≤ n ∧
        (Minimal len body.length → bytes = buffer.take n)) ∧
      ∀ other m, decode other = .ok (.complete p m) →
        ∃ len', other.take m = p.first :: (len' ++ body) ∧ Numeral len' body.length := by
  obtain ⟨len, body, hbody, htake, hnumeral, hn, hle⟩ := exists_of_decode h
  refine ⟨hle, len, body, htake, hnumeral, ?_, ?_, ?_⟩
  · intro hp
    rw [← toNat_flags hp]
    exact ((eq_first_iff (flags_lt hbody)).mp rfl).2
  · intro bytes hencode
    obtain ⟨header, payload, len', hheader, hpayload, rfl, hminimal, _⟩ := exists_of_encode hencode
    have hsame := (body_eq_ok hheader hpayload).symm.trans hbody
    rw [Except.ok.inj hsame] at hminimal ⊢
    refine ⟨len', rfl, hminimal, ?_, fun hlen => by rw [htake, hlen.eq hminimal]⟩
    have hshort := hminimal.length_le len hnumeral
    simp only [List.length_cons, List.length_append]
    omega
  · intro other m hother
    obtain ⟨len', body', hbody', htake', hnumeral', _⟩ := exists_of_decode hother
    have hsame := hbody'.symm.trans hbody
    rw [Except.ok.inj hsame] at htake' hnumeral'
    exact ⟨len', htake', hnumeral'⟩

/-- A remaining length of 6 in two bytes: the writer takes one. -/
theorem encode_of_decode_of_padded :
    let buffer : Octets := [50, 134, 0, 0, 1, 97, 0, 7, 42, 255]
    let p : Packet := .publish ⟨false, 1, false, "a", some 7, [42]⟩
    decode buffer = .ok (.complete p 9) ∧ p.encode = .ok [50, 6, 0, 1, 97, 0, 7, 42] ∧
      ∃ len len' body, buffer.take 9 = p.first :: (len ++ body) ∧
        [50, 6, 0, 1, 97, 0, 7, 42] = p.first :: (len' ++ body) ∧ Minimal len' body.length := by
  intro buffer p
  have hdecode : decode buffer = .ok (.complete p 9) := by rfl
  have hencode : p.encode = .ok [50, 6, 0, 1, 97, 0, 7, 42] := by cbv
  obtain ⟨_, len, body, htake, _, _, hwritten, _⟩ := encode_of_decode hdecode
  obtain ⟨len', hbytes, hminimal, _⟩ := hwritten _ hencode
  exact ⟨hdecode, hencode, len, len', body, htake, hbytes, hminimal⟩

end Mqtt.Packet
