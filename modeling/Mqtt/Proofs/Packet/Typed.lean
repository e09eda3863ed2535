import Mqtt.Proofs.Packet.Frame

/-!
The readers of single types beside the one that looks at the first byte to find out the type. Only
the one for CONNECT does not mind what the first byte says.
-/
namespace Mqtt

variable {bytes : Octets} {first first' : UInt8} {type : PacketType}

theorem FixedHeader.read_cons (first first' : UInt8) (tail : Octets) :
    read (first' :: tail) =
      (read (first :: tail)).map (Option.map fun h => { h with first := first' }) := by
  simp only [read]
  split
  next => rfl
  next => rfl
  next => rfl
  next => split <;> rfl

namespace Packet

/-- The reader that finds out the type is the one of the type it finds. -/
theorem decode_eq_decodeAs (h : leadingCode bytes = .ok type.code) :
    decode bytes = decodeAs type bytes := by
  unfold decode
  rw [h, ok_bind, PacketType.ofCode?_code]

theorem decodeAs_of_other (htype : type ≠ .connect) (hcode : first.toNat / 16 ≠ type.code)
    (tail : Octets) : decodeAs type (first :: tail) = .error .invalidPacketType := by
  have hfirst : checkFirst type (first :: tail) = .error .invalidPacketType := by
    rw [checkFirst, if_pos (And.intro htype hcode)]
  unfold decodeAs
  rw [hfirst]
  rfl

/-- The reader of CONNECT goes by the low half of the first byte only. -/
theorem decodeAs_connect_congr (h : first'.toNat % 16 = first.toNat % 16) (tail : Octets) :
    decodeAs .connect (first' :: tail) = decodeAs .connect (first :: tail) := by
  have hmissing : FixedHeader.missing (first' :: tail) = FixedHeader.missing (first :: tail) := rfl
  unfold decodeAs
  rw [FixedHeader.read_cons first first' tail, hmissing]
  cases hread : FixedHeader.read (first :: tail) with
  | error e => rfl
  | ok header =>
    cases header with
    | none => rfl
    | some header =>
      obtain ⟨len, body, rest, hsplit, _, _, hsize, hremaining⟩ :=
        FixedHeader.read_eq_ok_some_iff.mp hread
      obtain ⟨rfl, rfl⟩ := List.cons.inj hsplit
      have hbody : FixedHeader.body { header with first := first' }
          (first' :: (len ++ (body ++ rest))) = body := FixedHeader.body_append hsize hremaining
      have hflags : FixedHeader.flags { header with first := first' } = header.flags := h
      simp only [checkFirst, Except.map, Option.map_some, ok_bind, hbody, hflags,
        FixedHeader.body_append hsize hremaining]
      rfl

theorem type_of_decodeAs {p : Packet} {n : Nat} (h : decodeAs type bytes = .ok (.complete p n)) :
    p.type = type := by
  unfold decodeAs at h
  obtain ⟨_, _, h⟩ := exists_of_bind_eq_ok h
  obtain ⟨header, _, h⟩ := exists_of_bind_eq_ok h
  cases header with
  | none => cases h
  | some header =>
    obtain ⟨_, _, h⟩ := exists_of_bind_eq_ok h
    obtain ⟨packet, hpacket, h⟩ := exists_of_bind_eq_ok h
    cases h
    exact type_of_ofBody hpacket

/-- The reader of a type reads what the general one reads where the first byte names its type, and
refuses any other buffer, but for the one of CONNECT: that one reads every buffer as if its first
byte named CONNECT. -/
theorem decodeAs_eq_decode (type : PacketType) (first : UInt8) (tail : Octets) :
    (first.toNat / 16 = type.code → decodeAs type (first :: tail) = decode (first :: tail)) ∧
    (first.toNat / 16 ≠ type.code → type ≠ .connect →
      decodeAs type (first :: tail) = .error .invalidPacketType) ∧
    (∀ p n, decodeAs type (first :: tail) = .ok (.complete p n) →
      p.type = type ∧ (type ≠ .connect → first.toNat / 16 = type.code)) ∧
    decodeAs .connect (first :: tail) = decode (UInt8.ofNat (16 + first.toNat % 16) :: tail) := by
  refine ⟨fun hcode => ?_, fun hcode htype => decodeAs_of_other htype hcode tail,
    fun p n hread => ⟨type_of_decodeAs hread, fun htype => ?_⟩, ?_⟩
  · exact (decode_eq_decodeAs (by rw [leadingCode, hcode])).symm
  · refine Decidable.not_not.mp fun hcode => ?_
    rw [decodeAs_of_other htype hcode tail] at hread
    cases hread
  · have hnamed : (UInt8.ofNat (16 + first.toNat % 16)).toNat = 16 + first.toNat % 16 :=
      Octets.toNat_ofNat_of_lt (by omega)
    have hhigh : (16 + first.toNat % 16) / 16 = PacketType.connect.code := by
      change _ = 1
      omega
    have hcode : leadingCode (UInt8.ofNat (16 + first.toNat % 16) :: tail) =
        .ok PacketType.connect.code := by
      rw [leadingCode, hnamed, hhigh]
    rw [decode_eq_decodeAs hcode]
    exact decodeAs_connect_congr (by omega) tail

/-- A SUBSCRIBE with its reader and with another one's. -/
theorem decodeAs_eq_decode_of_subscribe :
    let bytes : Octets := [0x82, 6, 0, 1, 0, 1, 97, 2]
    let p : Packet := .subscribe ⟨1, [⟨"a", 2⟩]⟩
    decode bytes = .ok (.complete p 8) ∧ decodeAs .subscribe bytes = decode bytes ∧
      decodeAs .unsubscribe bytes = .error .invalidPacketType := by
  intro bytes p
  have hcode : (0x82 : UInt8).toNat / 16 = PacketType.subscribe.code := by decide
  have hother : (0x82 : UInt8).toNat / 16 ≠ PacketType.unsubscribe.code := by decide
  have hdecode : decode bytes = .ok (.complete p 8) := by rfl
  exact ⟨hdecode, (decodeAs_eq_decode .subscribe 0x82 _).1 hcode,
    (decodeAs_eq_decode .unsubscribe 0x82 _).2.1 hother (by decide)⟩

/-- The reader of CONNECT takes a packet out of a buffer that is none of its type by its first byte,
waits for the rest of a PUBLISH, and finds another fault with a PINGREQ. -/
theorem not_decodeAs_connect_of_other :
    let bytes : Octets := [0x20, 12, 0, 4, 77, 81, 84, 84, 4, 2, 0, 60, 0, 0]
    let p : Packet := .connect
      { version := 4, cleanSession := true, keepAlive := 60, clientId := "", will := none
        username := none, password := none }
    leadingCode bytes = .ok PacketType.connAck.code ∧
      decodeAs .connect bytes = .ok (.complete p 14) ∧
      decode bytes = .error (.malformed (.wrongBodyLength .connAck 2)) ∧
      decodeAs .connect [0x30] = .ok (.incomplete 1) ∧
      decodeAs .connect [0xC0, 0] = .error .bufferTooShort := by
  intro bytes p
  exact ⟨rfl, rfl, rfl, rfl, rfl⟩

end Packet
end Mqtt
