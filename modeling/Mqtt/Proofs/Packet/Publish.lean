import Mqtt.Packet.Decode
import Mqtt.Proofs.Outcome

/-! What is known of a PUBLISH that was read from bytes. -/
namespace Mqtt

theorem Packet.ofBody_publish {type : PacketType} {flags : Nat} {body : Octets} {p : Publish}
    (h : Packet.ofBody type flags body = .ok (.publish p)) :
    Publish.ofBody flags body = .ok p := by
  unfold Packet.ofBody at h
  split at h <;> obtain ⟨q, hq, he⟩ := exists_of_map_eq_ok h <;> cases he
  exact hq

theorem Packet.decodeAs_publish {type : PacketType} {bytes : Octets} {p : Publish} {size : Nat}
    (h : Packet.decodeAs type bytes = .ok (.complete (.publish p) size)) :
    ∃ flags body, Publish.ofBody flags body = .ok p := by
  unfold Packet.decodeAs at h
  obtain ⟨_, _, h⟩ := exists_of_bind_eq_ok h
  obtain ⟨header, _, h⟩ := exists_of_bind_eq_ok h
  cases header with
  | none => cases h
  | some header =>
    obtain ⟨_, _, h⟩ := exists_of_bind_eq_ok h
    obtain ⟨packet, hp, h⟩ := exists_of_bind_eq_ok h
    cases h
    exact ⟨_, _, Packet.ofBody_publish hp⟩

namespace Publish

/-- A PUBLISH has an identifier, and not 0, exactly above quality 0. -/
structure Numbered (p : Publish) : Prop where
  qos_le : p.qos.toNat ≤ 2
  id_eq : p.qos = 0 ∧ p.id = none ∨ p.qos ≠ 0 ∧ ∃ id, id ≠ 0 ∧ p.id = some id

theorem Numbered.of_id {p : Publish} {id : UInt16} (h : p.Numbered) (hid : p.id = some id) :
    id ≠ 0 ∧ (p.qos = 1 ∨ p.qos = 2) := by
  have hle := h.qos_le
  rcases h.id_eq with ⟨_, hnone⟩ | ⟨hqos, id', hne, hsome⟩
  · cases hid.symm.trans hnone
  · obtain rfl := Option.some.inj (hid.symm.trans hsome)
    simp only [ne_eq, ← UInt8.toNat_inj, UInt8.toNat_zero] at hqos
    simp only [← UInt8.toNat_inj, UInt8.toNat_ofNat]
    exact ⟨hne, by omega⟩

theorem numbered_of_ofBody {flags : Nat} {body : Octets} {p : Publish}
    (h : ofBody flags body = .ok p) : p.Numbered := by
  unfold ofBody at h
  obtain ⟨qos, hqos, h⟩ := exists_of_bind_eq_ok h
  obtain ⟨⟨topic, bytes⟩, _, h⟩ := exists_of_bind_eq_ok h
  have hle : qos.toNat ≤ 2 := by
    unfold qosOfFlags Field.checkQos at hqos
    split at hqos
    next => cases hqos
    next hle =>
      cases hqos
      omega
  dsimp only at h
  split at h
  next hz =>
    cases h
    exact ⟨hle, .inl ⟨hz, rfl⟩⟩
  next hz =>
    split at h
    next => cases h
    next id payload _ =>
      split at h
      next => cases h
      next hid =>
        cases h
        exact ⟨hle, .inr ⟨hz, id, hid, rfl⟩⟩

/-- The message stands at the front of some buffer. -/
def IsDecoded (p : Publish) : Prop :=
  ∃ bytes size, Packet.decode bytes = .ok (.complete (.publish p) size)

theorem IsDecoded.numbered {p : Publish} (h : p.IsDecoded) : p.Numbered := by
  obtain ⟨bytes, size, h⟩ := h
  unfold Packet.decode at h
  obtain ⟨code, _, h⟩ := exists_of_bind_eq_ok h
  split at h
  next => cases h
  next type _ =>
    obtain ⟨flags, body, hp⟩ := Packet.decodeAs_publish h
    exact numbered_of_ofBody hp

end Publish
end Mqtt
