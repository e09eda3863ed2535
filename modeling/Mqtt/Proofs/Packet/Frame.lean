import Mqtt.Proofs.Packet.Body
import Mqtt.Proofs.RemainingLength

/-!
Which buffers begin with a packet: its first byte, a remaining length that may be padded, its body,
and anything behind it.
-/
namespace Mqtt

namespace FixedHeader

theorem read_eq_ok_some_iff {bytes : Octets} {h : FixedHeader} :
    read bytes = .ok (some h) ↔
      ∃ len body rest, bytes = h.first :: (len ++ (body ++ rest)) ∧
        RemainingLength.Numeral len body.length ∧ len.length ≤ 4 ∧ h.size = len.length + 1 ∧
        h.remaining = body.length := by
  constructor
  · intro hread
    cases bytes with
    | nil => cases hread
    | cons first tail =>
      simp only [read] at hread
      split at hread
      next => cases hread
      next => cases hread
      next => cases hread
      next remaining size hdecode =>
        split at hread
        next => cases hread
        next hlong =>
          cases hread
          obtain ⟨len, rest, rfl, hnumeral, rfl, hle⟩ :=
            RemainingLength.decode_eq_ok_iff.mp hdecode
          have hbody : (rest.take remaining).length = remaining := by
            rw [List.length_append] at hlong
            rw [List.length_take]
            omega
          refine ⟨len, rest.take remaining, rest.drop remaining, ?_, ?_, hle, rfl, hbody.symm⟩
          · rw [List.take_append_drop]
          · rw [hbody]
            exact hnumeral
  · rintro ⟨len, body, rest, rfl, hnumeral, hle, hsize, hremaining⟩
    have hdecode := RemainingLength.decode_eq_ok_iff.mpr
      ⟨len, body ++ rest, rfl, hnumeral, rfl, hle⟩
    simp only [read, hdecode]
    rw [if_neg (by simp), ← hsize, ← hremaining]

theorem body_append {h : FixedHeader} {len body rest : Octets} (hsize : h.size = len.length + 1)
    (hremaining : h.remaining = body.length) :
    h.body (h.first :: (len ++ (body ++ rest))) = body := by
  unfold FixedHeader.body
  rw [hsize, hremaining, List.drop_succ_cons, List.drop_left, List.take_left]

theorem flags_lt (h : FixedHeader) : h.flags < 16 :=
  Nat.mod_lt _ (by decide)

end FixedHeader

theorem PacketType.code_of_ofCode? {n : Nat} {type : PacketType} (h : ofCode? n = some type) :
    type.code = n := by
  unfold ofCode? at h
  split at h <;> cases h <;> rfl

namespace Packet

/-- An identifier goes with a quality of service, and a password with a user name. -/
structure Proper (p : Packet) : Prop where
  id_eq_none : ∀ m, p = .publish m → m.qos = 0 → m.id = none
  username : ∀ c, p = .connect c → c.password.isSome → c.username.isSome

/-- The body that a packet is read off: what encoding writes, and also the bodies with identifier 0
or without a filter that it refuses to write. -/
def body : Packet → Except PacketError Octets
  | .connect p => do return (← p.header) ++ (← p.payload)
  | .connAck p => p.header
  | .publish p => do return (← p.header) ++ p.payload
  | .pubAck id | .pubRec id | .pubRel id | .pubComp id | .unsubAck id => .ok (Octets.ofUInt16 id)
  | .subscribe p => do return Octets.ofUInt16 p.id ++ (← p.payload)
  | .subAck p => do return Octets.ofUInt16 p.id ++ (← p.codes.mapM SubAck.checkCode)
  | .unsubscribe p => do return Octets.ofUInt16 p.id ++ (← p.filters.flatMapM Field.ofText)
  | .pingReq | .pingResp | .disconnect => .ok []

def first (p : Packet) : UInt8 :=
  UInt8.ofNat p.type.code <<< 4 ||| p.flags

variable {p : Packet} {header payload : Octets}

/-! What is read is what is written. -/

theorem body_eq_ok (hh : p.header = .ok header) (hp : p.payload = .ok payload) :
    p.body = .ok (header ++ payload) := by
  cases p with
  | connect c =>
    dsimp only [Packet.header, Packet.payload] at hh hp
    simp only [body, hh, hp, ok_bind]
    rfl
  | connAck a =>
    cases hp
    rw [List.append_nil]
    exact hh
  | publish m =>
    cases hp
    dsimp only [Packet.header] at hh
    simp only [body, hh, ok_bind]
    rfl
  | pubAck id | pubRec id | pubRel id | pubComp id | unsubAck id =>
    cases hp
    obtain ⟨_, rfl⟩ := Field.ofIdentifier_eq_ok_iff.mp hh
    rfl
  | subscribe s =>
    obtain ⟨_, rfl⟩ := Field.ofIdentifier_eq_ok_iff.mp hh
    dsimp only [Packet.payload] at hp
    simp only [body, hp, ok_bind]
    rfl
  | subAck s =>
    cases hh
    dsimp only [Packet.payload] at hp
    simp only [body, hp, ok_bind]
    rfl
  | unsubscribe u =>
    obtain ⟨_, rfl⟩ := Field.ofIdentifier_eq_ok_iff.mp hh
    dsimp only [Packet.payload, Unsubscribe.payload] at hp
    rw [ite_error_eq_ok_iff] at hp
    simp only [body, hp.2, ok_bind]
    rfl
  | pingReq | pingResp | disconnect =>
    cases hh
    cases hp
    rfl

theorem type_of_ofBody {type : PacketType} {flags : Nat} {bytes : Octets}
    (h : ofBody type flags bytes = .ok p) : p.type = type := by
  unfold ofBody at h
  split at h <;> obtain ⟨q, _, rfl⟩ := exists_of_map_eq_ok h <;> rfl

theorem proper_connect_iff {c : Connect} :
    (Packet.connect c).Proper ↔ (c.password.isSome → c.username.isSome) := by
  refine ⟨fun h => h.username c rfl, fun h => ⟨by simp, ?_⟩⟩
  rintro _ ⟨rfl⟩
  exact h

theorem proper_publish_iff {m : Publish} :
    (Packet.publish m).Proper ↔ (m.qos = 0 → m.id = none) := by
  refine ⟨fun h => h.id_eq_none m rfl, fun h => ⟨?_, by simp⟩⟩
  rintro _ ⟨rfl⟩
  exact h

theorem toNat_flags (h : p.type ≠ .publish) : p.flags.toNat = p.type.fixedFlags := by
  cases p with
  | publish m => exact absurd rfl h
  | _ => rfl

theorem checkFlags_eq_ok_iff {flags : Nat} :
    checkFlags p.type flags = .ok () ↔ (p.type ≠ .publish → flags = p.flags.toNat) := by
  unfold checkFlags
  rw [ite_error_eq_ok_iff]
  constructor
  · rintro ⟨h, _⟩ hne
    rw [toNat_flags hne]
    exact Decidable.not_not.mp fun hflags => h ⟨hne, hflags⟩
  · intro h
    refine ⟨?_, rfl⟩
    rintro ⟨hne, hflags⟩
    exact hflags ((h hne).trans (toNat_flags hne))

theorem ofBody_type_iff {flags : Nat} {bytes : Octets} (hf : flags < 16) :
    ofBody p.type flags bytes = .ok p ↔
      p.Proper ∧ (p.type = .publish → flags = p.flags.toNat) ∧ p.body = .ok bytes := by
  cases p with
  | connect c =>
    rw [proper_connect_iff]
    simp only [ofBody, type, body, map_eq_ok_iff, bind_eq_ok_iff, Connect.ofBody_eq_ok_iff, pure,
      Except.pure, Except.ok.injEq, connect.injEq, exists_eq_right, exists_and_left, reduceCtorEq,
      false_implies, true_and, eq_comm (b := bytes)]
  | publish m =>
    rw [proper_publish_iff]
    simp only [ofBody, type, body, map_eq_ok_iff, bind_eq_ok_iff, Publish.ofBody_eq_ok_iff hf, pure,
      Except.pure, Except.ok.injEq, publish.injEq, exists_eq_right, true_implies,
      eq_comm (b := bytes)]
    rfl
  | connAck a =>
    have hproper : Proper (connAck a) := ⟨by simp, by simp⟩
    simp [ofBody, type, body, map_eq_ok_iff, ConnAck.ofBody_eq_ok_iff, hproper]
  | pubAck id | pubRec id | pubRel id | pubComp id | unsubAck id =>
    refine Iff.trans ?_ (and_iff_right (⟨by simp, by simp⟩ : Proper _)).symm
    simp [ofBody, type, body, map_eq_ok_iff, PacketType.onlyIdentifier_eq_ok_iff,
      eq_comm (a := bytes)]
  | subscribe s =>
    have hproper : Proper (subscribe s) := ⟨by simp, by simp⟩
    simp [ofBody, type, body, map_eq_ok_iff, bind_eq_ok_iff, Subscribe.ofBody_eq_ok_iff, hproper,
      pure, Except.pure, eq_comm (b := bytes)]
  | subAck s =>
    have hproper : Proper (subAck s) := ⟨by simp, by simp⟩
    simp [ofBody, type, body, map_eq_ok_iff, bind_eq_ok_iff, SubAck.ofBody_eq_ok_iff, hproper,
      pure, Except.pure, eq_comm (b := bytes)]
  | unsubscribe u =>
    have hproper : Proper (unsubscribe u) := ⟨by simp, by simp⟩
    simp [ofBody, type, body, map_eq_ok_iff, bind_eq_ok_iff, Unsubscribe.ofBody_eq_ok_iff, hproper,
      pure, Except.pure, eq_comm (b := bytes)]
  | pingReq | pingResp | disconnect =>
    refine Iff.trans ?_ (and_iff_right (⟨by simp, by simp⟩ : Proper _)).symm
    simp [ofBody, type, body, map_eq_ok_iff, PacketType.noBody_eq_ok_iff]

/-- The flags and the body of a buffer decide the packet, and a packet decides them. -/
theorem ofBody_eq_ok_iff {flags : Nat} {bytes : Octets} (hf : flags < 16) :
    checkFlags p.type flags = .ok () ∧ ofBody p.type flags bytes = .ok p ↔
      p.Proper ∧ flags = p.flags.toNat ∧ p.body = .ok bytes := by
  rw [checkFlags_eq_ok_iff, ofBody_type_iff hf]
  by_cases h : p.type = .publish <;> simp [h, and_left_comm]

theorem flags_lt {bytes : Octets} (h : p.body = .ok bytes) : p.flags.toNat < 16 := by
  by_cases hp : p.type = .publish
  · cases p with
    | publish m =>
      obtain ⟨header, hheader, _⟩ := exists_of_bind_eq_ok h
      have hle := (Publish.header_eq_ok_iff.mp hheader).1
      have hd := m.dup.toNat_lt
      have hr := m.retain.toNat_lt
      rw [flags, Publish.toNat_flags hle]
      omega
    | _ => cases hp
  · rw [toNat_flags hp]
    cases p.type <;> decide

theorem toNat_first (h : p.flags.toNat < 16) :
    p.first.toNat = p.type.code * 16 + p.flags.toNat := by
  have hcode : p.type.code < 16 := by
    cases p.type <;> decide
  have hor := Nat.shiftLeft_add_eq_or_of_lt (i := 4) h p.type.code
  rw [Nat.shiftLeft_eq] at hor
  unfold first
  rw [UInt8.toNat_or, UInt8.toNat_shiftLeft, Octets.toNat_ofNat_of_lt (by omega)]
  change p.type.code <<< 4 % 256 ||| p.flags.toNat = _
  rw [Nat.shiftLeft_eq, Nat.mod_eq_of_lt (by omega), ← hor]

theorem eq_first_iff (h : p.flags.toNat < 16) {b : UInt8} :
    b = p.first ↔ b.toNat / 16 = p.type.code ∧ b.toNat % 16 = p.flags.toNat := by
  rw [← UInt8.toNat_inj, toNat_first h]
  omega

theorem checkFirst_first {bytes : Octets} (h : p.body = .ok bytes) (tail : Octets) :
    checkFirst p.type (p.first :: tail) = .ok () := by
  have hlt := flags_lt h
  obtain ⟨hcode, hflags⟩ := (eq_first_iff hlt).mp rfl
  simp only [checkFirst]
  rw [if_neg (fun hne => hne.2 hcode), hflags]
  split
  next hp =>
    cases p with
    | publish m =>
      obtain ⟨header, hheader, _⟩ := exists_of_bind_eq_ok h
      have hle := (Publish.header_eq_ok_iff.mp hheader).1
      have hqos := ((Publish.eq_toNat_flags_iff hlt hle).mp rfl).2.1
      rw [Publish.qosOfFlags_eq_ok_iff.mpr ⟨hqos, hle⟩]
      rfl
    | _ => cases hp
  next => rfl

/-- What stands in front of a buffer that begins with a packet. -/
theorem decode_eq_complete_iff {bytes : Octets} {size : Nat} :
    decode bytes = .ok (.complete p size) ↔
      p.Proper ∧ ∃ len body rest, p.body = .ok body ∧
        bytes = p.first :: (len ++ (body ++ rest)) ∧
        RemainingLength.Numeral len body.length ∧ len.length ≤ 4 ∧
        size = 1 + len.length + body.length := by
  constructor
  · intro h
    unfold decode at h
    obtain ⟨code, hcode, h⟩ := exists_of_bind_eq_ok h
    split at h
    next => cases h
    next type htype =>
      unfold decodeAs at h
      obtain ⟨_, _, h⟩ := exists_of_bind_eq_ok h
      obtain ⟨header, hread, h⟩ := exists_of_bind_eq_ok h
      cases header with
      | none => cases h
      | some header =>
        obtain ⟨_, hflags, h⟩ := exists_of_bind_eq_ok h
        obtain ⟨packet, hpacket, h⟩ := exists_of_bind_eq_ok h
        cases h
        obtain ⟨len, body, rest, rfl, hnumeral, hle, hsize, hremaining⟩ :=
          FixedHeader.read_eq_ok_some_iff.mp hread
        cases hcode
        rw [FixedHeader.body_append hsize hremaining] at hpacket
        obtain rfl := type_of_ofBody hpacket
        obtain ⟨hproper, hsame, hbody⟩ := (ofBody_eq_ok_iff header.flags_lt).mp ⟨hflags, hpacket⟩
        have hfirst : header.first = p.first := (eq_first_iff (flags_lt hbody)).mpr
          ⟨(PacketType.code_of_ofCode? htype).symm, hsame⟩
        refine ⟨hproper, len, body, rest, hbody, by rw [hfirst], hnumeral, hle, ?_⟩
        unfold FixedHeader.total
        omega
  · rintro ⟨hproper, len, body, rest, hbody, rfl, hnumeral, hle, rfl⟩
    have hlt := flags_lt hbody
    obtain ⟨hcode, hflags⟩ := (eq_first_iff hlt).mp rfl
    have hread := (FixedHeader.read_eq_ok_some_iff
      (h := ⟨p.first, len.length + 1, body.length⟩)).mpr
      ⟨len, body, rest, rfl, hnumeral, hle, rfl, rfl⟩
    obtain ⟨hcheck, hpacket⟩ := (ofBody_eq_ok_iff hlt).mpr ⟨hproper, rfl, hbody⟩
    unfold decode leadingCode
    rw [ok_bind, hcode, PacketType.ofCode?_code]
    dsimp only
    unfold decodeAs
    rw [checkFirst_first hbody, ok_bind, hread, ok_bind]
    dsimp only
    unfold FixedHeader.flags
    rw [FixedHeader.body_append rfl rfl, hflags, hcheck, ok_bind, hpacket, ok_bind]
    unfold FixedHeader.total
    rw [Nat.add_comm len.length 1]
    rfl

end Packet
end Mqtt
