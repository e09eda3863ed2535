import Mqtt.Proofs.Packet.Connect
import Mqtt.Proofs.Packet.Publish

/-! Every kind of packet is read off one body and, for PUBLISH, one set of flags. -/
namespace Mqtt

theorem PacketType.onlyIdentifier_eq_ok_iff {type : PacketType} {body : Octets} {id : UInt16} :
    type.onlyIdentifier body = .ok id ↔ body = Octets.ofUInt16 id := by
  unfold onlyIdentifier
  split
  next high low =>
    rw [Except.ok.injEq, Octets.toUInt16_eq_iff, eq_comm]
  next hother =>
    simp only [reduceCtorEq, false_iff]
    rintro rfl
    exact hother _ _ rfl

theorem PacketType.noBody_eq_ok_iff {type : PacketType} {body : Octets} {u : Unit} :
    type.noBody body = .ok u ↔ body = [] := by
  cases body with
  | nil => simp [noBody]
  | cons b bytes => simp [noBody]

theorem PacketType.identifier_eq_ok_iff {type : PacketType} {body rest : Octets} {id : UInt16} :
    type.identifier body = .ok (id, rest) ↔ body = Octets.ofUInt16 id ++ rest := by
  rw [← Field.word_eq_ok_iff]
  unfold identifier
  split
  next r hr => rw [hr]
  next e he => simp [he]

theorem ConnAck.ofBody_eq_ok_iff {p : ConnAck} {body : Octets} :
    ofBody body = .ok p ↔ p.header = .ok body := by
  unfold ConnAck.ofBody header
  rw [ite_error_eq_ok_iff, Except.ok.injEq]
  split
  next flags code =>
    simp only [ite_error_eq_ok_iff, Except.ok.injEq]
    constructor
    · rintro ⟨hflags, hcode, rfl⟩
      refine ⟨hcode, ?_⟩
      have hbit : flags = 0 ∨ flags = 1 := by
        simp only [← UInt8.toNat_inj, UInt8.reduceToNat]
        omega
      rcases hbit with rfl | rfl <;> rfl
    · rintro ⟨hcode, hbody⟩
      obtain ⟨rfl, hrest⟩ := List.cons.inj hbody
      obtain ⟨rfl, _⟩ := List.cons.inj hrest
      obtain ⟨_ | _, code⟩ := p
      · exact ⟨Nat.not_lt_zero 1, hcode, rfl⟩
      · exact ⟨Nat.lt_irrefl 1, hcode, rfl⟩
  next hother =>
    simp only [reduceCtorEq, false_iff]
    rintro ⟨_, rfl⟩
    exact hother _ _ rfl

namespace Publish

variable {p : Publish}

theorem toNat_flags (h : p.qos.toNat ≤ 2) :
    p.flags.toNat = p.dup.toNat * 8 + p.qos.toNat * 2 + p.retain.toNat := by
  have hqos : p.qos = 0 ∨ p.qos = 1 ∨ p.qos = 2 := by
    simp only [← UInt8.toNat_inj, UInt8.reduceToNat]
    omega
  unfold flags
  rcases hqos with hq | hq | hq <;> rw [hq] <;> cases p.dup <;> cases p.retain <;> rfl

theorem header_eq_ok_iff {bytes : Octets} :
    p.header = .ok bytes ↔ p.qos.toNat ≤ 2 ∧ ∃ topic, Field.ofText p.topic = .ok topic ∧
      (p.qos = 0 ∧ bytes = topic ∨
        p.qos ≠ 0 ∧ ∃ id, p.id = some id ∧ id ≠ 0 ∧ bytes = topic ++ Octets.ofUInt16 id) := by
  unfold header
  constructor
  · intro h
    obtain ⟨qos, hqos, h⟩ := exists_of_bind_eq_ok h
    obtain ⟨hle, rfl⟩ := Field.checkQos_eq_ok_iff.mp hqos
    obtain ⟨topic, htopic, h⟩ := exists_of_bind_eq_ok h
    refine ⟨hle, topic, htopic, ?_⟩
    split at h
    next hz =>
      cases h
      exact .inl ⟨hz, rfl⟩
    next hz =>
      split at h
      next => cases h
      next id hid =>
        obtain ⟨idBytes, hidBytes, h⟩ := exists_of_bind_eq_ok h
        obtain ⟨hne, rfl⟩ := Field.ofIdentifier_eq_ok_iff.mp hidBytes
        cases h
        exact .inr ⟨hz, id, hid, hne, rfl⟩
  · rintro ⟨hle, topic, htopic, hrest⟩
    rw [Field.checkQos_eq_ok_iff.mpr ⟨hle, rfl⟩, ok_bind, htopic, ok_bind]
    rcases hrest with ⟨hz, rfl⟩ | ⟨hz, id, hid, hne, rfl⟩
    · exact if_pos hz
    · rw [if_neg hz, hid]
      dsimp only
      rw [Field.ofIdentifier_eq_ok_iff.mpr ⟨hne, rfl⟩, ok_bind]
      rfl

theorem qosOfFlags_eq_ok_iff {flags : Nat} {qos : UInt8} :
    qosOfFlags flags = .ok qos ↔ qos.toNat = flags / 2 % 4 ∧ qos.toNat ≤ 2 := by
  unfold qosOfFlags
  rw [Field.checkQos_eq_ok_iff]
  have hvalue := Octets.toNat_ofNat_of_lt (n := flags / 2 % 4) (by omega)
  constructor
  · rintro ⟨hle, rfl⟩
    exact ⟨hvalue, hle⟩
  · rintro ⟨hqos, hle⟩
    rw [Octets.ofNat_eq hqos]
    exact ⟨hle, rfl⟩

/-- The three flags of a PUBLISH fill the low half of its first byte. -/
theorem eq_toNat_flags_iff {flags : Nat} (hf : flags < 16) (h : p.qos.toNat ≤ 2) :
    flags = p.flags.toNat ↔ flags.testBit 3 = p.dup ∧ p.qos.toNat = flags / 2 % 4 ∧
      flags.testBit 0 = p.retain := by
  have hd := p.dup.toNat_lt
  have hr := p.retain.toNat_lt
  rw [toNat_flags h, testBit_eq_iff, testBit_eq_iff]
  omega

/-- A PUBLISH that has no identifier at quality 0 is read off its own flags and bytes and off no
others; no other PUBLISH is read at all. -/
theorem ofBody_eq_ok_iff {flags : Nat} {body : Octets} (hf : flags < 16) :
    ofBody flags body = .ok p ↔ (p.qos = 0 → p.id = none) ∧ flags = p.flags.toNat ∧
      ∃ header, p.header = .ok header ∧ body = header ++ p.payload := by
  simp only [header_eq_ok_iff]
  unfold ofBody
  constructor
  · intro h
    obtain ⟨qos, hread, h⟩ := exists_of_bind_eq_ok h
    obtain ⟨hqos, hle⟩ := qosOfFlags_eq_ok_iff.mp hread
    obtain ⟨⟨topic, bytes⟩, htext, h⟩ := exists_of_bind_eq_ok h
    obtain ⟨topicBytes, htopic, hbody⟩ := Field.reads_text.mp htext
    dsimp only at h
    split at h
    next hz =>
      cases h
      exact ⟨fun _ => rfl, (eq_toNat_flags_iff hf hle).mpr ⟨rfl, hqos, rfl⟩, topicBytes,
        ⟨hle, topicBytes, htopic, .inl ⟨hz, rfl⟩⟩, hbody⟩
    next hz =>
      split at h
      next => cases h
      next id payload hword =>
        split at h
        next => cases h
        next hne =>
          cases h
          refine ⟨fun hq => absurd hq hz, (eq_toNat_flags_iff hf hle).mpr ⟨rfl, hqos, rfl⟩,
            topicBytes ++ Octets.ofUInt16 id,
            ⟨hle, topicBytes, htopic, .inr ⟨hz, id, rfl, hne, rfl⟩⟩, ?_⟩
          rw [hbody, Field.word_eq_ok_iff.mp hword, List.append_assoc]
  · rintro ⟨hnone, hflags, header, ⟨hle, topic, htopic, hrest⟩, rfl⟩
    obtain ⟨hdup, hqos, hretain⟩ := (eq_toNat_flags_iff hf hle).mp hflags
    rw [qosOfFlags_eq_ok_iff.mpr ⟨hqos, hle⟩, ok_bind, hdup, hretain]
    rcases hrest with ⟨hz, rfl⟩ | ⟨hz, id, hid, hne, rfl⟩
    · rw [Field.reads_text.mpr ⟨header, htopic, rfl⟩, ok_bind]
      dsimp only
      rw [if_pos hz, ← hnone hz]
      rfl
    · rw [List.append_assoc, Field.reads_text.mpr ⟨topic, htopic, rfl⟩, ok_bind]
      dsimp only
      rw [if_neg hz, Field.word_eq_ok_iff.mpr rfl]
      dsimp only
      rw [if_neg hne, ← hid]
      rfl

end Publish

namespace Subscribe

theorem reads_subscription : Field.Reads readSubscription ofSubscription := by
  intro input rest s
  unfold readSubscription ofSubscription
  constructor
  · intro h
    obtain ⟨⟨filter, bytes⟩, hread, h⟩ := exists_of_bind_eq_ok h
    dsimp only at h
    split at h
    next => cases h
    next qos tail =>
      obtain ⟨qos', hqos, h⟩ := exists_of_bind_eq_ok h
      cases h
      obtain ⟨_, rfl⟩ := Field.checkQos_eq_ok_iff.mp hqos
      obtain ⟨filterBytes, hfilter, rfl⟩ := Field.reads_text.mp hread
      refine ⟨filterBytes ++ [qos'], ?_, by simp⟩
      rw [hfilter, ok_bind, hqos, ok_bind]
      rfl
  · rintro ⟨bytes, hbytes, rfl⟩
    obtain ⟨filterBytes, hfilter, hbytes⟩ := exists_of_bind_eq_ok hbytes
    obtain ⟨qos, hqos, hbytes⟩ := exists_of_bind_eq_ok hbytes
    obtain ⟨hle, rfl⟩ := Field.checkQos_eq_ok_iff.mp hqos
    cases hbytes
    rw [List.append_assoc, Field.reads_text.mpr ⟨filterBytes, hfilter, rfl⟩, ok_bind]
    dsimp only [List.cons_append]
    rw [hqos, ok_bind]
    rfl

theorem ofSubscription_ne_nil (s : Subscription) : ofSubscription s ≠ .ok [] := by
  intro h
  obtain ⟨filterBytes, _, h⟩ := exists_of_bind_eq_ok h
  obtain ⟨qos, _, h⟩ := exists_of_bind_eq_ok h
  simp [pure, Except.pure] at h

theorem payload_eq_ok_iff {p : Subscribe} {bytes : Octets} :
    p.payload = .ok bytes ↔
      p.subscriptions ≠ [] ∧ p.subscriptions.flatMapM ofSubscription = .ok bytes := by
  unfold payload
  rw [ite_error_eq_ok_iff]

theorem ofBody_eq_ok_iff {p : Subscribe} {body : Octets} :
    ofBody body = .ok p ↔
      ∃ payload, p.payload = .ok payload ∧ body = Octets.ofUInt16 p.id ++ payload := by
  simp only [payload_eq_ok_iff]
  unfold ofBody
  constructor
  · intro h
    obtain ⟨⟨id, bytes⟩, hid, h⟩ := exists_of_bind_eq_ok h
    obtain ⟨subscriptions, hmany, h⟩ := exists_of_bind_eq_ok h
    dsimp only at h
    split at h
    next => cases h
    next hne =>
      cases h
      rw [reads_subscription.many ofSubscription_ne_nil (Nat.le_refl _)] at hmany
      exact ⟨bytes, ⟨hne, hmany⟩, PacketType.identifier_eq_ok_iff.mp hid⟩
  · rintro ⟨payload, ⟨hne, hpayload⟩, rfl⟩
    rw [PacketType.identifier_eq_ok_iff.mpr rfl, ok_bind]
    dsimp only
    rw [(reads_subscription.many ofSubscription_ne_nil (Nat.le_refl _)).mpr hpayload, ok_bind]
    exact if_neg hne

end Subscribe

namespace SubAck

theorem checkCode_eq_ok_iff {code granted : UInt8} :
    checkCode code = .ok granted ↔ (code.toNat ≤ 2 ∨ code = 128) ∧ granted = code := by
  unfold checkCode
  split
  next h => simp [h, eq_comm]
  next h => simp [h]

theorem mapM_checkCode_eq_ok_iff {codes granted : Octets} :
    codes.mapM checkCode = .ok granted ↔
      (∀ code ∈ codes, code.toNat ≤ 2 ∨ code = 128) ∧ granted = codes := by
  induction codes generalizing granted with
  | nil => simp [List.mapM_nil, pure, Except.pure, eq_comm]
  | cons code codes ih =>
    rw [List.mapM_cons]
    constructor
    · intro h
      obtain ⟨first, hfirst, h⟩ := exists_of_bind_eq_ok h
      obtain ⟨rest, hrest, h⟩ := exists_of_bind_eq_ok h
      cases h
      obtain ⟨hlegal, rfl⟩ := checkCode_eq_ok_iff.mp hfirst
      obtain ⟨hall, rfl⟩ := ih.mp hrest
      exact ⟨List.forall_mem_cons.mpr ⟨hlegal, hall⟩, rfl⟩
    · rintro ⟨hall, rfl⟩
      obtain ⟨hlegal, hall⟩ := List.forall_mem_cons.mp hall
      rw [checkCode_eq_ok_iff.mpr ⟨hlegal, rfl⟩, ok_bind, ih.mpr ⟨hall, rfl⟩]
      rfl

theorem ofBody_eq_ok_iff {p : SubAck} {body : Octets} :
    ofBody body = .ok p ↔
      ∃ codes, p.codes.mapM checkCode = .ok codes ∧ body = Octets.ofUInt16 p.id ++ codes := by
  unfold ofBody
  constructor
  · intro h
    obtain ⟨⟨id, codes⟩, hid, h⟩ := exists_of_bind_eq_ok h
    obtain ⟨granted, hgranted, h⟩ := exists_of_bind_eq_ok h
    cases h
    obtain ⟨hcodes, rfl⟩ := mapM_checkCode_eq_ok_iff.mp hgranted
    exact ⟨_, hgranted, PacketType.identifier_eq_ok_iff.mp hid⟩
  · rintro ⟨codes, hcodes, rfl⟩
    obtain ⟨_, rfl⟩ := mapM_checkCode_eq_ok_iff.mp hcodes
    rw [PacketType.identifier_eq_ok_iff.mpr rfl, ok_bind]
    dsimp only
    rw [hcodes, ok_bind]
    rfl

end SubAck

theorem Unsubscribe.ofBody_eq_ok_iff {p : Unsubscribe} {body : Octets} :
    ofBody body = .ok p ↔
      ∃ payload, p.filters.flatMapM Field.ofText = .ok payload ∧
        body = Octets.ofUInt16 p.id ++ payload := by
  unfold ofBody
  constructor
  · intro h
    obtain ⟨⟨id, bytes⟩, hid, h⟩ := exists_of_bind_eq_ok h
    obtain ⟨filters, hmany, h⟩ := exists_of_bind_eq_ok h
    cases h
    rw [Field.reads_text.many Field.ofText_ne_nil (Nat.le_refl _)] at hmany
    exact ⟨bytes, hmany, PacketType.identifier_eq_ok_iff.mp hid⟩
  · rintro ⟨payload, hpayload, rfl⟩
    rw [PacketType.identifier_eq_ok_iff.mpr rfl, ok_bind]
    dsimp only
    rw [(Field.reads_text.many Field.ofText_ne_nil (Nat.le_refl _)).mpr hpayload, ok_bind]
    rfl

end Mqtt
