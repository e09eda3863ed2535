import Mqtt.Proofs.Field

/-!
A CONNECT is read off exactly the body that it is written as. Its flag byte says which optional
fields follow, and nothing in it is free.
-/
namespace Mqtt

def Will.fields (w : Will) : Except PacketError Octets := do
  let topic ← Field.ofText w.topic
  return topic ++ (← Field.ofBinary w.message)

/-- The flag byte says what a will does not spell out in its fields. -/
structure Will.Flagged (w : Will) (flags : Nat) : Prop where
  retain : w.retain = flags.testBit 5
  qos : w.qos.toNat = flags / 8 % 4
  qos_le : w.qos.toNat ≤ 2

namespace Connect

variable {p : Connect} {bytes rest : Octets} {flag : UInt8}

/-! The flag byte. -/

theorem bit_eq (value : Bool) (weight : Nat) : bit value weight = value.toNat * weight := by
  cases value <;> simp [bit]

theorem checkFlags_eq_ok_iff {flags : Nat} :
    checkFlags flags = .ok () ↔ flags % 2 = 0 ∧ (flags / 4 % 2 = 0 → flags / 8 % 8 = 0) ∧
      (flags / 64 % 2 = 1 → flags / 128 % 2 = 1) := by
  have hreserved : flags % 2 = 0 ↔ ¬ flags % 2 = 1 := by omega
  have hwill : flags / 4 % 2 = 0 ↔ ¬ flags / 4 % 2 = 1 := by omega
  have hdetails : flags / 8 % 8 = 0 ↔
      ¬ flags / 8 % 2 = 1 ∧ ¬ flags / 16 % 2 = 1 ∧ ¬ flags / 32 % 2 = 1 := by omega
  unfold checkFlags
  rw [hreserved, hwill, hdetails]
  simp only [ite_error_eq_ok_iff, Nat.testBit_eq_decide_div_mod_eq, Bool.and_eq_true,
    Bool.or_eq_true, Bool.not_eq_true', decide_eq_true_eq, decide_eq_false_iff_not, Nat.reducePow,
    Nat.div_one]
  grind

theorem flags_eq_ok_iff_of_none (h : p.will = none) :
    p.flags = .ok flag ↔ flag.toNat = p.cleanSession.toNat * 2 + p.username.isSome.toNat * 128 +
      p.password.isSome.toNat * 64 := by
  have hc := p.cleanSession.toNat_le
  have hu := p.username.isSome.toNat_le
  have hp := p.password.isSome.toNat_le
  unfold flags
  simp only [h, bit_eq, pure_bind]
  change Except.ok _ = Except.ok flag ↔ _
  rw [Except.ok.injEq, Octets.ofNat_eq_iff (by omega)]
  omega

theorem flags_eq_ok_iff_of_some {w : Will} (h : p.will = some w) :
    p.flags = .ok flag ↔ w.qos.toNat ≤ 2 ∧
      flag.toNat = p.cleanSession.toNat * 2 + 4 + w.qos.toNat * 8 + w.retain.toNat * 32 +
        p.username.isSome.toNat * 128 + p.password.isSome.toNat * 64 := by
  have hc := p.cleanSession.toNat_le
  have hr := w.retain.toNat_le
  have hu := p.username.isSome.toNat_le
  have hp := p.password.isSome.toNat_le
  unfold flags
  simp only [h, bit_eq]
  constructor
  · intro hflag
    obtain ⟨qos, hqos, hflag⟩ := exists_of_bind_eq_ok hflag
    obtain ⟨hle, rfl⟩ := Field.checkQos_eq_ok_iff.mp hqos
    have hflag := (Octets.ofNat_eq_iff (by omega)).mp (Except.ok.inj hflag)
    exact ⟨hle, by omega⟩
  · rintro ⟨hle, hflag⟩
    rw [Field.checkQos_eq_ok_iff.mpr ⟨hle, rfl⟩]
    simp only [ok_bind, pure_bind]
    exact congrArg Except.ok ((Octets.ofNat_eq_iff (by omega)).mpr (by omega))

/-- The flag byte announces the fields of the packet, and no more. -/
structure Announced (p : Connect) (flags : Nat) : Prop where
  legal : checkFlags flags = .ok ()
  cleanSession : flags.testBit 1 = p.cleanSession
  will : flags.testBit 2 = p.will.isSome
  flagged : ∀ w, p.will = some w → w.Flagged flags
  username : flags.testBit 7 = p.username.isSome
  password : flags.testBit 6 = p.password.isSome

/-- Every bit of a flag byte has its meaning. -/
theorem eq_sum_bits {n : Nat} (h : n < 256) :
    n = n % 2 + n / 2 % 2 * 2 + n / 4 % 2 * 4 + n / 8 % 4 * 8 + n / 32 % 2 * 32 +
      n / 64 % 2 * 64 + n / 128 % 2 * 128 := by
  omega

theorem Announced.flags_eq (h : p.Announced flag.toNat) : p.flags = .ok flag := by
  have hsum := eq_sum_bits flag.toNat_lt
  obtain ⟨hreserved, hdetails, _⟩ := checkFlags_eq_ok_iff.mp h.legal
  have hc := testBit_eq_iff.mp h.cleanSession
  have hw := testBit_eq_iff.mp h.will
  have hu := testBit_eq_iff.mp h.username
  have hp := testBit_eq_iff.mp h.password
  simp only [Nat.reducePow] at hc hw hu hp
  cases hwill : p.will with
  | none =>
    rw [hwill] at hw
    have hnone : flag.toNat / 8 % 4 = 0 ∧ flag.toNat / 32 % 2 = 0 := by
      have hzero := hdetails hw
      omega
    rw [hreserved, hc, hw, hnone.1, hnone.2, hp, hu] at hsum
    rw [flags_eq_ok_iff_of_none hwill, hsum]
    simp [Nat.add_right_comm]
  | some w =>
    rw [hwill] at hw
    obtain ⟨hr, hq, hle⟩ := h.flagged w hwill
    have hr := testBit_eq_iff.mp hr.symm
    simp only [Nat.reducePow] at hr
    rw [hreserved, hc, hw, ← hq, hr, hp, hu] at hsum
    rw [flags_eq_ok_iff_of_some hwill, hsum]
    exact ⟨hle, by simp [Nat.add_right_comm]⟩

theorem Announced.username_of_password (h : p.Announced flag.toNat) :
    p.password.isSome → p.username.isSome := by
  obtain ⟨_, _, hpair⟩ := checkFlags_eq_ok_iff.mp h.legal
  have hu := testBit_eq_iff.mp h.username
  have hp := testBit_eq_iff.mp h.password
  simp only [Nat.reducePow] at hu hp
  intro hsome
  rw [hsome] at hp
  simpa using hu.symm.trans (hpair hp)

theorem announced_of_flags_eq (hp : p.password.isSome → p.username.isSome)
    (h : p.flags = .ok flag) : p.Announced flag.toNat := by
  have hc := p.cleanSession.toNat_lt
  have hu := p.username.isSome.toNat_lt
  have hs := p.password.isSome.toNat_lt
  have hpair : p.password.isSome.toNat = 1 → p.username.isSome.toNat = 1 := by
    simpa using hp
  cases hwill : p.will with
  | none =>
    have hflag := (flags_eq_ok_iff_of_none hwill).mp h
    constructor
    · rw [checkFlags_eq_ok_iff]
      omega
    · exact testBit_eq_iff.mpr (by omega)
    · exact testBit_eq_iff.mpr (by simp [hwill]; omega)
    · simp [hwill]
    · exact testBit_eq_iff.mpr (by omega)
    · exact testBit_eq_iff.mpr (by omega)
  | some w =>
    obtain ⟨hq, hflag⟩ := (flags_eq_ok_iff_of_some hwill).mp h
    have hr := w.retain.toNat_lt
    constructor
    · rw [checkFlags_eq_ok_iff]
      omega
    · exact testBit_eq_iff.mpr (by omega)
    · exact testBit_eq_iff.mpr (by simp [hwill]; omega)
    · intro w' hw'
      obtain rfl : w = w' := Option.some.inj (hwill.symm.trans hw')
      exact ⟨(testBit_eq_iff.mpr (by omega)).symm, by omega, hq⟩
    · exact testBit_eq_iff.mpr (by omega)
    · exact testBit_eq_iff.mpr (by omega)

/-! The fields. -/

theorem reads_will {flags : Nat} {input : Octets} {w : Will} :
    readWill flags input = .ok (w, rest) ↔
      w.Flagged flags ∧ ∃ bytes, w.fields = .ok bytes ∧ input = bytes ++ rest := by
  unfold readWill Will.fields
  constructor
  · intro h
    obtain ⟨⟨topic, tail⟩, hread, h⟩ := exists_of_bind_eq_ok h
    obtain ⟨⟨message, tail'⟩, hread', h⟩ := exists_of_bind_eq_ok h
    obtain ⟨qos, hqos, h⟩ := exists_of_bind_eq_ok h
    obtain ⟨hle, rfl⟩ := Field.checkQos_eq_ok_iff.mp hqos
    cases h
    obtain ⟨topicBytes, htopic, rfl⟩ := Field.reads_text.mp hread
    obtain ⟨messageBytes, hmessage, rfl⟩ := Field.reads_binary.mp hread'
    refine ⟨⟨rfl, Octets.toNat_ofNat_of_lt (by omega), hle⟩, topicBytes ++ messageBytes, ?_, ?_⟩
    · rw [htopic, ok_bind, hmessage, ok_bind]
      rfl
    · rw [List.append_assoc]
  · rintro ⟨⟨hretain, hqos, hle⟩, bytes, hbytes, rfl⟩
    obtain ⟨topicBytes, htopic, hbytes⟩ := exists_of_bind_eq_ok hbytes
    obtain ⟨messageBytes, hmessage, hbytes⟩ := exists_of_bind_eq_ok hbytes
    cases hbytes
    have hq : UInt8.ofNat (flags / 8 % 4) = w.qos := Octets.ofNat_eq hqos
    rw [List.append_assoc, Field.reads_text.mpr ⟨_, htopic, rfl⟩, ok_bind]
    dsimp only
    rw [Field.reads_binary.mpr ⟨_, hmessage, rfl⟩, ok_bind]
    dsimp only
    rw [hq, Field.checkQos_eq_ok_iff.mpr ⟨hle, rfl⟩, ok_bind, ← hretain]
    rfl

theorem optional_will_iff {flags : Nat} {input : Octets} {will : Option Will} :
    Field.optional (flags.testBit 2) (readWill flags) input = .ok (will, rest) ↔
      flags.testBit 2 = will.isSome ∧ (∀ w, will = some w → w.Flagged flags) ∧
        ∃ bytes, Field.ofOption Will.fields will = .ok bytes ∧ input = bytes ++ rest := by
  rw [Field.optional_eq_ok_iff]
  cases will with
  | none => simp [Field.ofOption]
  | some w => simp [Field.ofOption, reads_will]

theorem protocolName_eq_ok_iff {name : String} {version : UInt8} :
    protocolName version = .ok name ↔
      version = 4 ∧ name = "MQTT" ∨ version = 3 ∧ name = "MQIsdp" := by
  simp only [← UInt8.toNat_inj]
  unfold protocolName
  split
  next h => simp [h, eq_comm]
  next h => simp [h, eq_comm]
  next h3 h4 =>
    simp only [reduceCtorEq, false_iff]
    rintro (⟨h, _⟩ | ⟨h, _⟩)
    · exact h4 h
    · exact h3 h

/-- The name and the level of a CONNECT decide each other. -/
theorem checkProtocol_eq_ok_iff {name : String} {version : UInt8} :
    checkProtocol name version = .ok () ↔ protocolName version = .ok name := by
  rw [protocolName_eq_ok_iff]
  unfold checkProtocol
  split
  next h => simp [h]
  next h =>
    split
    next h' => simp [h']
    next h' => simp [h, h']

theorem header_eq_ok_iff :
    p.header = .ok bytes ↔ ∃ name nameBytes flag, protocolName p.version = .ok name ∧
      Field.ofText name = .ok nameBytes ∧ p.flags = .ok flag ∧
      bytes = nameBytes ++ p.version :: flag :: Octets.ofUInt16 p.keepAlive := by
  unfold header
  constructor
  · intro h
    obtain ⟨name, hname, h⟩ := exists_of_bind_eq_ok h
    obtain ⟨nameBytes, hbytes, h⟩ := exists_of_bind_eq_ok h
    obtain ⟨flag, hflag, h⟩ := exists_of_bind_eq_ok h
    cases h
    exact ⟨name, nameBytes, flag, hname, hbytes, hflag, rfl⟩
  · rintro ⟨name, nameBytes, flag, hname, hbytes, hflag, rfl⟩
    rw [hname, ok_bind, hbytes, ok_bind, hflag, ok_bind]
    rfl

theorem payload_eq (p : Connect) : p.payload = do
    let clientId ← Field.ofText p.clientId
    let will ← Field.ofOption Will.fields p.will
    let username ← Field.ofOption Field.ofText p.username
    let password ← Field.ofOption Field.ofBinary p.password
    return clientId ++ will ++ username ++ password := by
  unfold payload
  cases p.will <;> cases p.username <;> cases p.password <;>
    simp only [Will.fields, Field.ofOption, bind_assoc, pure_bind, ok_bind]

/-- A CONNECT that is read could be written: its fields and its flag byte are those of the body. -/
theorem exists_of_ofBody {body : Octets} (h : ofBody body = .ok p) :
    (p.password.isSome → p.username.isSome) ∧
      ∃ header payload, p.header = .ok header ∧ p.payload = .ok payload ∧
        body = header ++ payload := by
  unfold ofBody at h
  obtain ⟨⟨name, bytes⟩, hname, h⟩ := exists_of_bind_eq_ok h
  obtain ⟨⟨version, bytes'⟩, hversion, h⟩ := exists_of_bind_eq_ok h
  obtain ⟨_, hprotocol, h⟩ := exists_of_bind_eq_ok h
  obtain ⟨⟨flag, bytes''⟩, hflag, h⟩ := exists_of_bind_eq_ok h
  obtain ⟨_, hlegal, h⟩ := exists_of_bind_eq_ok h
  obtain ⟨⟨keepAlive, bytes3⟩, hkeepAlive, h⟩ := exists_of_bind_eq_ok h
  obtain ⟨⟨clientId, bytes4⟩, hclientId, h⟩ := exists_of_bind_eq_ok h
  obtain ⟨⟨will, bytes5⟩, hwill, h⟩ := exists_of_bind_eq_ok h
  obtain ⟨⟨username, bytes6⟩, husername, h⟩ := exists_of_bind_eq_ok h
  obtain ⟨⟨password, bytes7⟩, hpassword, h⟩ := exists_of_bind_eq_ok h
  dsimp only at h
  split at h
  next => cases h
  next hend =>
    obtain rfl := Decidable.not_not.mp hend
    cases h
    -- what each reader takes stands in front of what the next one is given
    obtain ⟨nameBytes, hnameBytes, rfl⟩ := Field.reads_text.mp hname
    obtain rfl := Field.byte_eq_ok_iff.mp hversion
    obtain rfl := Field.byte_eq_ok_iff.mp hflag
    obtain rfl := Field.word_eq_ok_iff.mp hkeepAlive
    obtain ⟨clientBytes, hclientBytes, rfl⟩ := Field.reads_text.mp hclientId
    obtain ⟨hwillBit, hflagged, willBytes, hwillBytes, rfl⟩ := optional_will_iff.mp hwill
    obtain ⟨hnameBit, userBytes, huserBytes, rfl⟩ := Field.reads_text.optional.mp husername
    obtain ⟨hpassBit, passBytes, hpassBytes, rfl⟩ := Field.reads_binary.optional.mp hpassword
    have ha : Announced ⟨version, flag.toNat.testBit 1, keepAlive, clientId, will, username,
        password⟩ flag.toNat := ⟨hlegal, rfl, hwillBit, hflagged, hnameBit, hpassBit⟩
    have hheader := header_eq_ok_iff.mpr ⟨name, nameBytes, flag,
      checkProtocol_eq_ok_iff.mp hprotocol, hnameBytes, ha.flags_eq, rfl⟩
    refine ⟨ha.username_of_password, _, clientBytes ++ willBytes ++ userBytes ++ passBytes,
      hheader, ?_, by simp⟩
    rw [payload_eq]
    simp only [hclientBytes, hwillBytes, huserBytes, hpassBytes, ok_bind]
    rfl

theorem ofBody_append (hpair : p.password.isSome → p.username.isSome) {header payload : Octets}
    (hheader : p.header = .ok header) (hpayload : p.payload = .ok payload) :
    ofBody (header ++ payload) = .ok p := by
  obtain ⟨name, nameBytes, flag, hname, hbytes, hflag, rfl⟩ := header_eq_ok_iff.mp hheader
  rw [payload_eq] at hpayload
  obtain ⟨clientId, hclientId, hpayload⟩ := exists_of_bind_eq_ok hpayload
  obtain ⟨will, hwill, hpayload⟩ := exists_of_bind_eq_ok hpayload
  obtain ⟨username, husername, hpayload⟩ := exists_of_bind_eq_ok hpayload
  obtain ⟨password, hpassword, hpayload⟩ := exists_of_bind_eq_ok hpayload
  cases hpayload
  have ha := announced_of_flags_eq hpair hflag
  have hread : Field.text (nameBytes ++ p.version :: flag :: Octets.ofUInt16 p.keepAlive ++
      (clientId ++ will ++ username ++ password)) = .ok (name, p.version :: flag ::
        (Octets.ofUInt16 p.keepAlive ++ (clientId ++ (will ++ (username ++ (password ++ [])))))) :=
    Field.reads_text.mpr ⟨nameBytes, hbytes, by simp⟩
  unfold ofBody
  rw [hread, ok_bind]
  dsimp only [Field.byte, ok_bind]
  rw [checkProtocol_eq_ok_iff.mpr hname]
  dsimp only [Field.byte, ok_bind]
  rw [ha.legal]
  dsimp only [ok_bind]
  rw [Field.word_eq_ok_iff.mpr rfl]
  dsimp only [ok_bind]
  rw [Field.reads_text.mpr ⟨clientId, hclientId, rfl⟩]
  dsimp only [ok_bind]
  rw [optional_will_iff.mpr ⟨ha.will, ha.flagged, will, hwill, rfl⟩]
  dsimp only [ok_bind]
  rw [Field.reads_text.optional.mpr ⟨ha.username, username, husername, rfl⟩]
  dsimp only [ok_bind]
  rw [Field.reads_binary.optional.mpr ⟨ha.password, password, hpassword, rfl⟩]
  dsimp only [ok_bind]
  rw [if_neg (by simp), ha.cleanSession]
  rfl

/-- A CONNECT whose password has a user name is read off its own bytes and off no others; no other
CONNECT is read at all. -/
theorem ofBody_eq_ok_iff {body : Octets} :
    ofBody body = .ok p ↔ (p.password.isSome → p.username.isSome) ∧
      ∃ header payload, p.header = .ok header ∧ p.payload = .ok payload ∧
        body = header ++ payload := by
  refine ⟨exists_of_ofBody, ?_⟩
  rintro ⟨hpair, header, payload, hheader, hpayload, rfl⟩
  exact ofBody_append hpair hheader hpayload

end Connect
end Mqtt
