import Mqtt.Packet.Decode
import Mqtt.Proofs.Outcome

/-! Whatever bytes are bad, they are bad by a rule of the format: no reader blames the library. -/
namespace Mqtt

/-- A result that is no fault of the library itself. -/
def Blameless {α : Type} (x : Except PacketError α) : Prop :=
  ∀ text, x ≠ .error (.internal text)

section Combinators

variable {α β : Type} {x : Except PacketError α}

@[simp] theorem blameless_ok (a : α) : Blameless (.ok a : Except PacketError α) := by
  intro text h
  cases h

@[simp] theorem blameless_error_iff {e : PacketError} :
    Blameless (.error e : Except PacketError α) ↔ ∀ text, e ≠ .internal text := by
  simp [Blameless]

@[simp] theorem blameless_pure (a : α) : Blameless (pure a : Except PacketError α) :=
  blameless_ok a

@[simp] theorem blameless_throw_iff {e : PacketError} :
    Blameless (throw e : Except PacketError α) ↔ ∀ text, e ≠ .internal text :=
  blameless_error_iff

theorem Blameless.bind {f : α → Except PacketError β} (hx : Blameless x)
    (hf : ∀ a, Blameless (f a)) : Blameless (x >>= f) := by
  cases x with
  | error e => simpa [bind, Except.bind] using hx
  | ok a => exact hf a

@[simp] theorem blameless_map_iff {f : α → β} : Blameless (x.map f) ↔ Blameless x := by
  cases x <;> simp [Except.map]

@[simp] theorem blameless_functor_iff {f : α → β} : Blameless (f <$> x) ↔ Blameless x :=
  blameless_map_iff

@[simp] theorem blameless_ite_iff {c : Prop} [Decidable c] {y : Except PacketError α} :
    Blameless (if c then x else y) ↔ (c → Blameless x) ∧ (¬ c → Blameless y) := by
  by_cases hc : c <;> simp [hc]

end Combinators

namespace Field

theorem blameless_word (bytes : Octets) : Blameless (word bytes) := by
  unfold word
  split <;> simp

theorem blameless_byte (bytes : Octets) : Blameless (byte bytes) := by
  unfold byte
  split <;> simp

theorem blameless_binary (bytes : Octets) : Blameless (binary bytes) := by
  refine (blameless_word bytes).bind fun taken => ?_
  simp

theorem blameless_text (bytes : Octets) : Blameless (text bytes) := by
  refine (blameless_binary bytes).bind fun taken => ?_
  dsimp only
  split <;> simp

theorem blameless_checkQos (qos : UInt8) : Blameless (checkQos qos) := by
  simp [checkQos]

theorem blameless_optional {α : Type} {field : Octets → Except PacketError (α × Octets)}
    (hfield : ∀ bytes, Blameless (field bytes)) (present : Bool) (bytes : Octets) :
    Blameless (optional present field bytes) := by
  simp [optional, hfield]

theorem blameless_many {α : Type} {item : Octets → Except PacketError (α × Octets)}
    (hitem : ∀ bytes, Blameless (item bytes)) (fuel : Nat) (bytes : Octets) :
    Blameless (many item fuel bytes) := by
  induction fuel generalizing bytes with
  | zero => cases bytes <;> simp [many]
  | succ fuel ih =>
    cases bytes with
    | nil => simp [many]
    | cons b bytes =>
      unfold many
      have hfirst := hitem (b :: bytes)
      split
      next e he =>
        rw [he] at hfirst
        simpa using hfirst
      next value rest _ => simpa using ih rest

end Field

namespace Connect

theorem blameless_checkProtocol (name : String) (version : UInt8) :
    Blameless (checkProtocol name version) := by
  simp [checkProtocol]

theorem blameless_checkFlags (flags : Nat) : Blameless (checkFlags flags) := by
  simp [checkFlags]

theorem blameless_readWill (flags : Nat) (bytes : Octets) : Blameless (readWill flags bytes) := by
  refine (Field.blameless_text bytes).bind fun topic => ?_
  refine (Field.blameless_binary topic.2).bind fun message => ?_
  exact (Field.blameless_checkQos _).bind fun qos => blameless_pure _

theorem blameless_ofBody (body : Octets) : Blameless (ofBody body) := by
  refine (Field.blameless_text body).bind fun name => ?_
  refine (Field.blameless_byte name.2).bind fun version => ?_
  refine (blameless_checkProtocol name.1 version.1).bind fun _ => ?_
  refine (Field.blameless_byte version.2).bind fun flagByte => ?_
  refine (blameless_checkFlags flagByte.1.toNat).bind fun _ => ?_
  refine (Field.blameless_word flagByte.2).bind fun keepAlive => ?_
  refine (Field.blameless_text keepAlive.2).bind fun clientId => ?_
  refine (Field.blameless_optional (blameless_readWill _) _ clientId.2).bind fun will => ?_
  refine (Field.blameless_optional Field.blameless_text _ will.2).bind fun username => ?_
  refine (Field.blameless_optional Field.blameless_binary _ username.2).bind fun password => ?_
  simp

end Connect

theorem ConnAck.blameless_ofBody (body : Octets) : Blameless (ofBody body) := by
  unfold ofBody
  split <;> simp

theorem Publish.blameless_qosOfFlags (flags : Nat) : Blameless (qosOfFlags flags) :=
  Field.blameless_checkQos _

theorem Publish.blameless_ofBody (flags : Nat) (body : Octets) : Blameless (ofBody flags body) := by
  refine (blameless_qosOfFlags flags).bind fun qos => ?_
  refine (Field.blameless_text body).bind fun topic => ?_
  dsimp only
  rw [blameless_ite_iff]
  refine ⟨fun _ => blameless_pure _, fun _ => ?_⟩
  split <;> simp

namespace PacketType

theorem blameless_identifier (type : PacketType) (body : Octets) :
    Blameless (type.identifier body) := by
  unfold identifier
  split <;> simp

theorem blameless_onlyIdentifier (type : PacketType) (body : Octets) :
    Blameless (type.onlyIdentifier body) := by
  unfold onlyIdentifier
  split <;> simp

theorem blameless_noBody (type : PacketType) (body : Octets) : Blameless (type.noBody body) := by
  unfold noBody
  split <;> simp

end PacketType

namespace Subscribe

theorem blameless_readSubscription (bytes : Octets) : Blameless (readSubscription bytes) := by
  refine (Field.blameless_text bytes).bind fun filter => ?_
  dsimp only
  split
  · simp
  · exact (Field.blameless_checkQos _).bind fun qos => blameless_pure _

theorem blameless_ofBody (body : Octets) : Blameless (ofBody body) := by
  refine (PacketType.blameless_identifier _ body).bind fun id => ?_
  refine (Field.blameless_many blameless_readSubscription _ id.2).bind fun subscriptions => ?_
  simp

end Subscribe

theorem SubAck.blameless_checkCode (code : UInt8) : Blameless (checkCode code) := by
  simp [checkCode]

theorem SubAck.blameless_ofBody (body : Octets) : Blameless (ofBody body) := by
  refine (PacketType.blameless_identifier _ body).bind fun id => ?_
  refine Blameless.bind ?_ fun codes => blameless_pure _
  induction id.2 with
  | nil => exact blameless_pure []
  | cons code codes ih =>
    rw [List.mapM_cons]
    refine (blameless_checkCode code).bind fun first => ?_
    exact ih.bind fun rest => blameless_pure _

theorem Unsubscribe.blameless_ofBody (body : Octets) : Blameless (ofBody body) := by
  refine (PacketType.blameless_identifier _ body).bind fun id => ?_
  exact (Field.blameless_many Field.blameless_text _ id.2).bind fun filters => blameless_pure _

theorem LengthReader.blameless_push (r : LengthReader) (b : UInt8) : Blameless (r.push b) := by
  simp [push]

theorem LengthReader.blameless_read (r : LengthReader) (bytes : Octets) :
    Blameless (r.read bytes) := by
  induction bytes generalizing r with
  | nil => simp [read]
  | cons b bytes ih =>
    unfold read
    have hpush := r.blameless_push b
    split
    next e he =>
      rw [he] at hpush
      simpa using hpush
    next => simp
    next r' _ => exact ih r'

theorem FixedHeader.blameless_read (bytes : Octets) : Blameless (read bytes) := by
  unfold read
  split
  · simp
  next first rest =>
    have hlength : Blameless (RemainingLength.decode rest) := by
      cases rest with
      | nil => simp [RemainingLength.decode]
      | cons b rest => exact LengthReader.blameless_read {} (b :: rest)
    split
    · simp
    · simp
    next e _ _ he =>
      rw [he] at hlength
      simpa using hlength
    · simp

namespace Packet

theorem blameless_ofBody (type : PacketType) (flags : Nat) (body : Octets) :
    Blameless (ofBody type flags body) := by
  cases type with
  | connect => simpa [ofBody] using Connect.blameless_ofBody body
  | connAck => simpa [ofBody] using ConnAck.blameless_ofBody body
  | publish => simpa [ofBody] using Publish.blameless_ofBody flags body
  | subscribe => simpa [ofBody] using Subscribe.blameless_ofBody body
  | subAck => simpa [ofBody] using SubAck.blameless_ofBody body
  | unsubscribe => simpa [ofBody] using Unsubscribe.blameless_ofBody body
  | pingReq | pingResp | disconnect =>
    simpa [ofBody] using PacketType.blameless_noBody _ body
  | pubAck | pubRec | pubRel | pubComp | unsubAck =>
    simpa [ofBody] using PacketType.blameless_onlyIdentifier _ body

theorem blameless_checkFirst (type : PacketType) (bytes : Octets) :
    Blameless (checkFirst type bytes) := by
  unfold checkFirst
  split <;> simp [Publish.blameless_qosOfFlags]

theorem blameless_checkFlags (type : PacketType) (flags : Nat) :
    Blameless (checkFlags type flags) := by
  simp [checkFlags]

theorem blameless_decodeAs (type : PacketType) (bytes : Octets) :
    Blameless (decodeAs type bytes) := by
  refine (blameless_checkFirst type bytes).bind fun _ => ?_
  refine (FixedHeader.blameless_read bytes).bind fun header => ?_
  cases header with
  | none => simp
  | some header =>
    refine (blameless_checkFlags type header.flags).bind fun _ => ?_
    exact (blameless_ofBody type header.flags _).bind fun packet => blameless_pure _

theorem blameless_decode (bytes : Octets) : Blameless (decode bytes) := by
  have hcode : Blameless (leadingCode bytes) := by cases bytes <;> simp [leadingCode]
  refine hcode.bind fun code => ?_
  cases PacketType.ofCode? code with
  | none => simp
  | some type => exact blameless_decodeAs type bytes

end Packet
end Mqtt
