import Mqtt.Proofs.Walk
import Mqtt.Proofs.Packet.Frame

/-!
No reader leaves its packet: a walk over a buffer comes out as reading the packet's bytes does, and
all that it looks at lies in the packet.
-/
namespace Mqtt

open Walk

theorem Field.word_cases (bytes : Octets) :
    bytes.length < 2 ∧ word bytes = .error .bufferTooShort ∨
      2 ≤ bytes.length ∧ ∃ r, word bytes = .ok r := by
  match bytes with
  | [] => exact .inl ⟨Nat.zero_lt_two, rfl⟩
  | [_] => exact .inl ⟨Nat.one_lt_two, rfl⟩
  | _ :: _ :: rest => exact .inr ⟨Nat.le_add_left 2 rest.length, _, rfl⟩

theorem Field.many_cons {α : Type} (item : Octets → Except PacketError (α × Octets)) (fuel : Nat)
    (b : UInt8) (tail : Octets) :
    many item (fuel + 1) (b :: tail) =
      item (b :: tail) >>= fun r => (many item fuel r.2).map (r.1 :: ·) := by
  rw [many]
  · cases item (b :: tail) <;> rfl
  · exact List.cons_ne_nil b tail

namespace Part

/-- The walk comes to an offset behind the one it set out from and in the frame, with a value; what
is left of the frame there is left to the other reader. -/
def Passed {α : Type} (frame : Octets) (offset : Nat) : α × Nat → α × Octets → Prop
  | (a, next), (b, rest) => a = b ∧ offset < next ∧ next ≤ frame.length ∧ rest = frame.drop next

/-- The same where nothing need have been read. -/
def Reached {α : Type} (frame : Octets) : α × Nat → α × Octets → Prop
  | (a, next), (b, rest) => a = b ∧ next ≤ frame.length ∧ rest = frame.drop next

variable {α : Type} {p : Part} {read : Part → Walk (α × Nat)}
  {item : Octets → Except PacketError (α × Octets)} {reach offset stop size : Nat}

theorem front_follows (hstop : stop ≤ p.length) (hreach : p.start + stop ≤ reach) :
    (p.between 0 stop).Follows reach Eq (.ok ⟨p.start, p.bytes.take stop⟩) :=
  between_follows (Nat.zero_le stop) hstop hreach

/-- All bytes from an offset to the end of a frame. -/
theorem rest_follows {β γ : Type} {S : β → γ → Prop} {f : Octets → Walk β}
    {x : Except PacketError γ} (hle : offset ≤ stop) (hstop : stop ≤ p.length)
    (hreach : p.start + stop ≤ reach) (hf : (f ((p.bytes.take stop).drop offset)).Follows reach S x) :
    (p.between offset stop >>= fun rest => rest.all >>= f).Follows reach S x := by
  refine .step (between_follows hle hstop hreach) (.step (all_follows ?_) hf)
  simp only [length, List.length_drop, List.length_take]
  omega

/-- A field somewhere in a part, on the whole of which it may be read. -/
theorem Reader.shift (hread : Reader read item) {q : Part} {frame : Octets}
    (hq : q = ⟨p.start + offset, frame.drop offset⟩) (hle : offset ≤ frame.length)
    (hreach : p.start + frame.length ≤ reach) :
    (do let (value, size) ← read q; return (value, offset + size) : Walk (α × Nat)).Follows reach
      (Passed frame offset) (item (frame.drop offset)) := by
  subst hq
  refine .after (hread _ ?_) ?_
  · simp only [length, List.length_drop]
    omega
  · rintro ⟨value, size⟩ ⟨_, rest⟩ ⟨rfl, htwo, hsize, rfl⟩
    simp only [length, List.length_drop] at hsize
    exact .pure ⟨rfl, by omega, by omega, List.drop_drop⟩

theorem length_frame (hstop : stop ≤ p.length) : (p.bytes.take stop).length = stop :=
  List.length_take_of_le hstop

theorem Reader.fieldIn (hread : Reader read item) (hle : offset ≤ stop) (hstop : stop ≤ p.length)
    (hreach : p.start + stop ≤ reach) :
    (p.fieldIn offset stop read).Follows reach (Passed (p.bytes.take stop) offset)
      (item ((p.bytes.take stop).drop offset)) := by
  have hlen := length_frame hstop
  exact .step (between_follows hle hstop hreach) (hread.shift rfl (by omega) (by omega))

theorem Reader.field (hread : Reader read item) (hle : offset ≤ p.length)
    (hreach : p.start + p.length ≤ reach) :
    (p.field offset read).Follows reach (Passed p.bytes offset) (item (p.bytes.drop offset)) :=
  .step (onward_follows hle (by omega)) (hread.shift rfl hle hreach)

theorem byteOr_of_drop_eq_nil (hnil : p.bytes.drop offset = []) (e : PacketError) :
    p.byteOr offset e = .fail e :=
  if_neg (Nat.not_lt.mpr (List.drop_eq_nil_iff.mp hnil))

theorem byteOr_of_drop_eq_cons {b : UInt8} {rest : Octets} (hcons : p.bytes.drop offset = b :: rest)
    (hreach : p.start + p.length ≤ reach) (e : PacketError) :
    (p.byteOr offset e).Follows reach Eq (.ok b) ∧ offset < p.length ∧
      rest = p.bytes.drop (offset + 1) := by
  have hlt : offset < p.length := by
    refine Nat.lt_of_not_le fun hge => ?_
    rw [List.drop_eq_nil_of_le hge] at hcons
    cases hcons
  have hbyte : p.bytes[offset]? = some b := by
    rw [← Nat.add_zero offset, ← List.getElem?_drop, hcons]
    rfl
  refine ⟨?_, hlt, ?_⟩
  · rw [byteOr, if_pos hlt]
    exact byte_follows hbyte (by omega)
  · rw [← List.drop_drop, hcons]
    rfl

theorem byteOr_follows (hreach : p.start + p.length ≤ reach) :
    (p.byteOr offset .bufferTooShort).Follows reach
      (fun b r => b = r.1 ∧ offset < p.length ∧ r.2 = p.bytes.drop (offset + 1))
      (Field.byte (p.bytes.drop offset)) := by
  cases hdrop : p.bytes.drop offset with
  | nil =>
    rw [byteOr_of_drop_eq_nil hdrop]
    exact .fail _
  | cons b rest =>
    obtain ⟨hbyte, hbehind⟩ := byteOr_of_drop_eq_cons hdrop hreach .bufferTooShort
    exact hbyte.relate ⟨rfl, hbehind⟩

/-- A loop goes on as long as there are bytes, each time a step further, and ends with the frame. -/
theorem many_follows {step : Nat → Walk (α × Nat)} {frame : Octets} {fuel : Nat}
    (hlen : frame.length = stop)
    (hstep : ∀ offset, offset < stop →
      (step offset).Follows reach (Passed frame offset) (item (frame.drop offset)))
    (hle : offset ≤ stop) (hfuel : stop - offset ≤ fuel) :
    (many step stop offset).Follows reach Eq (Field.many item fuel (frame.drop offset)) := by
  subst hlen
  induction fuel generalizing offset with
  | zero =>
    unfold many
    rw [dif_neg (by omega), List.drop_eq_nil_of_le (by omega)]
    exact .pure rfl
  | succ fuel ih =>
    unfold many
    split
    next hlt =>
      have hfield := hstep offset hlt
      rw [List.drop_eq_getElem_cons hlt] at hfield ⊢
      rw [Field.many_cons]
      refine .bind hfield ?_
      rintro ⟨value, next⟩ ⟨_, rest⟩ ⟨rfl, hmore, hnext, rfl⟩
      dsimp only
      rw [dif_pos (And.intro hmore hnext)]
      exact (ih hnext (by omega)).map fun _ _ h => h ▸ rfl
    next hge =>
      rw [List.drop_eq_nil_of_le (by omega)]
      exact .pure rfl

/-! The bodies. -/

theorem publishIdentifier_follows {r : UInt16 × Octets}
    (hword : Field.word ((p.bytes.take stop).drop offset) = .ok r) (hle : offset + 2 ≤ stop)
    (hstop : stop ≤ p.length) (hreach : p.start + stop ≤ reach) :
    (p.publishIdentifier offset stop).Follows reach (Passed (p.bytes.take stop) offset)
      (if r.1 = 0 then .error .zeroIdentifier else .ok r) := by
  unfold publishIdentifier
  rw [if_neg (by omega)]
  have hid := reader_word.fieldIn (Nat.le_of_add_right_le hle) hstop hreach
  rw [hword] at hid
  refine hid.bind (g := fun r => if r.1 = 0 then .error .zeroIdentifier else .ok r) ?_
  rintro ⟨id, next⟩ ⟨_, rest⟩ ⟨rfl, hpassed⟩
  exact .ite (fun _ => .fail _) fun _ => .pure ⟨rfl, hpassed⟩

theorem subscription_follows (hle : offset ≤ stop) (hstop : stop ≤ p.length)
    (hreach : p.start + stop ≤ reach) :
    (p.subscription offset stop).Follows reach (Passed (p.bytes.take stop) offset)
      (Subscribe.readSubscription ((p.bytes.take stop).drop offset)) := by
  have hlen := length_frame hstop
  refine .bind (reader_text.fieldIn hle hstop hreach) ?_
  rintro ⟨filter, next⟩ ⟨_, rest⟩ ⟨rfl, hmore, hnext, rfl⟩
  dsimp only
  refine .step (front_follows hstop hreach) ?_
  cases hdrop : (p.bytes.take stop).drop next with
  | nil =>
    rw [byteOr_of_drop_eq_nil hdrop]
    exact .fail _
  | cons qos rest =>
    have hfront : p.start + (p.bytes.take stop).length ≤ reach := by omega
    obtain ⟨hbyte, hlt, hrest⟩ := byteOr_of_drop_eq_cons (p := ⟨p.start, p.bytes.take stop⟩) hdrop
      hfront (.malformed .missingSubscriptionQos)
    refine .step hbyte (.bind (.lift _) ?_)
    rintro qos _ rfl
    exact .pure ⟨rfl, by omega, hlt, hrest⟩

theorem will_follows (hle : offset ≤ p.length) (hreach : p.start + p.length ≤ reach) (flags : Nat) :
    (p.will offset flags).Follows reach (Passed p.bytes offset)
      (Connect.readWill flags (p.bytes.drop offset)) := by
  refine .bind (reader_text.field hle hreach) ?_
  rintro ⟨topic, next⟩ ⟨_, rest⟩ ⟨rfl, hmore, hnext, rfl⟩
  refine .bind (reader_binary.field hnext hreach) ?_
  rintro ⟨message, behind⟩ ⟨_, rest⟩ ⟨rfl, hmore', hbehind, rfl⟩
  refine .bind (.lift _) ?_
  rintro qos _ rfl
  exact .pure ⟨rfl, by omega, hbehind, rfl⟩

theorem optional_follows {present : Bool} {read : Nat → Walk (α × Nat)} {frame : Octets}
    (hle : offset ≤ frame.length)
    (hread : (read offset).Follows reach (Passed frame offset) (item (frame.drop offset))) :
    (optional offset present read).Follows reach (Reached frame)
      (Field.optional present item (frame.drop offset)) := by
  cases present with
  | false => exact .pure ⟨rfl, hle, rfl⟩
  | true =>
    refine hread.map ?_
    rintro ⟨value, next⟩ ⟨_, rest⟩ ⟨rfl, _, hnext, rfl⟩
    exact ⟨rfl, hnext, rfl⟩

theorem connectFields_follows (hlen : p.length = stop) (hle : offset ≤ stop)
    (hstop : p.start + stop ≤ reach) :
    (p.connectFields offset stop).Follows reach Eq (Connect.ofBody (p.bytes.drop offset)) := by
  subst hlen
  refine .bind (reader_text.field hle hstop) ?_
  rintro ⟨name, versionAt⟩ ⟨_, rest⟩ ⟨rfl, _, _, rfl⟩
  refine .bind (byteOr_follows hstop) ?_
  rintro version ⟨_, rest⟩ ⟨rfl, _, rfl⟩
  refine .bind (.lift _) fun _ _ _ => ?_
  refine .bind (byteOr_follows hstop) ?_
  rintro flags ⟨_, rest⟩ ⟨rfl, hflags, rfl⟩
  refine .bind (.lift _) fun _ _ _ => ?_
  have hkeepAlive : versionAt + 2 ≤ p.length := hflags
  refine .bind (reader_word.field hkeepAlive hstop) ?_
  rintro ⟨keepAlive, idAt⟩ ⟨_, rest⟩ ⟨rfl, _, hid, rfl⟩
  refine .bind (reader_text.field hid hstop) ?_
  rintro ⟨clientId, willAt⟩ ⟨_, rest⟩ ⟨rfl, _, hwill, rfl⟩
  refine .bind (optional_follows hwill (will_follows hwill hstop _)) ?_
  rintro ⟨will, nameAt⟩ ⟨_, rest⟩ ⟨rfl, hname, rfl⟩
  refine .bind (optional_follows hname (reader_text.field hname hstop)) ?_
  rintro ⟨username, passwordAt⟩ ⟨_, rest⟩ ⟨rfl, hpassword, rfl⟩
  refine .bind (optional_follows hpassword (reader_binary.field hpassword hstop)) ?_
  rintro ⟨password, behind⟩ ⟨_, rest⟩ ⟨rfl, hbehind, rfl⟩
  have hend : behind ≠ p.length ↔ p.bytes.drop behind ≠ [] := by
    rw [ne_eq, ne_eq, List.drop_eq_nil_iff]
    exact not_congr ⟨Nat.le_of_eq ∘ Eq.symm, Nat.le_antisymm hbehind⟩
  dsimp only
  by_cases h : behind ≠ p.length
  · rw [if_pos h, if_pos (hend.mp h)]
    exact .fail _
  · rw [if_neg h, if_neg (mt hend.mpr h)]
    exact .pure rfl

theorem exists_two_byte_body (hstop : offset + 2 ≤ p.length) :
    ∃ first second rest, p.bytes.drop offset = first :: second :: rest ∧
      (p.bytes.take (offset + 2)).drop offset = [first, second] := by
  have hlen : (p.bytes.drop offset).length = p.length - offset := List.length_drop
  match hbytes : p.bytes.drop offset with
  | [] | [_] =>
    rw [hbytes] at hlen
    simp at hlen
    omega
  | first :: second :: rest =>
    refine ⟨first, second, rest, rfl, ?_⟩
    rw [List.drop_take, hbytes, Nat.add_sub_cancel_left]
    rfl

section Bodies

variable (hstop : offset + size ≤ p.length) (hreach : p.start + (offset + size) ≤ reach)

include hstop

theorem length_body : ((p.bytes.take (offset + size)).drop offset).length = size := by
  rw [List.length_drop, length_frame hstop, Nat.add_sub_cancel_left]

theorem noBody_follows (type : PacketType) :
    (noBody type size).Follows reach Eq
      (type.noBody ((p.bytes.take (offset + size)).drop offset)) := by
  have hlen := length_body hstop
  generalize (p.bytes.take (offset + size)).drop offset = body at hlen
  subst hlen
  cases body with
  | nil => exact .pure rfl
  | cons b tail => exact .fail _

include hreach

/-- The identifier is read off the buffer, of which two bytes are looked at. -/
theorem onlyIdentifier_follows (type : PacketType) :
    (p.onlyIdentifier type offset size).Follows reach Eq
      (type.onlyIdentifier ((p.bytes.take (offset + size)).drop offset)) := by
  unfold onlyIdentifier
  by_cases hsize : size = 2
  · subst hsize
    obtain ⟨high, low, rest, hbytes, hbody⟩ := exists_two_byte_body hstop
    have hfront : p.start + offset + min 2 (p.bytes.drop offset).length ≤ reach := by omega
    have hword := word_follows (p := ⟨p.start + offset, p.bytes.drop offset⟩) hfront
    rw [if_neg (not_not_intro rfl), hbody]
    refine .step (onward_follows (by omega) (by omega)) ?_
    dsimp only at hword
    rw [hbytes] at hword ⊢
    exact hword.bind (g := fun r => .ok r.1) fun _ _ h => .pure h.2.1
  · have hlen := length_body hstop
    rw [if_pos hsize]
    unfold PacketType.onlyIdentifier
    split
    next hbody =>
      rw [hbody] at hlen
      exact absurd hlen.symm hsize
    next => exact .fail _

theorem connAck_follows :
    (p.connAck offset size).Follows reach Eq
      (ConnAck.ofBody ((p.bytes.take (offset + size)).drop offset)) := by
  unfold connAck
  by_cases hsize : size = 2
  · subst hsize
    obtain ⟨flags, code, rest, hbytes, hbody⟩ := exists_two_byte_body hstop
    have hflags : p.bytes[offset]? = some flags := by
      rw [← Nat.add_zero offset, ← List.getElem?_drop, hbytes]
      rfl
    have hcode : p.bytes[offset + 1]? = some code := by
      rw [← List.getElem?_drop, hbytes]
      rfl
    rw [if_neg (not_not_intro rfl), hbody]
    refine .step (byte_follows hflags (by omega)) (.ite (fun _ => .fail _) fun _ => ?_)
    exact .step (byte_follows hcode (by omega)) (.ite (fun _ => .fail _) fun _ => .pure rfl)
  · have hlen := length_body hstop
    rw [if_pos hsize]
    unfold ConnAck.ofBody
    split
    next hbody =>
      rw [hbody] at hlen
      exact absurd hlen.symm hsize
    next => exact .fail _

theorem publish_follows (flags : Nat) :
    (p.publish offset size flags).Follows reach Eq
      (Publish.ofBody flags ((p.bytes.take (offset + size)).drop offset)) := by
  have hlen := length_frame hstop
  refine .bind (.lift _) ?_
  rintro qos _ rfl
  dsimp only
  refine .bind (reader_text.fieldIn (Nat.le_add_right offset size) hstop hreach) ?_
  rintro ⟨topic, next⟩ ⟨_, rest⟩ ⟨rfl, _, hnext, rfl⟩
  dsimp only
  split
  next =>
    exact rest_follows (by omega) hstop hreach (.pure rfl)
  next =>
    obtain ⟨hshort, herror⟩ | ⟨hlong, ⟨id, payload⟩, hok⟩ :=
      Field.word_cases ((p.bytes.take (offset + size)).drop next)
    · rw [List.length_drop, hlen] at hshort
      rw [herror, publishIdentifier, if_pos (by omega)]
      exact .fail _
    · rw [List.length_drop, hlen] at hlong
      have hid := publishIdentifier_follows hok (by omega) hstop hreach
      rw [hok]
      dsimp only at hid ⊢
      split
      next hzero =>
        rw [if_pos hzero] at hid
        exact hid.bind_error
      next hzero =>
        rw [if_neg hzero] at hid
        refine hid.bind_ok ?_
        rintro ⟨_, behind⟩ ⟨rfl, _, hbehind, rfl⟩
        dsimp only
        exact rest_follows (by omega) hstop hreach (.pure rfl)

theorem identifier_follows (type : PacketType) :
    (p.identifier type offset size).Follows reach
      (Passed (p.bytes.take (offset + size)) offset)
      (type.identifier ((p.bytes.take (offset + size)).drop offset)) := by
  have hlen := length_body hstop
  have hword := reader_word.fieldIn (Nat.le_add_right offset size) hstop hreach
  unfold identifier PacketType.identifier
  obtain ⟨hshort, herror⟩ | ⟨hlong, r, hok⟩ :=
    Field.word_cases ((p.bytes.take (offset + size)).drop offset)
  · rw [herror, if_pos (by omega)]
    exact .fail _
  · rw [hok] at hword ⊢
    rw [if_neg (by omega)]
    exact hword

theorem subAck_follows :
    (p.subAck offset size).Follows reach Eq
      (SubAck.ofBody ((p.bytes.take (offset + size)).drop offset)) := by
  have hlen := length_frame hstop
  refine .bind (identifier_follows hstop hreach .subAck) ?_
  rintro ⟨id, next⟩ ⟨_, rest⟩ ⟨rfl, _, hnext, rfl⟩
  dsimp only
  refine rest_follows (by omega) hstop hreach ?_
  exact .bind (.lift _) fun _ _ h => .pure (h ▸ rfl)

theorem subscribe_follows :
    (p.subscribe offset size).Follows reach Eq
      (Subscribe.ofBody ((p.bytes.take (offset + size)).drop offset)) := by
  have hlen := length_frame hstop
  refine .bind (identifier_follows hstop hreach .subscribe) ?_
  rintro ⟨id, next⟩ ⟨_, rest⟩ ⟨rfl, _, hnext, rfl⟩
  dsimp only
  refine .bind (R := Eq) (many_follows hlen (fun offset hlt => ?_) (by omega)
    (Nat.le_of_eq (by rw [List.length_drop, hlen]))) ?_
  · exact subscription_follows (Nat.le_of_lt hlt) hstop hreach
  · rintro subscriptions _ rfl
    exact .ite (fun _ => .fail _) fun _ => .pure rfl

theorem unsubscribe_follows :
    (p.unsubscribe offset size).Follows reach Eq
      (Unsubscribe.ofBody ((p.bytes.take (offset + size)).drop offset)) := by
  have hlen := length_frame hstop
  refine .bind (identifier_follows hstop hreach .unsubscribe) ?_
  rintro ⟨id, next⟩ ⟨_, rest⟩ ⟨rfl, _, hnext, rfl⟩
  dsimp only
  refine .bind (R := Eq) (many_follows hlen
    (fun offset hlt => reader_text.fieldIn (Nat.le_of_lt hlt) hstop hreach) (by omega)
    (Nat.le_of_eq (by rw [List.length_drop, hlen]))) fun _ _ h => .pure (h ▸ rfl)

theorem connect_follows :
    (p.connect offset size).Follows reach Eq
      (Connect.ofBody ((p.bytes.take (offset + size)).drop offset)) := by
  refine .step (front_follows hstop hreach) ?_
  exact connectFields_follows (p := ⟨p.start, p.bytes.take (offset + size)⟩) (length_frame hstop)
    (Nat.le_add_right offset size) hreach

theorem packet_follows (type : PacketType) (flags : Nat) :
    (p.packet type offset size flags).Follows reach Eq
      (Packet.ofBody type flags ((p.bytes.take (offset + size)).drop offset)) := by
  cases type with
  | connect => exact (connect_follows hstop hreach).map fun _ _ h => congrArg _ h
  | connAck => exact (connAck_follows hstop hreach).map fun _ _ h => congrArg _ h
  | publish => exact (publish_follows hstop hreach flags).map fun _ _ h => congrArg _ h
  | pubAck | pubRec | pubRel | pubComp | unsubAck =>
    exact (onlyIdentifier_follows hstop hreach _).map fun _ _ h => congrArg _ h
  | subscribe => exact (subscribe_follows hstop hreach).map fun _ _ h => congrArg _ h
  | subAck => exact (subAck_follows hstop hreach).map fun _ _ h => congrArg _ h
  | unsubscribe => exact (unsubscribe_follows hstop hreach).map fun _ _ h => congrArg _ h
  | pingReq | pingResp | disconnect => exact (noBody_follows hstop _).map fun _ _ _ => rfl

end Bodies

end Part
end Mqtt
