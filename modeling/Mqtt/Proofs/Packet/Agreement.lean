import Mqtt.Proofs.Packet.Frame

/-!
The writer and the reader accept the same packets, but for three rules that only one of them checks:
an identifier is not 0, an UNSUBSCRIBE names a filter, and a password has a user name.
-/
namespace Mqtt.Packet

def Writable (p : Packet) : Prop :=
  ∃ bytes, p.encode = .ok bytes

/-- Some buffer is the packet and nothing else. -/
def Readable (p : Packet) : Prop :=
  ∃ buffer, decode buffer = .ok (.complete p buffer.length)

/-- The body, if the packet has one, is not longer than a remaining length can say. -/
def Fits (p : Packet) : Prop :=
  ∀ body, p.body = .ok body → body.length ≤ RemainingLength.max

/-- What only the writer checks. A PUBLISH is checked on both sides, a SUBACK on neither. -/
structure Filled (p : Packet) : Prop where
  id_ne_zero : p.type ≠ .publish → p.type ≠ .subAck → p.id? ≠ some 0
  filters_ne_nil : ∀ u, p = .unsubscribe u → u.filters ≠ []

/-- What only the reader checks. -/
def Paired (p : Packet) : Prop :=
  ∀ c, p = .connect c → c.password.isSome → c.username.isSome

variable {p : Packet} {body : Octets}

theorem filled_or_paired (p : Packet) : p.Filled ∨ p.Paired := by
  cases p with
  | connect c => exact .inl ⟨fun _ _ => by simp [id?], by simp⟩
  | _ => exact .inr fun c hc => by cases hc

theorem proper_iff_paired (hid : ∀ m, p = .publish m → (m.id.isSome ↔ m.qos ≠ 0)) :
    p.Proper ↔ p.Paired := by
  refine ⟨fun h => h.username, fun h => ⟨fun m hm hq => ?_, h⟩⟩
  have hnone : ¬ m.id.isSome := fun hsome => (hid m hm).mp hsome hq
  simpa using hnone

theorem filled_and_body_iff :
    p.Filled ∧ p.body = .ok body ↔
      ∃ header payload, p.header = .ok header ∧ p.payload = .ok payload ∧
        body = header ++ payload := by
  constructor
  · rintro ⟨⟨hid, hfilters⟩, hbody⟩
    cases p with
    | connect c =>
      obtain ⟨header, hheader, hbody⟩ := exists_of_bind_eq_ok hbody
      obtain ⟨payload, hpayload, hbody⟩ := exists_of_bind_eq_ok hbody
      cases hbody
      exact ⟨header, payload, hheader, hpayload, rfl⟩
    | connAck a => exact ⟨body, [], hbody, rfl, (List.append_nil body).symm⟩
    | publish m =>
      obtain ⟨header, hheader, hbody⟩ := exists_of_bind_eq_ok hbody
      cases hbody
      exact ⟨header, m.payload, hheader, rfl, rfl⟩
    | pubAck id | pubRec id | pubRel id | pubComp id | unsubAck id =>
      cases hbody
      have hne : id ≠ 0 := fun hz => hid (by simp [type]) (by simp [type]) (congrArg some hz)
      exact ⟨_, [], Field.ofIdentifier_eq_ok_iff.mpr ⟨hne, rfl⟩, rfl, (List.append_nil _).symm⟩
    | subscribe s =>
      obtain ⟨payload, hpayload, hbody⟩ := exists_of_bind_eq_ok hbody
      cases hbody
      have hne : s.id ≠ 0 := fun hz => hid (by simp [type]) (by simp [type]) (congrArg some hz)
      exact ⟨_, payload, Field.ofIdentifier_eq_ok_iff.mpr ⟨hne, rfl⟩, hpayload, rfl⟩
    | subAck s =>
      obtain ⟨payload, hpayload, hbody⟩ := exists_of_bind_eq_ok hbody
      cases hbody
      exact ⟨_, payload, rfl, hpayload, rfl⟩
    | unsubscribe u =>
      obtain ⟨payload, hpayload, hbody⟩ := exists_of_bind_eq_ok hbody
      cases hbody
      have hne : u.id ≠ 0 := fun hz => hid (by simp [type]) (by simp [type]) (congrArg some hz)
      have hwritten : u.payload = .ok payload :=
        ite_error_eq_ok_iff.mpr ⟨hfilters u rfl, hpayload⟩
      exact ⟨_, payload, Field.ofIdentifier_eq_ok_iff.mpr ⟨hne, rfl⟩, hwritten, rfl⟩
    | pingReq | pingResp | disconnect =>
      cases hbody
      exact ⟨[], [], rfl, rfl, rfl⟩
  · rintro ⟨header, payload, hheader, hpayload, rfl⟩
    refine ⟨⟨fun hpublish hsubAck hzero => ?_, fun u hu => ?_⟩, body_eq_ok hheader hpayload⟩
    · cases p with
      | publish m => exact hpublish rfl
      | subAck s => exact hsubAck rfl
      | pubAck id | pubRec id | pubRel id | pubComp id | unsubAck id =>
        exact (Field.ofIdentifier_eq_ok_iff.mp hheader).1 (Option.some.inj hzero)
      | subscribe s => exact (Field.ofIdentifier_eq_ok_iff.mp hheader).1 (Option.some.inj hzero)
      | unsubscribe u => exact (Field.ofIdentifier_eq_ok_iff.mp hheader).1 (Option.some.inj hzero)
      | _ => cases hzero
    · subst hu
      exact (ite_error_eq_ok_iff.mp hpayload).1

theorem writable_iff :
    p.Writable ↔ p.Filled ∧ ∃ body, p.body = .ok body ∧ body.length ≤ RemainingLength.max := by
  constructor
  · rintro ⟨bytes, h⟩
    unfold encode at h
    obtain ⟨header, hheader, h⟩ := exists_of_bind_eq_ok h
    obtain ⟨payload, hpayload, h⟩ := exists_of_bind_eq_ok h
    dsimp only at h
    split at h
    next => cases h
    next hle =>
      obtain ⟨hfilled, hbody⟩ := filled_and_body_iff.mpr ⟨header, payload, hheader, hpayload, rfl⟩
      refine ⟨hfilled, header ++ payload, hbody, ?_⟩
      rw [List.length_append]
      exact Nat.le_of_not_lt hle
  · rintro ⟨hfilled, body, hbody, hle⟩
    obtain ⟨header, payload, hheader, hpayload, rfl⟩ := filled_and_body_iff.mp ⟨hfilled, hbody⟩
    rw [List.length_append] at hle
    unfold Writable encode
    rw [hheader, ok_bind, hpayload, ok_bind]
    dsimp only
    rw [if_neg (Nat.not_lt.mpr hle)]
    exact ⟨_, rfl⟩

theorem readable_iff :
    p.Readable ↔ p.Proper ∧ ∃ body, p.body = .ok body ∧ body.length ≤ RemainingLength.max := by
  constructor
  · rintro ⟨buffer, h⟩
    obtain ⟨hproper, len, body, rest, hbody, _, hnumeral, hle, _⟩ := decode_eq_complete_iff.mp h
    refine ⟨hproper, body, hbody, ?_⟩
    have hpow : 128 ^ len.length ≤ 128 ^ 4 := Nat.pow_le_pow_right (by decide) hle
    have hlt := hnumeral.lt_pow
    unfold RemainingLength.max
    omega
  · rintro ⟨hproper, body, hbody, hle⟩
    have hminimal := RemainingLength.minimal_encode hle
    have hshort := RemainingLength.length_encode_le hle
    generalize RemainingLength.encode (UInt32.ofNat body.length) = len at hminimal hshort
    refine ⟨p.first :: (len ++ body), decode_eq_complete_iff.mpr
      ⟨hproper, len, body, [], hbody, by simp, hminimal.numeral, hshort, ?_⟩⟩
    rw [List.length_cons, List.length_append]
    omega

/-- Of the packets whose body is not too long, and whose identifier, in a PUBLISH, goes with a
quality of service, the same ones are written and read as long as they keep the rules that only one
side checks. A packet that breaks nothing but a rule of the writer is read and not written; one that
breaks nothing but the rule of the reader is written and not read. -/
theorem writable_iff_readable_of_filled_of_paired
    (hid : ∀ m, p = .publish m → (m.id.isSome ↔ m.qos ≠ 0)) (hfits : p.Fits) :
    (p.Filled → p.Paired → (p.Writable ↔ p.Readable)) ∧
      (¬ p.Filled → ¬ p.Writable ∧ (p.Readable ↔ ∃ body, p.body = .ok body)) ∧
      (¬ p.Paired → ¬ p.Readable ∧ (p.Writable ↔ ∃ body, p.body = .ok body)) := by
  have hlegal : (∃ body, p.body = .ok body ∧ body.length ≤ RemainingLength.max) ↔
      ∃ body, p.body = .ok body :=
    exists_congr fun body => and_iff_left_of_imp (hfits body)
  have hwritable : p.Writable ↔ p.Filled ∧ ∃ body, p.body = .ok body := by
    rw [writable_iff, hlegal]
  have hreadable : p.Readable ↔ p.Paired ∧ ∃ body, p.body = .ok body := by
    rw [readable_iff, hlegal, proper_iff_paired hid]
  refine ⟨fun hfilled hpaired => ?_, fun hfilled => ?_, fun hpaired => ?_⟩
  · rw [hwritable, hreadable, and_iff_right hfilled, and_iff_right hpaired]
  · have hpaired := (filled_or_paired p).resolve_left hfilled
    exact ⟨fun h => hfilled (hwritable.mp h).1, by rw [hreadable, and_iff_right hpaired]⟩
  · have hfilled := (filled_or_paired p).resolve_right hpaired
    exact ⟨fun h => hpaired (hreadable.mp h).1, by rw [hwritable, and_iff_right hfilled]⟩

/-- A PUBLISH of quality 1 keeps every rule, and both sides take it. -/
theorem writable_iff_readable_of_publish :
    let p : Packet := .publish ⟨false, 1, false, "a", some 7, [42]⟩
    (∀ m, p = .publish m → (m.id.isSome ↔ m.qos ≠ 0)) ∧ p.Fits ∧ p.Filled ∧ p.Paired ∧
      (p.Writable ↔ p.Readable) ∧ p.encode = .ok [50, 6, 0, 1, 97, 0, 7, 42] := by
  intro p
  have hid : ∀ m, p = .publish m → (m.id.isSome ↔ m.qos ≠ 0) := by
    intro m hm
    obtain rfl := Packet.publish.inj hm
    decide
  have hbody : p.body = .ok [0, 1, 97, 0, 7, 42] := by cbv
  have hfits : p.Fits := by
    intro body h
    rw [← Except.ok.inj (hbody.symm.trans h)]
    decide
  have hfilled : p.Filled := ⟨fun h => absurd rfl h, fun u hu => by simp [p] at hu⟩
  have hpaired : p.Paired := fun c hc => by simp [p] at hc
  have hsame := (writable_iff_readable_of_filled_of_paired hid hfits).1 hfilled hpaired
  exact ⟨hid, hfits, hfilled, hpaired, hsame, by cbv⟩

/-- A PUBACK with identifier 0 and an UNSUBSCRIBE without a filter are read and cannot be written; a
CONNECT with a password and no user name is written and cannot be read. -/
theorem not_writable_iff_readable :
    let ack : Packet := .pubAck 0
    let unsubscribe : Packet := .unsubscribe ⟨1, []⟩
    let connect : Packet := .connect ⟨4, true, 60, "c", none, none, some [1]⟩
    (decode [64, 2, 0, 0] = .ok (.complete ack 4) ∧ ack.encode = .error .zeroIdentifier) ∧
      (decode [162, 2, 0, 1] = .ok (.complete unsubscribe 4) ∧
        unsubscribe.encode = .error (.malformed (.noTopicFilters .unsubscribe))) ∧
      connect.encode = .ok [16, 16, 0, 4, 77, 81, 84, 84, 4, 66, 0, 60, 0, 1, 99, 0, 1, 1] ∧
      ∀ p ∈ [ack, unsubscribe, connect], (∀ m, p = .publish m → (m.id.isSome ↔ m.qos ≠ 0)) ∧
        p.Fits ∧ ¬ (p.Writable ↔ p.Readable) := by
  intro ack unsubscribe connect
  have hack : ack.encode = .error .zeroIdentifier := rfl
  have hunsubscribe :
      unsubscribe.encode = .error (.malformed (.noTopicFilters .unsubscribe)) := rfl
  have hconnect :
      connect.encode = .ok [16, 16, 0, 4, 77, 81, 84, 84, 4, 66, 0, 60, 0, 1, 99, 0, 1, 1] := by
    cbv
  have hlone : ¬ connect.Readable := fun h =>
    absurd ((readable_iff.mp h).1.username _ rfl rfl) (by decide)
  have hshort : ∀ (p : Packet) (body : Octets), p.body = .ok body → body.length ≤ 16 → p.Fits := by
    intro p body hbody hle other hother
    rw [← Except.ok.inj (hbody.symm.trans hother)]
    exact Nat.le_trans hle (by decide)
  refine ⟨⟨rfl, hack⟩, ⟨rfl, hunsubscribe⟩, hconnect, ?_⟩
  simp only [List.forall_mem_cons, List.not_mem_nil, false_implies, implies_true, and_true]
  refine ⟨⟨?_, ?_, fun h => ?_⟩, ⟨?_, ?_, fun h => ?_⟩, ?_, ?_, fun h => hlone (h.mp ⟨_, hconnect⟩)⟩
  · simp [ack]
  · exact hshort ack [0, 0] rfl (by decide)
  · obtain ⟨bytes, hbytes⟩ := h.mpr ⟨[64, 2, 0, 0], rfl⟩
    cases hack.symm.trans hbytes
  · simp [unsubscribe]
  · exact hshort unsubscribe [0, 1] rfl (by decide)
  · obtain ⟨bytes, hbytes⟩ := h.mpr ⟨[162, 2, 0, 1], rfl⟩
    cases hunsubscribe.symm.trans hbytes
  · simp [connect]
  · exact hshort connect [0, 4, 77, 81, 84, 84, 4, 66, 0, 60, 0, 1, 99, 0, 1, 1] (by cbv)
      (by decide)

end Mqtt.Packet
