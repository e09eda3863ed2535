import Mqtt.Proofs.Exchange.Reachable
import Mqtt.Proofs.Slot.Reception

/-! What a broker's message is answered with. -/
namespace Mqtt

def Publish.receipt (p : Publish) (id : UInt16) : Packet :=
  if p.qos = 1 then .pubAck id else .pubRec id

theorem Publish.receipt_eq_iff {p m : Publish} {id : UInt16} (hp : p.qos = 1 ∨ p.qos = 2)
    (hm : m.qos = 1 ∨ m.qos = 2) : m.receipt id = p.receipt id ↔ m.qos = p.qos := by
  rcases hp with hp | hp <;> rcases hm with hm | hm <;> simp [receipt, hp, hm]

namespace Delivery

theorem Coherent.reopened_cases {d : Delivery} (h : d.Coherent) (hd : d.direction = .incoming)
    (hid : d.id ≠ 0) :
    ∃ p, d.packet = .publish p ∧ d.reopened.packet = .publish p ∧
      (p.qos = 1 ∧ d.reopened.stage = .queued1 ∨ p.qos = 2 ∧ d.reopened.stage = .queued2) := by
  obtain ⟨p, hp, ⟨hq, _⟩ | ⟨hq, hs⟩ | ⟨hq, hs | hs⟩⟩ := h.incoming_cases hd
  · have hzero := h.numbered.mpr ⟨hd, by simp [qos, message?, hp, hq]⟩
    exact absurd hzero hid
  · exact ⟨p, hp, by simp [hp], .inl ⟨hq, by simp [Delivery.reopened, hs]⟩⟩
  · exact ⟨p, hp, by simp [hp], .inr ⟨hq, by simp [Delivery.reopened, hs]⟩⟩
  · exact ⟨p, hp, by simp [hp], .inr ⟨hq, by simp [Delivery.reopened, hs]⟩⟩

theorem reopened_received (p : Publish) : (received p).reopened = received p := by
  have hstage : Stage.ofQos p.qos ≠ .awaitPubrel := by
    unfold Stage.ofQos
    split
    next => simp
    next => split <;> simp
  simp [reopened, received, hstage]

end Delivery

namespace Slot

variable {x : Slot} {d : Delivery} {p : Publish} {id : UInt16}

/-- A broker's message that is ready gets its first answer in the next pass, unless a PUBREL comes
before. -/
theorem Owned.pass_of_ready (ho : x.Owned ⟨id, .incoming⟩) (hx : x.queued = some d)
    (hp : d.packet = .publish p)
    (hready : p.qos = 1 ∧ d.stage = .queued1 ∨ p.qos = 2 ∧ d.stage = .queued2) (σ : Settings)
    {acks : List Packet} (hacks : .pubRel id ∉ acks) (now : Nat) :
    (x.pass σ ⟨id, .incoming⟩ acks now).2 =
      { outgoing := [p.receipt id], events := if p.qos = 1 then [.received p] else [] } := by
  obtain ⟨hkey, hc⟩ := ho d hx
  have hdir : d.direction = .incoming := congrArg Key.direction hkey
  have hid : d.id = id := congrArg Key.id hkey
  have hreport : (Event.received p).origin = ⟨id, .incoming⟩ := by
    rw [← hkey]
    exact hc.about_report hdir _ (by simp [Delivery.report, Delivery.message?, hp])
  have hpass : (x.pass σ ⟨id, .incoming⟩ acks now).2 =
      (d.move σ.retryDelay σ.maxAttempts now).work.of ⟨id, .incoming⟩ := by
    simp [Slot.pass, answers_of_not_mem hacks, Slot.advance, hx]
  rw [hpass]
  rcases hready with ⟨hq, hs⟩ | ⟨hq, hs⟩
  · simp [Delivery.move, hdir, hs, hid, Work.of, Packet.origin?, Publish.receipt, hq,
      Delivery.report, Delivery.message?, hp, hreport]
  · simp [Delivery.move, hdir, hs, hid, Work.of, Packet.origin?, Publish.receipt, hq]

end Slot

namespace DeliveryQueue

variable {σ : Settings} {q : DeliveryQueue} {p : Publish}

/-- Whether a message is queued or collapsed, one is ready under its key from then on. -/
theorem Keyed.get?_accept (h : q.Keyed) (hp : p.Numbered) (hid : (Delivery.received p).key.id ≠ 0) :
    (q.accept p).2.get? (Delivery.received p).key =
      some ((q.get? (Delivery.received p).key).getD (.received p)).reopened := by
  rcases h.accept_cases hp with ⟨hfree, he⟩ | ⟨hheld, he⟩
  · rw [he, h.get?_enqueue (fun _ => hfree) hid, if_pos rfl, hfree]
    exact congrArg some (Delivery.reopened_received p).symm
  · rw [he, h.get?_modify (f := Delivery.reopened) (fun e he => by simpa using he) hid, if_pos rfl]
    obtain ⟨d, hd⟩ := Option.ne_none_iff_exists'.mp hheld
    simp [hd]

theorem Sound.held_of_accept (h : q.Sound σ) (hp : p.Numbered) {id : UInt16} (hid : p.id = some id) :
    ∃ d : Delivery, d.Coherent ∧ d.key = ⟨id, .incoming⟩ ∧
      (q.accept p).2.get? ⟨id, .incoming⟩ = some d.reopened ∧
      d.message? = some (((q.get? ⟨id, .incoming⟩).bind Delivery.message?).getD p) := by
  have hkey : (Delivery.received p).key = ⟨id, .incoming⟩ := Slot.key_received hid
  have hget := h.keyed.get?_accept hp (by rw [hkey]; exact (hp.of_id hid).1)
  rw [hkey] at hget
  rcases hheld : q.get? ⟨id, .incoming⟩ with _ | d
  · rw [hheld] at hget
    exact ⟨_, Delivery.coherent_received hp, hkey, hget, rfl⟩
  · rw [hheld] at hget
    have hc := h.coherent_of_get? hheld
    have hdk := h.keyed.key_of_get? hheld
    obtain ⟨m, hm, _⟩ := hc.incoming_cases (congrArg Key.direction hdk)
    exact ⟨d, hc, hdk, hget, by simp [Delivery.message?, hm]⟩

end DeliveryQueue

namespace Exchange

variable {σ : Settings} {x : Exchange} {p : Publish} {id : UInt16}

/-- A message from the broker is collapsed into the one that is held under its identifier, whatever
the quality of either, and the one that is held is answered, in its own quality. A message of
quality 1 is handed over along with that. So the message itself is answered exactly if the held
one has its quality, and it is only delivered if none is held. -/
theorem message_answered_as_held (h : Reachable σ x) (hp : p.IsDecoded) (hid : p.id = some id)
    {acks : List Packet} (hacks : .pubRel id ∉ acks) (now : Nat) :
    let key : Key := ⟨id, .incoming⟩
    let m := ((x.queue.get? key).bind Delivery.message?).getD p
    let after := x.queue.accept p
    let work := (after.2.pass x.session acks now).2.2.of key
    (after.1 = .queued ↔ x.queue.get? key = none) ∧
      work =
        { outgoing := [m.receipt id], events := if m.qos = 1 then [.received m] else [] } ∧
      (work.outgoing = [p.receipt id] ↔ m.qos = p.qos) := by
  intro key m after work
  have hq := h.sound.1
  have hnumbered := hp.numbered
  have hkey : (Delivery.received p).key = key := Slot.key_received hid
  obtain ⟨hk, hpqos⟩ : key.id ≠ 0 ∧ (p.qos = 1 ∨ p.qos = 2) := hnumbered.of_id hid
  have houtcome : after.1 = .queued ↔ x.queue.get? key = none := by
    rw [← hkey]
    rcases hq.keyed.accept_cases hnumbered with ⟨hfree, he⟩ | ⟨hheld, he⟩
    · simp [after, he, hfree]
    · simp [after, he, hheld]
  obtain ⟨d, hc, hdk, hd, hdm⟩ := hq.held_of_accept hnumbered hid
  obtain ⟨m', hpacket, hpacket', hready⟩ :=
    hc.reopened_cases (congrArg Key.direction hdk) (by rwa [← Delivery.id_key, hdk])
  obtain rfl : m' = m := by simpa [Delivery.message?, hpacket] using hdm
  have hq' : after.2.Sound σ := hq.accept hnumbered
  have hwork : work = _ := (hq'.slot_pass x.session acks now hk).2
  rw [(hq'.owned x.session key).pass_of_ready hd hpacket' hready σ hacks now] at hwork
  have hmqos : m.qos = 1 ∨ m.qos = 2 := hready.imp And.left And.left
  refine ⟨houtcome, hwork, ?_⟩
  rw [hwork]
  simpa using Publish.receipt_eq_iff hpqos hmqos

/-- A message of quality 1 comes twice before the pass, and a release for another one with the
second: one PUBACK, and one message handed over. -/
theorem message_answered_as_held_of_repeated :
    let p : Publish := ⟨false, 1, false, "a", some 1, []⟩
    ∃ x, Reachable {} x ∧ p.IsDecoded ∧ (x.queue.accept p).1 = .duplicate ∧
      ((x.queue.accept p).2.pass x.session [.pubRel 2] 0).2.2.of ⟨1, .incoming⟩ =
        { outgoing := [.pubAck 1], events := [.received p] } := by
  intro p
  have hp : p.IsDecoded := ⟨[0x32, 5, 0, 1, 0x61, 0, 1], 7, rfl⟩
  have hreach : Reachable {} _ := .step (.start {} { clientId := "c" }) (.accept hp rfl)
  have hacks : Packet.pubRel 1 ∉ [Packet.pubRel 2] := by simp
  exact ⟨_, hreach, hp, rfl, (message_answered_as_held hreach hp rfl hacks 0).2.1⟩

/-- A message of quality 1 under the identifier of one of quality 2 that waits for its release is
answered with that one's PUBREC, and is not handed over. -/
theorem not_answered_in_own_quality :
    let p : Publish := ⟨false, 1, false, "b", some 1, []⟩
    ∃ x, Reachable {} x ∧ p.IsDecoded ∧ (x.queue.accept p).1 = .duplicate ∧
      ((x.queue.accept p).2.pass x.session [] 1).2.2 = { outgoing := [.pubRec 1] } := by
  intro p
  have hp : p.IsDecoded := ⟨[0x32, 5, 0, 1, 0x62, 0, 1], 7, rfl⟩
  have hheld : Publish.IsDecoded ⟨false, 2, false, "a", some 1, []⟩ :=
    ⟨[0x34, 5, 0, 1, 0x61, 0, 1], 7, rfl⟩
  have hreach : Reachable {} _ := .step (.step (.start {} { clientId := "c" }) (.accept hheld rfl))
    (@Step.pass {} _ [] 0 _ _ _ rfl)
  exact ⟨_, hreach, hp, rfl, rfl⟩

end Exchange
end Mqtt
