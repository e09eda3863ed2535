import Mqtt.Proofs.Exchange.Reachable
import Mqtt.Proofs.Slot.Conclusion

/-! What a pass makes of a delivery whose awaited acknowledgment is among those it is given. -/
namespace Mqtt.Exchange

variable {σ : Settings} {x : Exchange} {k : Key} {d : Delivery} {acks : List Packet} {ack : Packet}

/-- A delivery that waits for its last acknowledgment ends in the first pass that is given it,
whatever stands before and behind it, and one event reports the end. There is one exception: a
repeated PUBREC in front of the PUBCOMP brings the delivery back to its release while attempts are
left, the PUBCOMP finds nobody, and the release is sent again. -/
theorem concluded_unless_overtaken (h : Reachable σ x) (hd : x.queue.get? k = some d)
    (hmem : ack ∈ acks) (hw : d.Awaits ack) (now : Nat) :
    let (queue, session, work) := x.queue.pass x.session acks now
    (¬ d.Overtaken σ.maxAttempts acks →
      (∀ d' ∈ queue.deliveries, d'.key ≠ k) ∧ k ∉ queue.index ∧
        (∀ d' ∈ session.deliveries, d'.key ≠ k) ∧
        ∃ ack' ∈ acks, ∃ e, d.Concludes ack' e ∧ (work.of k).events = [e]) ∧
    (d.Overtaken σ.maxAttempts acks →
      queue.get? k = some (d.sent .awaitPubcomp now) ∧
        session.get? k = some (d.sent .awaitPubcomp now) ∧
        work.of k = { outgoing := [.pubRel d.id] }) := by
  have hq := h.sound.1
  have hk := hq.id_ne_zero hd
  have ho := hq.owned x.session k
  have hx : (Slot.ofKey x.queue x.session k).queued = some d := hd
  have hq' := hq.pass x.session acks now
  obtain ⟨hslot, hwork⟩ := hq.slot_pass x.session acks now hk
  generalize x.queue.pass x.session acks now = after at hslot hwork hq'
  obtain ⟨queue, session, work⟩ := after
  refine ⟨fun hfirst => ?_, fun hlost => ?_⟩
  · obtain ⟨hempty, hevents⟩ := ho.pass_of_awaits σ hx ⟨ack, hmem, hw⟩ hfirst now
    rw [hempty] at hslot
    rw [← hwork] at hevents
    have hqueued : queue.get? k = none := congrArg Slot.queued hslot
    have hstored : session.get? k = none := congrArg Slot.stored hslot
    have hindex : queue.contains k = false := by
      rw [hq'.keyed.contains_eq_isSome, hqueued]
      rfl
    exact ⟨(hq'.keyed.get?_eq_none_iff hk).mp hqueued,
      by simpa [DeliveryQueue.contains] using hindex,
      Delivery.find?_eq_none_iff.mp hstored, hevents⟩
  · rw [ho.pass_of_overtaken σ hx hlost now] at hslot hwork
    exact ⟨congrArg Slot.queued hslot, congrArg Slot.stored hslot, hwork⟩

/-- The PUBCOMP comes among strays, and a repeated PUBREC comes too late to overtake it. -/
theorem concluded_amid_strays :
    let acks : List Packet := [.pubAck 1, .pubRel 1, .pubComp 1, .pubRec 1, .pubComp 1]
    ∃ x d, Reachable {} x ∧ x.queue.get? ⟨1, .outgoing⟩ = some d ∧ d.Awaits (.pubComp 1) ∧
      ¬ d.Overtaken 3 acks ∧
      ((x.queue.pass x.session acks 2).2.2.of ⟨1, .outgoing⟩).events = [.published 1 true] := by
  intro acks
  have hreach : Reachable {} _ := .step (.step (.step (.start {} { clientId := "c" })
    (.issue (r := .publish ⟨false, 2, false, "a", none, []⟩) rfl))
    (@Step.pass {} _ [] 0 _ _ _ rfl)) (@Step.pass {} _ [.pubRec 1] 1 _ _ _ rfl)
  refine ⟨_, _, hreach, rfl, ⟨rfl, rfl⟩, by decide, ?_⟩
  obtain ⟨_, _, _, ack, _, e, he, hevents⟩ :=
    (@concluded_unless_overtaken {} _ ⟨1, .outgoing⟩ _ acks (.pubComp 1) hreach rfl (by decide)
      ⟨rfl, rfl⟩ 2).1 (by decide)
  exact he.eq_of_awaitPubcomp rfl ▸ hevents

/-- Between the PUBREL and its PUBCOMP the broker repeats the PUBREC, and both answers come
together: the delivery does not end. -/
theorem overtaken_of_repeated_pubRec :
    ∃ x d, Reachable {} x ∧ x.queue.get? ⟨1, .outgoing⟩ = some d ∧ d.Awaits (.pubComp 1) ∧
      let (queue, session, work) := x.queue.pass x.session [.pubRec 1, .pubComp 1] 2
      queue.contains ⟨1, .outgoing⟩ = true ∧ session.contains ⟨1, .outgoing⟩ = true ∧
        work = { outgoing := [.pubRel 1] } := by
  have hreach : Reachable {} _ := .step (.step (.step (.start {} { clientId := "c" })
    (.issue (r := .publish ⟨false, 2, false, "a", none, []⟩) rfl))
    (@Step.pass {} _ [] 0 _ _ _ rfl)) (@Step.pass {} _ [.pubRec 1] 1 _ _ _ rfl)
  exact ⟨_, _, hreach, rfl, ⟨rfl, rfl⟩, rfl, rfl, rfl⟩

end Mqtt.Exchange
