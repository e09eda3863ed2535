import Mqtt.Proofs.Exchange.Conclusion
import Mqtt.Proofs.Packet.Codec
import Mqtt.Proofs.RemainingLength.Bytewise

/-!
What an application is told of its subscriptions. The event for a SUBACK repeats the codes of that
packet; how many there are is up to the broker.
-/
namespace Mqtt

def Packet.grant? : Packet → Option (UInt16 × Octets)
  | .subAck p => some (p.id, p.codes)
  | _ => none

def Event.grant? : Event → Option (UInt16 × Octets)
  | .subscribed id granted => some (id, granted)
  | _ => none

theorem Packet.grant?_eq_some_iff {ack : Packet} {id : UInt16} {codes : Octets} :
    ack.grant? = some (id, codes) ↔ ack = .subAck { id, codes } := by
  cases ack with
  | subAck p =>
    obtain ⟨id', codes'⟩ := p
    simp [grant?]
  | _ => simp [grant?]

theorem Event.grant?_eq_some_iff {e : Event} {id : UInt16} {granted : Octets} :
    e.grant? = some (id, granted) ↔ e = .subscribed id granted := by
  cases e <;> simp [grant?]

/-- The codes fill a SUBACK behind its identifier, and each is a quality or the refusal. -/
theorem SubAck.frame_of_decode {p : SubAck} {bytes : Octets} {size : Nat}
    (h : Packet.decode bytes = .ok (.complete (.subAck p) size)) :
    (∀ code ∈ p.codes, code.toNat ≤ 2 ∨ code = 128) ∧
      ∃ len, bytes.take size =
          (Packet.subAck p).first :: (len ++ (Octets.ofUInt16 p.id ++ p.codes)) ∧
        RemainingLength.Numeral len (2 + p.codes.length) := by
  obtain ⟨len, body, hbody, htake, hnumeral, _⟩ := Packet.exists_of_decode h
  obtain ⟨codes, hcodes, hbody⟩ := exists_of_bind_eq_ok hbody
  obtain ⟨hlegal, rfl⟩ := SubAck.mapM_checkCode_eq_ok_iff.mp hcodes
  obtain rfl := Except.ok.inj hbody
  have hid : (Octets.ofUInt16 p.id).length = 2 := rfl
  rw [List.length_append, hid] at hnumeral
  exact ⟨hlegal, len, htake, hnumeral⟩

theorem Delivery.Moves.grant?_eq_none {d : Delivery} {maxAttempts now : Nat} {m : Move}
    (h : d.Moves maxAttempts now m) : ∀ e ∈ m.work.events, e.grant? = none := by
  have hreport : ∀ e ∈ d.report, e.grant? = none := by
    unfold report
    split <;> simp [Event.grant?]
  cases h with
  | send | sendAgain => simp [transmit]
  | wait | confirm => simp
  | fire => simp [Event.grant?]
  | hand | answer => exact hreport
  | giveUp =>
    unfold failure
    split <;> simp [Event.grant?]

namespace DeliveryQueue

variable {σ : Settings} {q : DeliveryQueue} {p : SubAck} {d : Delivery} {acks : List Packet}

theorem Sound.grants_advance (h : q.Sound σ) (s : Session) (now : Nat) :
    (q.advance s now).2.2.events.filterMap Event.grant? = [] := by
  refine List.filterMap_eq_nil_iff.mpr fun e he => ?_
  simp only [advance, moves, List.flatMap_map, List.mem_flatMap] at he
  obtain ⟨d, hd, he⟩ := he
  exact ((h.coherent d hd).moves _ _ now).grant?_eq_none e he

theorem Keyed.grants_applyAck (h : q.Keyed) (s : Session) (ack : Packet) :
    (q.applyAck s ack).2.2.events.filterMap Event.grant? =
      ((q.match? ack).bind fun _ => ack.grant?).toList := by
  rw [h.applyAck_eq s ack]
  cases q.match? ack with
  | none => cases ack <;> rfl
  | some d =>
    have hreport : d.report.filterMap Event.grant? = [] := by
      unfold Delivery.report
      split <;> rfl
    cases ack <;> first | rfl | exact hreport

theorem Tidy.grants_applyAcks (h : q.Tidy σ) (s : Session) (acks : List Packet) :
    (q.applyAcks s acks).2.2.events.filterMap Event.grant? =
      (q.answered s acks).filterMap fun m => m.1.grant? := by
  induction acks generalizing q s with
  | nil => rfl
  | cons ack acks ih =>
    have hfirst := h.keyed.grants_applyAck s ack
    have hrest := ih (h.applyAck s ack) (q.applyAck s ack).2.1
    simp only [DeliveryQueue.applyAcks, answered, Work.append, List.filterMap_append, hfirst, hrest]
    cases q.match? ack with
    | none => rfl
    | some d => cases hg : ack.grant? <;> simp [hg]

/-- The grants that a pass reports are those of the SUBACKs that answer a delivery, in order. -/
theorem Sound.grants_pass (h : q.Sound σ) (s : Session) (acks : List Packet) (now : Nat) :
    (q.pass s acks now).2.2.events.filterMap Event.grant? =
      (q.answered s acks).filterMap fun m => m.1.grant? := by
  have hmoved := (h.applyAcks s acks).grants_advance (q.applyAcks s acks).2.1 now
  simp only [DeliveryQueue.pass, Work.append, List.filterMap_append, hmoved, List.append_nil]
  exact h.tidy.grants_applyAcks s acks

/-- A delivery that a SUBACK answers stands in the queue from the start: no acknowledgment brings one
to wait for a SUBACK. -/
theorem Tidy.subAck_of_answered (h : q.Tidy σ) {ds : List Delivery}
    (hds : ∀ d ∈ q.deliveries, d.stage = .awaitSuback → d ∈ ds) {s : Session}
    (hm : (.subAck p, d) ∈ q.answered s acks) :
    .subAck p ∈ acks ∧ d ∈ ds ∧ d.key = ⟨p.id, .outgoing⟩ ∧ p.id ≠ 0 ∧
      d.stage = .awaitSuback := by
  induction acks generalizing q s with
  | nil => cases hm
  | cons ack acks ih =>
    rcases List.mem_append.mp hm with hm | hm
    · obtain ⟨d', hd', heq⟩ := Option.map_eq_some_iff.mp (Option.mem_toList.mp hm)
      obtain ⟨rfl, rfl⟩ := Prod.mk.inj heq
      obtain ⟨key, stages, ha, hget, hs⟩ := match?_eq_some_iff.mp hd'
      obtain ⟨rfl, rfl⟩ := Prod.mk.inj (Option.some.inj ha)
      obtain ⟨hid, hmem, hkey⟩ := h.keyed.get?_eq_some_iff.mp hget
      obtain hs := List.mem_singleton.mp hs
      exact ⟨List.mem_cons_self, hds d' hmem hs, hkey, hid, hs⟩
    · have hkept : ∀ d ∈ (q.applyAck s ack).1.deliveries, d.stage = .awaitSuback → d ∈ ds := by
        refine h.keyed.forall_applyAck hds (fun e _ hs hwait => ?_) s ack
        unfold release at hwait
        split_ifs at hwait
        all_goals simp_all
      obtain ⟨hack, hrest⟩ := ih (h.applyAck s ack) hkept hm
      exact ⟨List.mem_cons_of_mem _ hack, hrest⟩

theorem Sound.subscribe_of_answered (h : q.Sound σ) {s : Session}
    (hm : (.subAck p, d) ∈ q.answered s acks) :
    .subAck p ∈ acks ∧ q.get? ⟨p.id, .outgoing⟩ = some d ∧ d.stage = .awaitSuback ∧
      ∃ request : Subscribe, d.packet = .subscribe request ∧ request.id = p.id := by
  obtain ⟨hack, hmem, hkey, hid, hs⟩ := h.tidy.subAck_of_answered (fun d hd _ => hd) hm
  have hc := h.coherent d hmem
  refine ⟨hack, h.keyed.get?_eq_some_iff.mpr ⟨hid, hmem, hkey⟩, hs, ?_⟩
  have hdir : d.direction = .outgoing := congrArg Key.direction hkey
  obtain ⟨_, _, hp⟩ | ⟨request, hp, _⟩ | ⟨_, _, hp⟩ := hc.fits.outgoing_cases hdir
  · simp [hs] at hp
  · have hcarried := hc.carried
    simp only [hp, Packet.id?, Delivery.qos, Delivery.message?] at hcarried
    refine ⟨request, hp, ?_⟩
    have hdid : d.id = p.id := congrArg Key.id hkey
    simpa [hdid] using hcarried
  · simp [hs] at hp

theorem Sound.exists_event_of_answered (h : q.Sound σ) {s : Session}
    (hm : (.subAck p, d) ∈ q.answered s acks) (now : Nat) :
    ∃ e, ((q.pass s acks now).2.2.of ⟨p.id, .outgoing⟩).events = [e] := by
  obtain ⟨hack, hget, hs, _⟩ := h.subscribe_of_answered hm
  have hid : d.id = p.id := congrArg Key.id (h.keyed.key_of_get? hget)
  have hw : d.Awaits (.subAck p) := ⟨by rw [hs]; rfl, by rw [hid]; rfl⟩
  have hfirst : ¬ d.Overtaken σ.maxAttempts acks := fun hlost => by
    have hlost := hlost.1
    simp [hs] at hlost
  obtain ⟨_, _, _, e, _, hend⟩ := (h.owned s ⟨p.id, .outgoing⟩).pass_of_awaits σ hget
    ⟨_, hack, hw⟩ hfirst now
  have hslot := (h.slot_pass s acks now (h.id_ne_zero hget)).2
  exact ⟨e, (congrArg Work.events hslot).trans hend⟩

end DeliveryQueue

namespace Exchange

open RemainingLength (Numeral)

variable {σ : Settings} {x : Exchange}

/-- A pass reports a subscription as made for each SUBACK that completes one, and for nothing else.
The only event of that delivery has the codes of the packet, in their order, each a quality or the
refusal. There is one for each filter that was asked for exactly if the broker made the packet as
long as that: the filters are not looked at. -/
theorem granted_as_acknowledged (h : Reachable σ x) (acks : List Packet) (now : Nat) :
    let answered := x.queue.answered x.session acks
    let work := (x.queue.pass x.session acks now).2.2
    (∀ id granted, .subscribed id granted ∈ work.events ↔
      ∃ d, (.subAck { id, codes := granted }, d) ∈ answered) ∧
    ∀ (p : SubAck) (d : Delivery) (bytes : Octets) (size : Nat), (.subAck p, d) ∈ answered →
      Packet.decode bytes = .ok (.complete (.subAck p) size) →
      ∃ request : Subscribe, x.queue.get? ⟨p.id, .outgoing⟩ = some d ∧
        d.packet = .subscribe request ∧ request.id = p.id ∧
        (work.of ⟨p.id, .outgoing⟩).events = [.subscribed p.id p.codes] ∧
        (∀ code ∈ p.codes, code = 0 ∨ code = 1 ∨ code = 2 ∨ code = 128) ∧
        ∃ len, bytes.take size =
            (Packet.subAck p).first :: (len ++ (Octets.ofUInt16 p.id ++ p.codes)) ∧
          (p.codes.length = request.subscriptions.length ↔
            Numeral len (2 + request.subscriptions.length)) := by
  intro answered work
  have hq := h.sound.1
  have hgrants : work.events.filterMap Event.grant? = answered.filterMap fun m => m.1.grant? :=
    hq.grants_pass x.session acks now
  have hevents : ∀ id granted, .subscribed id granted ∈ work.events ↔
      ∃ d, (.subAck { id, codes := granted }, d) ∈ answered := by
    intro id granted
    have hmem : (id, granted) ∈ work.events.filterMap Event.grant? ↔
        (id, granted) ∈ answered.filterMap fun m => m.1.grant? := by rw [hgrants]
    simpa [List.mem_filterMap, Event.grant?_eq_some_iff, Packet.grant?_eq_some_iff] using hmem
  refine ⟨hevents, fun p d bytes size hm hdecode => ?_⟩
  obtain ⟨_, hget, _, request, hpacket, hid⟩ := hq.subscribe_of_answered hm
  obtain ⟨hlegal, len, htake, hnumeral⟩ := SubAck.frame_of_decode hdecode
  refine ⟨request, hget, hpacket, hid, ?_, fun code hcode => ?_, len, htake, ?_⟩
  · -- the grant is an event of the delivery, and there is no other one
    obtain ⟨e, hone⟩ := hq.exists_event_of_answered hm now
    have hmem : .subscribed p.id p.codes ∈ (work.of ⟨p.id, .outgoing⟩).events :=
      List.mem_filter.mpr ⟨(hevents _ _).mpr ⟨d, hm⟩, by simp [Event.origin]⟩
    rw [hone] at hmem ⊢
    rw [List.mem_singleton.mp hmem]
  · have hcode := hlegal code hcode
    simp only [← UInt8.toNat_inj, UInt8.reduceToNat] at hcode ⊢
    omega
  · rw [hnumeral.iff_eq]
    omega

/-- One of two filters is refused. A SUBACK that comes behind is not listened to any more. -/
theorem granted_as_acknowledged_of_refusal :
    let subscriptions : List Subscription := [⟨"a", 1⟩, ⟨"b/#", 2⟩]
    let acks : List Packet := [.pubAck 1, .subAck ⟨1, [1, 128]⟩, .subAck ⟨1, [0]⟩]
    ∃ x d, Reachable {} x ∧ x.queue.get? ⟨1, .outgoing⟩ = some d ∧
      d.packet = .subscribe ⟨1, subscriptions⟩ ∧
      (.subAck ⟨1, [1, 128]⟩, d) ∈ x.queue.answered x.session acks ∧
      Packet.decode [144, 4, 0, 1, 1, 128] = .ok (.complete (.subAck ⟨1, [1, 128]⟩) 6) ∧
      ((x.queue.pass x.session acks 1).2.2.of ⟨1, .outgoing⟩).events =
        [.subscribed 1 [1, 128]] := by
  intro subscriptions acks
  have hreach : Reachable {} _ := .step (.step (.start {} { clientId := "c" })
    (.issue (r := .subscribe subscriptions) rfl)) (@Step.pass {} _ [] 0 _ _ _ rfl)
  obtain ⟨x, d, hx, hpacket, hanswered⟩ : ∃ x d, Reachable {} x ∧
      d.packet = .subscribe ⟨1, subscriptions⟩ ∧
      (.subAck ⟨1, [1, 128]⟩, d) ∈ x.queue.answered x.session acks :=
    ⟨_, _, hreach, rfl, List.mem_singleton.mpr rfl⟩
  have hdecode : Packet.decode [144, 4, 0, 1, 1, 128] =
      .ok (.complete (.subAck ⟨1, [1, 128]⟩) 6) := rfl
  obtain ⟨_, hget, _, _, hevents, _⟩ :=
    (granted_as_acknowledged hx acks 1).2 _ _ _ _ hanswered hdecode
  exact ⟨x, d, hx, hget, hpacket, hanswered, hdecode, hevents⟩

/-- Two filters are asked for, and a SUBACK with one code completes the subscription; so does one
without any. -/
theorem not_granted_per_filter :
    let subscriptions : List Subscription := [⟨"a", 1⟩, ⟨"b/#", 2⟩]
    ∃ x d, Reachable {} x ∧ x.queue.get? ⟨1, .outgoing⟩ = some d ∧
      d.packet = .subscribe ⟨1, subscriptions⟩ ∧
      Packet.decode [144, 3, 0, 1, 1] = .ok (.complete (.subAck ⟨1, [1]⟩) 5) ∧
      (x.queue.pass x.session [.subAck ⟨1, [1]⟩] 1).2.2.events = [.subscribed 1 [1]] ∧
      Packet.decode [144, 2, 0, 1] = .ok (.complete (.subAck ⟨1, []⟩) 4) ∧
      (x.queue.pass x.session [.subAck ⟨1, []⟩] 1).2.2.events = [.subscribed 1 []] := by
  intro subscriptions
  have hreach : Reachable {} _ := .step (.step (.start {} { clientId := "c" })
    (.issue (r := .subscribe subscriptions) rfl)) (@Step.pass {} _ [] 0 _ _ _ rfl)
  exact ⟨_, _, hreach, rfl, rfl, rfl, rfl, rfl, rfl⟩

end Exchange
end Mqtt
