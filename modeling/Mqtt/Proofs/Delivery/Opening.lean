import Mqtt.Proofs.Delivery.Timing

/-! The packet with which a delivery begins, and how it is told from one that is sent again. -/
namespace Mqtt

def Packet.isRequest : Packet → Bool
  | .publish _ | .subscribe _ | .unsubscribe _ => true
  | _ => false

def Packet.isReply : Packet → Bool
  | .pubAck _ | .pubRec _ => true
  | _ => false

/-- The packet begins the handshake of its delivery, when those under the keys have begun. A packet
that names no delivery is sent only once. -/
def Packet.opens (seen : List Key) (p : Packet) : Bool :=
  (p.isRequest || p.isReply) && p.origin?.all (· ∉ seen)

/-- A message of quality 0 or 1 is handed to the application. -/
def Event.isHandover : Event → Bool
  | .received p => p.qos ≤ 1
  | _ => false

def Stage.isFirst : Stage → Bool
  | .queued0 | .queued1 | .queued2 | .sendSubscribe | .sendUnsubscribe => true
  | _ => false

theorem Stage.isFirst_ofQos (qos : UInt8) : (Stage.ofQos qos).isFirst = true := by
  unfold Stage.ofQos
  split
  next => rfl
  next => split <;> rfl

namespace Delivery

/-- What is sent first for a delivery that comes in this stage. -/
def opening? (d : Delivery) : Option Packet :=
  match d.direction, d.stage with
  | .outgoing, .queued0 | .outgoing, .queued1 | .outgoing, .queued2
  | .outgoing, .sendSubscribe | .outgoing, .sendUnsubscribe => some d.packet
  | .incoming, .queued1 => some (.pubAck d.id)
  | .incoming, .queued2 => some (.pubRec d.id)
  | _, _ => none

/-- The event with which a message of quality 0 or 1 is handed over. -/
def handed? (d : Delivery) : Option Event :=
  match d.direction, d.stage with
  | .incoming, .queued0 | .incoming, .queued1 => d.message?.map .received
  | _, _ => none

/-- The broker releases a message that has not been answered. -/
def releasedBy (acks : List Packet) (d : Delivery) : Bool :=
  d.direction = .incoming ∧ d.stage = .queued2 ∧ .pubRel d.id ∈ acks

def begun? (acks : List Packet) (d : Delivery) : Option Packet :=
  if d.releasedBy acks then none else d.opening?

def isNew (seen : List Key) (d : Delivery) : Bool :=
  d.stage.isFirst && d.key ∉ seen

/-- The keys tell whether a delivery has begun. Of those that have, only a broker's message that is
to be answered again stands where it stood at first. -/
structure Accounted (seen : List Key) (d : Delivery) : Prop where
  first : d.stage.isFirst = true → d.key ∈ seen → d.direction = .incoming ∧ d.stage = .queued2
  waiting : d.stage.isWaiting = true → d.stage ≠ .awaitPubcomp → d.key ∈ seen

variable {d e : Delivery} {seen : List Key} {maxAttempts now : Nat} {m : Move}

theorem isFirst_of_opening? (h : d.opening?.isSome) : d.stage.isFirst = true := by
  unfold opening? at h
  split at h <;> simp_all [Stage.isFirst]

theorem isFirst_of_handed? (h : d.handed?.isSome) : d.stage.isFirst = true := by
  unfold handed? at h
  split at h <;> simp_all [Stage.isFirst]

theorem opening?_of_releasedBy {acks : List Packet} (h : d.releasedBy acks = true) :
    d.opening? = some (.pubRec d.id) := by
  obtain ⟨hd, hs, _⟩ := of_decide_eq_true h
  simp [opening?, hd, hs]

theorem filter_isRequest_begun? (acks : List Packet) (ds : List Delivery) :
    (ds.filterMap (begun? acks)).filter Packet.isRequest =
      (ds.filterMap opening?).filter Packet.isRequest := by
  rw [List.filter_filterMap, List.filter_filterMap]
  refine List.filterMap_congr fun d _ => ?_
  unfold begun?
  split
  next hrel =>
    rw [opening?_of_releasedBy hrel]
    rfl
  next => rfl

theorem begun?_sublist (acks : List Packet) (ds : List Delivery) :
    (ds.filterMap (begun? acks)).Sublist (ds.filterMap opening?) := by
  have hkept : ds.filterMap (begun? acks) =
      (ds.filter fun d => !d.releasedBy acks).filterMap opening? := by
    rw [List.filterMap_filter]
    refine List.filterMap_congr fun d _ => ?_
    unfold begun?
    cases d.releasedBy acks <;> rfl
  rw [hkept]
  exact List.filter_sublist.filterMap _

/-- What is handed over at once is not to be released. -/
theorem releasedBy_of_handed? (h : d.handed?.isSome) (acks : List Packet) :
    d.releasedBy acks = false := by
  unfold handed? at h
  split at h <;> simp_all [releasedBy]

theorem not_isFirst_of_isWaiting {stage : Stage} (h : stage.isWaiting = true) :
    stage.isFirst = false := by
  cases stage <;> first | rfl | cases h

theorem isNew_of_isWaiting (h : d.stage.isWaiting = true) (seen : List Key) :
    d.isNew seen = false := by
  rw [isNew, not_isFirst_of_isWaiting h, Bool.false_and]

theorem Coherent.isRequest_packet (h : d.Coherent) (hd : d.direction = .outgoing) :
    d.packet.isRequest = true := by
  obtain ⟨p, hp, _⟩ | ⟨p, hp, _⟩ | ⟨p, hp, _⟩ := h.fits.outgoing_cases hd
  all_goals
    rw [hp]
    rfl

theorem Coherent.opens_packet (h : d.Coherent) (hd : d.direction = .outgoing) :
    d.packet.opens seen = decide (d.qos = 0 ∨ d.key ∉ seen) := by
  rw [Packet.opens, h.isRequest_packet hd, h.origin?_packet hd]
  by_cases hq : d.qos = 0 <;> simp [hq]

/-- Only a message of quality 0 from the broker has no identifier. -/
theorem Coherent.stage_of_id_eq_zero (h : d.Coherent) (hid : d.id = 0) :
    d.direction = .incoming ∧ d.stage = .queued0 := by
  obtain ⟨hd, hq⟩ := h.numbered.mp hid
  obtain ⟨p, hp, ⟨_, hs⟩ | ⟨hq', _⟩ | ⟨hq', _⟩⟩ := h.incoming_cases hd
  · exact ⟨hd, hs⟩
  all_goals simp [qos, message?, hp, hq'] at hq

theorem Fits.qos_eq_zero_iff (h : d.Fits) (hd : d.direction = .outgoing) :
    d.qos = 0 ↔ d.stage = .queued0 := by
  rcases h.outgoing_cases hd with
    ⟨p, hp, ⟨hq, hs⟩ | ⟨hq, hs | hs⟩ | ⟨hq, _, hs | hs | hs | hs⟩⟩ |
    ⟨p, hp, hs | hs⟩ | ⟨p, hp, hs | hs⟩ <;>
  simp [qos, message?, *]

theorem opening?_of_sent? {stage : Stage} (hd : d.direction = .outgoing)
    (hs : d.stage.sent? = some stage) :
    d.stage = .sendPubrel ∨
      d.stage.isFirst = true ∧ d.stage ≠ .queued0 ∧ d.opening? = some d.packet := by
  cases hst : d.stage <;> simp [hst, Stage.sent?] at hs <;>
    simp [opening?, hd, hst, Stage.isFirst]

theorem Accounted.opens_repeated (h : d.Accounted seen) (hc : d.Coherent)
    (hd : d.direction = .outgoing) (hw : d.stage.isWaiting = true) :
    d.repeated.opens seen = false := by
  unfold repeated
  split
  next => rfl
  next hcomp =>
    have hq : d.qos ≠ 0 := (hc.fits.qos_eq_zero_iff hd).not.mpr fun hs => by
      simp [hs, Stage.isWaiting] at hw
    have horigin := hc.origin?_packet hd
    rw [if_neg hq, ← origin?_withDup d true] at horigin
    simp [Packet.opens, horigin, h.waiting hw hcomp]

theorem Accounted.opens_move (h : d.Accounted seen) (hc : d.Coherent)
    (hm : d.Moves maxAttempts now m) :
    m.work.outgoing.filter (Packet.opens seen) =
      (if d.isNew seen then d.opening? else none).toList := by
  cases hm with
  | send hd hs =>
    rcases opening?_of_sent? hd hs with hrel | ⟨hfirst, hne, hopening⟩
    · simp [transmit, wire, isNew, hrel, Packet.opens, Packet.isRequest, Packet.isReply,
        Stage.isFirst]
    · have hq : d.qos ≠ 0 := (hc.fits.qos_eq_zero_iff hd).not.mpr hne
      have hrel : d.stage ≠ .sendPubrel := fun hrel => by simp [hrel, Stage.isFirst] at hfirst
      by_cases hk : d.key ∈ seen <;>
        simp [transmit, wire, hrel, isNew, hfirst, hopening, hc.opens_packet hd, hq, hk]
  | wait hw => simp [isNew_of_isWaiting hw]
  | sendAgain hd hw =>
    simp [isNew_of_isWaiting hw, transmit, h.opens_repeated hc hd hw]
  | giveUp _ hw => simp [isNew_of_isWaiting hw]
  | fire hd hs =>
    -- the packet of quality 0 does not name the delivery, so the key must say that it is new
    have hk : d.key ∉ seen := fun hk => by
      have hin := (h.first (by rw [hs]; rfl) hk).1
      cases hd.symm.trans hin
    have hq := (hc.fits.qos_eq_zero_iff hd).mpr hs
    simp [hc.opens_packet hd, hq, isNew, hs, Stage.isFirst, hk, opening?, hd]
  | hand hd hs => simp [opening?, hd, hs]
  | answer hd hs | confirm hd hs =>
    have hkey : d.key = ⟨d.id, .incoming⟩ := by simp [key, hd]
    by_cases hk : d.key ∈ seen <;> rw [hkey] at hk <;>
      simp [Packet.opens, Packet.isReply, Packet.origin?, isNew, hs, Stage.isFirst, hkey, hk,
        opening?, hd]

theorem Accounted.handover_move (h : d.Accounted seen) (hc : d.Coherent)
    (hm : d.Moves maxAttempts now m) :
    m.work.events.filter Event.isHandover =
      (if d.isNew seen then d.handed? else none).toList := by
  cases hm with
  | send hd => simp [transmit, handed?, hd]
  | wait hw => simp [isNew_of_isWaiting hw]
  | sendAgain _ hw => simp [isNew_of_isWaiting hw, transmit]
  | giveUp _ hw =>
    rw [isNew_of_isWaiting hw]
    unfold failure
    split <;> rfl
  | fire hd => simp [handed?, hd, Event.isHandover]
  | hand hd hs | answer hd hs =>
    have hk : d.key ∉ seen := fun hk => by
      have hstage := (h.first (by rw [hs]; rfl) hk).2
      cases hs.symm.trans hstage
    obtain ⟨p, hp, ⟨hq, _⟩ | ⟨hq, _⟩ | ⟨_, hs' | hs'⟩⟩ := hc.incoming_cases hd
    · simp [report, message?, hp, isNew, hs, Stage.isFirst, hk, handed?, hd, Event.isHandover, hq]
    · simp [report, message?, hp, isNew, hs, Stage.isFirst, hk, handed?, hd, Event.isHandover, hq]
    all_goals cases hs.symm.trans hs'
  | confirm hd hs => simp [handed?, hd, hs]

/-- What a move leaves has been sent for, if only by its opening. -/
theorem Accounted.waiting_next (h : d.Accounted seen) (hc : d.Coherent)
    (hm : d.Moves maxAttempts now m) (he : m.next = some e) :
    e.stage.isWaiting = true ∧
      (e.stage ≠ .awaitPubcomp → e.key ∈ seen ∨ ∃ p ∈ m.work.outgoing,
        (p.isRequest || p.isReply) = true ∧ p.origin? = some e.key) := by
  cases hm with
  | @send stage hd hs =>
    obtain rfl := Option.some.inj he
    refine ⟨(isWaiting_of_sent? hs).2, fun hcomp => .inr ⟨d.wire, List.mem_singleton_self _, ?_⟩⟩
    rcases opening?_of_sent? hd hs with hrel | ⟨hfirst, hne, _⟩
    · rw [hrel] at hs
      exact absurd (Option.some.inj hs).symm hcomp
    · have hq : d.qos ≠ 0 := (hc.fits.qos_eq_zero_iff hd).not.mpr hne
      have hrel : d.stage ≠ .sendPubrel := fun hrel => by simp [hrel, Stage.isFirst] at hfirst
      simp [wire, hrel, hc.isRequest_packet hd, hc.origin?_packet hd, hq]
  | wait hw =>
    obtain rfl := Option.some.inj he
    exact ⟨hw, fun hcomp => .inl (h.waiting hw hcomp)⟩
  | sendAgain _ hw =>
    obtain rfl := Option.some.inj he
    exact ⟨hw, fun hcomp => .inl (by simpa using h.waiting hw hcomp)⟩
  | confirm hd =>
    obtain rfl := Option.some.inj he
    refine ⟨rfl, fun _ => .inr ⟨_, List.mem_singleton_self _, rfl, ?_⟩⟩
    simp [Packet.origin?, key, hd, sent]
  | _ => cases he

theorem Accounted.release (h : d.Accounted seen) (maxAttempts : Nat) :
    (DeliveryQueue.release maxAttempts d).Accounted seen := by
  have hready : Delivery.Accounted seen { d with stage := .sendPubrel } :=
    ⟨nofun, nofun⟩
  unfold DeliveryQueue.release
  split
  next => exact ⟨hready.first, hready.waiting⟩
  next =>
    split
    next => exact hready
    next => exact h

theorem Accounted.reopened (h : d.Accounted seen) (hf : d.Fits) : d.reopened.Accounted seen := by
  unfold Delivery.reopened
  split
  next hs =>
    refine ⟨fun _ _ => ⟨?_, rfl⟩, nofun⟩
    cases hd : d.direction with
    | outgoing => exact absurd hd (hf.not_outgoing_of_awaitPubrel hs)
    | incoming => rfl
  next => exact h

theorem Accounted.isNew_reopened (h : d.Accounted seen) :
    d.reopened.isNew seen = d.isNew seen ∧ (d.isNew seen = true → d.reopened = d) := by
  unfold Delivery.reopened
  split
  next hs =>
    have hw : d.stage.isWaiting = true := by rw [hs]; rfl
    have hk := h.waiting hw (by simp [hs])
    have hkey : ({ d with stage := .queued2 } : Delivery).key = d.key := rfl
    rw [isNew_of_isWaiting hw]
    simp [isNew, hkey, hk]
  next => exact ⟨rfl, fun _ => rfl⟩

theorem keys_filterMap_sublist {ds : List Delivery} {f : Delivery → Option Delivery}
    (hf : ∀ d ∈ ds, ∀ e, f d = some e → e.key = d.key) :
    ((ds.filterMap f).map key).Sublist (ds.map key) := by
  induction ds with
  | nil => exact List.Sublist.refl _
  | cons d ds ih =>
    have ih := ih fun e he => hf e (List.mem_cons_of_mem _ he)
    cases hd : f d with
    | none =>
      rw [List.filterMap_cons_none hd]
      exact ih.cons _
    | some e =>
      rw [List.filterMap_cons_some hd, List.map_cons, List.map_cons, hf d List.mem_cons_self e hd]
      exact ih.cons_cons _

end Delivery

end Mqtt
