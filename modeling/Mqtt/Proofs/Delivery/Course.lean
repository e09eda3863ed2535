import Mqtt.DeliveryQueue.Pass
import Mqtt.Proofs.Delivery.Keys
import Mqtt.Proofs.Packet.Publish
import Mqtt.Proofs.Work

/-! The stages a delivery can be in, the moves it can make there, and whose work they are. -/
namespace Mqtt

/-- The stages of a packet's handshake, in their order. -/
def Packet.course (packet : Packet) (direction : Direction) : List Stage :=
  match direction, packet with
  | .outgoing, .publish p =>
    if p.qos = 0 then [.queued0]
    else if p.qos = 1 then [.queued1, .awaitPuback]
    else [.queued2, .awaitPubrec, .sendPubrel, .awaitPubcomp]
  | .outgoing, .subscribe _ => [.sendSubscribe, .awaitSuback]
  | .outgoing, .unsubscribe _ => [.sendUnsubscribe, .awaitUnsuback]
  | .incoming, .publish p =>
    if p.qos = 0 then [.queued0] else if p.qos = 1 then [.queued1] else [.queued2, .awaitPubrel]
  | _, _ => []

/-- The stages of the handshake that a stage belongs to. -/
def Stage.handshake (direction : Direction) : Stage → List Stage
  | .queued0 => [.queued0]
  | .queued1 | .awaitPuback => [.queued1, .awaitPuback]
  | .awaitPubrel => [.queued2, .awaitPubrel]
  | .queued2 =>
    if direction = .incoming then [.queued2, .awaitPubrel]
    else [.queued2, .awaitPubrec, .sendPubrel, .awaitPubcomp]
  | .awaitPubrec | .sendPubrel | .awaitPubcomp =>
    [.queued2, .awaitPubrec, .sendPubrel, .awaitPubcomp]
  | .sendSubscribe | .awaitSuback => [.sendSubscribe, .awaitSuback]
  | .sendUnsubscribe | .awaitUnsuback => [.sendUnsubscribe, .awaitUnsuback]

def Record.key? : Record → Option Key
  | .keep => none
  | .put d => some d.key
  | .erase key => some key

theorem Record.key?_eq_none_iff {r : Record} : r.key? = none ↔ r = .keep := by
  cases r <;> simp [Record.key?]

/-- What a ready stage waits for once its packet is sent. -/
def Stage.sent? : Stage → Option Stage
  | .queued1 => some .awaitPuback
  | .queued2 => some .awaitPubrec
  | .sendPubrel => some .awaitPubcomp
  | .sendSubscribe => some .awaitSuback
  | .sendUnsubscribe => some .awaitUnsuback
  | _ => none

namespace Delivery

/-- The stage is one of the packet's handshake. -/
def Fits (d : Delivery) : Prop :=
  d.stage ∈ d.packet.course d.direction

/-- The stage is one of the packet's handshake, the packet carries the identifier unless its
quality is 0, only a broker's message of quality 0 has none, and a broker's quality is at most 2. -/
structure Coherent (d : Delivery) : Prop where
  stage : d.stage ∈ d.packet.course d.direction
  carried : d.packet.id? = if d.qos = 0 then none else some d.id
  numbered : d.id = 0 ↔ d.direction = .incoming ∧ d.qos = 0
  limited : d.direction = .incoming → d.qos.toNat ≤ 2

def wire (d : Delivery) : Packet :=
  if d.stage = .sendPubrel then .pubRel d.id else d.packet

/-- Everything that a coherent delivery can do in one step. -/
inductive Moves (d : Delivery) (maxAttempts now : Nat) : Move → Prop where
  | send {stage : Stage} (direction : d.direction = .outgoing)
      (ready : d.stage.sent? = some stage) :
      d.Moves maxAttempts now (d.transmit d.wire stage now)
  | wait (waiting : d.stage.isWaiting = true) :
      d.Moves maxAttempts now { next := some d }
  | sendAgain (direction : d.direction = .outgoing) (waiting : d.stage.isWaiting = true)
      (left : d.attempts < maxAttempts) :
      d.Moves maxAttempts now ((d.withDup true).transmit d.repeated d.stage now)
  | giveUp (direction : d.direction = .outgoing) (waiting : d.stage.isWaiting = true) :
      d.Moves maxAttempts now
        { next := none, record := .erase d.key, work := { events := [d.failure] } }
  | fire (direction : d.direction = .outgoing) (ready : d.stage = .queued0) :
      d.Moves maxAttempts now
        { next := none, work := { outgoing := [d.packet], events := [.published d.id true] } }
  | hand (direction : d.direction = .incoming) (ready : d.stage = .queued0) :
      d.Moves maxAttempts now { next := none, work := { events := d.report } }
  | answer (direction : d.direction = .incoming) (ready : d.stage = .queued1) :
      d.Moves maxAttempts now
        { next := none, work := { outgoing := [.pubAck d.id], events := d.report } }
  | confirm (direction : d.direction = .incoming) (ready : d.stage = .queued2) :
      d.Moves maxAttempts now
        { next := some (d.sent .awaitPubrel now), record := .put (d.sent .awaitPubrel now)
          work := { outgoing := [.pubRec d.id] } }

theorem retry_moves {d : Delivery} (delay maxAttempts now : Nat) (hd : d.direction = .outgoing)
    (hw : d.stage.isWaiting = true) : d.Moves maxAttempts now (d.retry delay maxAttempts now) := by
  unfold retry
  split
  next => exact .wait hw
  next =>
    split
    next => exact .wait hw
    next =>
      split
      next hleft => exact .sendAgain hd hw hleft
      next => exact .giveUp hd hw

theorem Coherent.fits {d : Delivery} (h : d.Coherent) : d.Fits :=
  h.stage

theorem Fits.incoming_cases {d : Delivery} (h : d.Fits) (hd : d.direction = .incoming) :
    ∃ p, d.packet = .publish p ∧
      (p.qos = 0 ∧ d.stage = .queued0 ∨ p.qos = 1 ∧ d.stage = .queued1 ∨
        p.qos ≠ 0 ∧ p.qos ≠ 1 ∧ (d.stage = .queued2 ∨ d.stage = .awaitPubrel)) := by
  unfold Fits at h
  cases hp : d.packet with
  | publish p =>
    refine ⟨p, rfl, ?_⟩
    simp only [Packet.course, hd, hp] at h
    split_ifs at h with hq0 hq1
    · exact .inl ⟨hq0, by simpa using h⟩
    · exact .inr (.inl ⟨hq1, by simpa using h⟩)
    · exact .inr (.inr ⟨hq0, hq1, by simpa using h⟩)
  | _ => simp [Packet.course, hd, hp] at h

theorem Coherent.incoming_cases {d : Delivery} (h : d.Coherent) (hd : d.direction = .incoming) :
    ∃ p, d.packet = .publish p ∧
      (p.qos = 0 ∧ d.stage = .queued0 ∨ p.qos = 1 ∧ d.stage = .queued1 ∨
        p.qos = 2 ∧ (d.stage = .queued2 ∨ d.stage = .awaitPubrel)) := by
  have hle := h.limited hd
  obtain ⟨p, hp, h0 | h1 | ⟨hq0, hq1, hs⟩⟩ := h.fits.incoming_cases hd
  · exact ⟨p, hp, .inl h0⟩
  · exact ⟨p, hp, .inr (.inl h1)⟩
  · have hq2 : p.qos = 2 := by
      simp only [qos, message?, hp] at hle
      rw [ne_eq, ← UInt8.toNat_inj] at hq0 hq1
      rw [← UInt8.toNat_inj]
      simp only [UInt8.reduceToNat] at hq0 hq1 ⊢
      omega
    exact ⟨p, hp, .inr (.inr ⟨hq2, hs⟩)⟩

theorem Fits.outgoing_cases {d : Delivery} (h : d.Fits) (hd : d.direction = .outgoing) :
    (∃ p, d.packet = .publish p ∧
      (p.qos = 0 ∧ d.stage = .queued0 ∨
        p.qos = 1 ∧ (d.stage = .queued1 ∨ d.stage = .awaitPuback) ∨
        p.qos ≠ 0 ∧ p.qos ≠ 1 ∧ (d.stage = .queued2 ∨ d.stage = .awaitPubrec ∨
          d.stage = .sendPubrel ∨ d.stage = .awaitPubcomp))) ∨
    (∃ p, d.packet = .subscribe p ∧ (d.stage = .sendSubscribe ∨ d.stage = .awaitSuback)) ∨
    (∃ p, d.packet = .unsubscribe p ∧ (d.stage = .sendUnsubscribe ∨ d.stage = .awaitUnsuback)) := by
  unfold Fits at h
  cases hp : d.packet with
  | publish p =>
    refine .inl ⟨p, rfl, ?_⟩
    simp only [Packet.course, hd, hp] at h
    split_ifs at h <;> simp_all
  | subscribe p =>
    simp only [Packet.course, hd, hp] at h
    exact .inr (.inl ⟨p, rfl, by simpa using h⟩)
  | unsubscribe p =>
    simp only [Packet.course, hd, hp] at h
    exact .inr (.inr ⟨p, rfl, by simpa using h⟩)
  | _ => simp [Packet.course, hd, hp] at h

/-- A ready delivery of our own sends its packet. -/
theorem move_of_ready {d : Delivery} {stage : Stage} (hd : d.direction = .outgoing)
    (hs : d.stage.sent? = some stage) (delay maxAttempts now : Nat) :
    d.move delay maxAttempts now = d.transmit d.wire stage now := by
  cases hst : d.stage <;> simp only [hst, Stage.sent?, Option.some.injEq, reduceCtorEq] at hs <;>
    simp [move, wire, hd, hst, hs]

theorem move_of_waiting {d : Delivery} (hd : d.direction = .outgoing)
    (hw : d.stage.isWaiting = true) (delay maxAttempts now : Nat) :
    d.move delay maxAttempts now = d.retry delay maxAttempts now := by
  cases hst : d.stage <;> simp only [hst, Stage.isWaiting, Bool.false_eq_true] at hw <;>
    simp [move, hd, hst]

/-- A delivery of our own fires, is ready or waits. -/
theorem Fits.outgoing_stage {d : Delivery} (h : d.Fits) (hd : d.direction = .outgoing) :
    d.stage = .queued0 ∨ (∃ stage, d.stage.sent? = some stage) ∨ d.stage.isWaiting = true := by
  rcases h.outgoing_cases hd with
    ⟨p, _, ⟨_, h⟩ | ⟨_, h | h⟩ | ⟨_, _, h | h | h | h⟩⟩ | ⟨p, _, h | h⟩ | ⟨p, _, h | h⟩ <;>
    simp [h, Stage.sent?, Stage.isWaiting]

theorem Fits.moves {d : Delivery} (h : d.Fits) (delay maxAttempts now : Nat) :
    d.Moves maxAttempts now (d.move delay maxAttempts now) := by
  cases hd : d.direction with
  | outgoing =>
    rcases h.outgoing_stage hd with hs | ⟨stage, hs⟩ | hw
    · have hfire : d.Moves maxAttempts now _ := .fire hd hs
      simpa only [move, hd, hs] using hfire
    · rw [move_of_ready hd hs]
      exact .send hd hs
    · rw [move_of_waiting hd hw]
      exact retry_moves delay maxAttempts now hd hw
  | incoming =>
    obtain ⟨p, hp, ⟨_, hs⟩ | ⟨_, hs⟩ | ⟨_, _, hs | hs⟩⟩ := h.incoming_cases hd
    · have hhand : d.Moves maxAttempts now _ := .hand hd hs
      simpa only [move, hd, hs] using hhand
    · have hanswer : d.Moves maxAttempts now _ := .answer hd hs
      simpa only [move, hd, hs] using hanswer
    · have hconfirm : d.Moves maxAttempts now _ := .confirm hd hs
      simpa only [move, hd, hs] using hconfirm
    · have hwait : d.Moves maxAttempts now _ := .wait (by rw [hs]; rfl)
      simpa only [move, hd, hs] using hwait

theorem Coherent.moves {d : Delivery} (h : d.Coherent) (delay maxAttempts now : Nat) :
    d.Moves maxAttempts now (d.move delay maxAttempts now) :=
  h.fits.moves delay maxAttempts now

theorem Moves.key_next {d e : Delivery} {maxAttempts now : Nat} {m : Move}
    (h : d.Moves maxAttempts now m) (he : m.next = some e) : e.key = d.key := by
  cases h with
  | send | confirm | wait | sendAgain =>
    obtain rfl := Option.some.inj he
    simp
  | _ => cases he

@[simp] theorem qos_withDup (d : Delivery) (dup : Bool) : (d.withDup dup).qos = d.qos := by
  unfold withDup
  split
  next p hp => simp [qos, message?, hp]
  next => rfl

@[simp] theorem isTracked_withDup (d : Delivery) (dup : Bool) :
    (d.withDup dup).isTracked = d.isTracked := by
  unfold withDup
  split
  next p hp => simp [isTracked, message?, hp]
  next => rfl

@[simp] theorem isTracked_sent (d : Delivery) (stage : Stage) (now : Nat) :
    (d.sent stage now).isTracked = d.isTracked := rfl

@[simp] theorem course_withDup (d : Delivery) (dup : Bool) (direction : Direction) :
    (d.withDup dup).packet.course direction = d.packet.course direction := by
  unfold withDup
  split
  next p hp => cases direction <;> simp [Packet.course, hp]
  next => rfl

@[simp] theorem id?_withDup (d : Delivery) (dup : Bool) :
    (d.withDup dup).packet.id? = d.packet.id? := by
  unfold withDup
  split
  next p hp => simp [Packet.id?, hp]
  next => rfl

@[simp] theorem origin?_withDup (d : Delivery) (dup : Bool) :
    (d.withDup dup).packet.origin? = d.packet.origin? := by
  unfold withDup
  split
  next p hp => simp [Packet.origin?, hp]
  next => rfl

/-- Any delivery with the key, the quality and the identifier of a coherent one is coherent in a
stage of its handshake. -/
theorem Coherent.of_fits {d e : Delivery} (h : d.Coherent) (hf : e.Fits)
    (hid : e.packet.id? = d.packet.id?) (hq : e.qos = d.qos) (hk : e.key = d.key) :
    e.Coherent := by
  have hid' : e.id = d.id := congrArg Key.id hk
  have hd : e.direction = d.direction := congrArg Key.direction hk
  refine ⟨hf, ?_, ?_, ?_⟩
  · rw [hid, hq, hid']
    exact h.carried
  · rw [hq, hid', hd]
    exact h.numbered
  · rw [hq, hd]
    exact h.limited

theorem Fits.withDup {d : Delivery} (h : d.Fits) (dup : Bool) : (d.withDup dup).Fits := by
  simpa [Fits] using h

/-- The other stages of its handshake are open to a delivery, except that only a broker's message
of quality 1 is answered at once. -/
theorem Fits.mem_course {d : Delivery} {stage : Stage} (h : d.Fits)
    (hs : stage ∈ d.stage.handshake d.direction)
    (hd : d.direction = .outgoing ∨ d.stage ≠ .queued1) :
    stage ∈ d.packet.course d.direction := by
  cases hdir : d.direction with
  | outgoing =>
    rcases h.outgoing_cases hdir with
      ⟨p, hp, ⟨hq, h⟩ | ⟨hq, h | h⟩ | ⟨hq, hq', h | h | h | h⟩⟩ |
      ⟨p, hp, h | h⟩ | ⟨p, hp, h | h⟩ <;>
    simpa [Stage.handshake, Packet.course, hdir, *] using hs
  | incoming =>
    obtain ⟨p, hp, ⟨hq, h⟩ | ⟨hq, h⟩ | ⟨hq, hq', h | h⟩⟩ := h.incoming_cases hdir
    · simpa [Stage.handshake, Packet.course, hdir, *] using hs
    · simp [hdir, h] at hd
    · simpa [Stage.handshake, Packet.course, hdir, *] using hs
    · simpa [Stage.handshake, Packet.course, hdir, *] using hs

theorem Fits.next {d e : Delivery} {maxAttempts now : Nat} {m : Move} (h : d.Fits)
    (hm : d.Moves maxAttempts now m) (he : m.next = some e) : e.Fits := by
  cases hm with
  | send hd hs =>
    obtain rfl := Option.some.inj he
    refine h.mem_course ?_ (.inl hd)
    cases hst : d.stage <;> simp_all [Stage.sent?, Stage.handshake, sent]
  | wait =>
    obtain rfl := Option.some.inj he
    exact h
  | sendAgain =>
    obtain rfl := Option.some.inj he
    simpa [Fits, sent] using h
  | confirm hd hs =>
    obtain rfl := Option.some.inj he
    refine h.mem_course ?_ (.inr (by simp [hs]))
    simp [sent, Stage.handshake, hd, hs]
  | _ => cases he

/-- What a move leaves is the same message under the same key. -/
theorem Moves.same_next {d e : Delivery} {maxAttempts now : Nat} {m : Move}
    (h : d.Moves maxAttempts now m) (he : m.next = some e) :
    e.packet.id? = d.packet.id? ∧ e.qos = d.qos := by
  cases h with
  | send | wait | confirm =>
    obtain rfl := Option.some.inj he
    exact ⟨rfl, rfl⟩
  | sendAgain =>
    obtain rfl := Option.some.inj he
    exact ⟨id?_withDup d true, qos_withDup d true⟩
  | _ => cases he

theorem Moves.next_of_put {d e : Delivery} {maxAttempts now : Nat} {m : Move}
    (h : d.Moves maxAttempts now m) (he : m.record = .put e) : m.next = some e := by
  cases h with
  | send | sendAgain =>
    unfold transmit at he ⊢
    dsimp only at he ⊢
    split at he
    next =>
      cases he
      rfl
    next => cases he
  | confirm =>
    cases he
    rfl
  | _ => cases he

theorem Coherent.next {d e : Delivery} {maxAttempts now : Nat} {m : Move} (h : d.Coherent)
    (hm : d.Moves maxAttempts now m) (he : m.next = some e) : e.Coherent := by
  obtain ⟨hid, hq⟩ := hm.same_next he
  exact h.of_fits (h.fits.next hm he) hid hq (hm.key_next he)

/-- A broker's message that is still held after its move waits for its release. -/
theorem Fits.awaitPubrel_of_next {d e : Delivery} {maxAttempts now : Nat} {m : Move}
    (h : d.Fits) (hm : d.Moves maxAttempts now m) (hd : d.direction = .incoming)
    (he : m.next = some e) : e.stage = .awaitPubrel := by
  cases hm with
  | wait hw =>
    obtain rfl := Option.some.inj he
    obtain ⟨_, _, ⟨_, hs⟩ | ⟨_, hs⟩ | ⟨_, _, hs | hs⟩⟩ := h.incoming_cases hd
    case inr.inr.inr => exact hs
    all_goals simp [hs, Stage.isWaiting] at hw
  | confirm =>
    obtain rfl := Option.some.inj he
    rfl
  | send hout | sendAgain hout => simp [hd] at hout
  | _ => cases he

theorem Coherent.origin?_packet {d : Delivery} (h : d.Coherent) (hd : d.direction = .outgoing) :
    d.packet.origin? = if d.qos = 0 then none else some d.key := by
  have hcarried := h.carried
  have hkey : d.key = ⟨d.id, .outgoing⟩ := by simp [key, hd]
  obtain ⟨p, hp, _⟩ | ⟨p, hp, _⟩ | ⟨p, hp, _⟩ := h.fits.outgoing_cases hd
  · simp only [hp, Packet.id?] at hcarried
    simp only [hp, Packet.origin?, hcarried, hkey]
    split <;> rfl
  all_goals simp_all [Packet.id?, Packet.origin?, qos, message?]

theorem Coherent.origin_packet {d : Delivery} (h : d.Coherent) (hd : d.direction = .outgoing) :
    d.packet.origin? = none ∨ d.packet.origin? = some d.key := by
  rw [h.origin?_packet hd]
  split
  next => exact .inl rfl
  next => exact .inr rfl

theorem Coherent.about_report {d : Delivery} (h : d.Coherent) (hd : d.direction = .incoming) :
    ∀ e ∈ d.report, e.origin = d.key := by
  have hc := h.carried
  obtain ⟨p, hp, _⟩ := h.incoming_cases hd
  intro e he
  have he : e = .received p := by simpa [report, message?, hp] using he
  subst he
  by_cases hq : p.qos = 0
  · have hid : d.id = 0 := h.numbered.mpr ⟨hd, by simp [qos, message?, hp, hq]⟩
    simp_all [Packet.id?, qos, message?, Event.origin, key]
  · simp_all [Packet.id?, qos, message?, Event.origin, key]

theorem Coherent.report_ne_nil {d : Delivery} (h : d.Coherent) (hd : d.direction = .incoming) :
    d.report ≠ [] := by
  obtain ⟨p, hp, -⟩ := h.incoming_cases hd
  simp [report, message?, hp]

/-- A delivery's work names no other delivery. -/
theorem Coherent.about {d : Delivery} {maxAttempts now : Nat} {m : Move} (h : d.Coherent)
    (hm : d.Moves maxAttempts now m) : m.work.About d.key := by
  cases hm with
  | send hd hs =>
    refine ⟨?_, by simp [transmit]⟩
    simp only [transmit, wire, List.mem_singleton, forall_eq]
    split
    next => simp [Packet.origin?, key, hd]
    next => exact h.origin_packet hd
  | wait => exact ⟨by simp, by simp⟩
  | sendAgain hd hw =>
    refine ⟨?_, by simp [transmit]⟩
    simp only [transmit, repeated, List.mem_singleton, forall_eq]
    split
    next => simp [Packet.origin?, key, hd]
    next => simpa using h.origin_packet hd
  | giveUp hd hw =>
    refine ⟨by simp, ?_⟩
    simp only [failure, List.mem_singleton, forall_eq]
    split <;> simp [Event.origin, key, hd]
  | fire hd hs =>
    exact ⟨by simpa using h.origin_packet hd, by simp [Event.origin, key, hd]⟩
  | hand hd hs => exact ⟨by simp, h.about_report hd⟩
  | answer hd hs => exact ⟨by simp [Packet.origin?, key, hd], h.about_report hd⟩
  | confirm hd hs => exact ⟨by simp [Packet.origin?, key, hd], by simp⟩

/-! Where deliveries come from, and what else changes them. -/

theorem coherent_publish {id : UInt16} (hid : id ≠ 0) (p : Publish) : (publish id p).Coherent := by
  by_cases hq : p.qos = 0
  · constructor <;> simp [publish, Packet.course, Packet.id?, qos, message?, Stage.ofQos, hq, hid]
  · by_cases hq1 : p.qos = 1 <;> constructor <;>
      simp [publish, Packet.course, Packet.id?, qos, message?, Stage.ofQos, hq, hq1, hid]

theorem coherent_subscribe {p : Subscribe} (hid : p.id ≠ 0) : (subscribe p).Coherent := by
  constructor <;> simp [subscribe, Packet.course, Packet.id?, qos, message?, hid]

theorem coherent_unsubscribe {p : Unsubscribe} (hid : p.id ≠ 0) : (unsubscribe p).Coherent := by
  constructor <;> simp [unsubscribe, Packet.course, Packet.id?, qos, message?, hid]

theorem coherent_received {p : Publish} (h : p.Numbered) : (received p).Coherent := by
  have hle := h.qos_le
  rcases h.id_eq with ⟨hq, hid⟩ | ⟨hq, id, hne, hid⟩
  · constructor <;> simp [received, Packet.course, Packet.id?, qos, message?, Stage.ofQos, hq, hid]
  · by_cases hq1 : p.qos = 1 <;> constructor <;>
      simp [received, Packet.course, Packet.id?, qos, message?, Stage.ofQos, hq, hq1, hid, hne, hle]

theorem Fits.rewound {d : Delivery} (h : d.Fits) : d.rewound.Fits := by
  unfold Delivery.rewound
  dsimp only
  split
  next hd hs =>
    have hmem : Stage.queued1 ∈ _ := h.mem_course (by simp [Stage.handshake, hs]) (.inl hd)
    simpa [Fits] using hmem
  next hd hs =>
    have hmem : Stage.queued2 ∈ _ := h.mem_course (by simp [Stage.handshake, hs]) (.inl hd)
    simpa [Fits] using hmem
  next hd hs =>
    have hmem : Stage.sendPubrel ∈ _ := h.mem_course (by simp [Stage.handshake, hs]) (.inl hd)
    simpa [Fits] using hmem
  next => exact h

theorem qos_rewound (d : Delivery) : d.rewound.qos = d.qos := by
  have hzero : ({ d with attempts := 0, sentAt := none } : Delivery).qos = d.qos := rfl
  have hstage : ∀ (e : Delivery) (stage : Stage), ({ e with stage } : Delivery).qos = e.qos :=
    fun _ _ => rfl
  unfold Delivery.rewound
  dsimp only
  split <;> simp only [hstage, qos_withDup, hzero]

@[simp] theorem isTracked_rewound (d : Delivery) : d.rewound.isTracked = d.isTracked := by
  have hzero : ({ d with attempts := 0, sentAt := none } : Delivery).isTracked = d.isTracked := rfl
  have hstage : ∀ (e : Delivery) (stage : Stage), ({ e with stage } : Delivery).isTracked =
      e.isTracked := fun _ _ => rfl
  unfold Delivery.rewound
  dsimp only
  split <;> simp only [hstage, isTracked_withDup, hzero]

theorem id?_rewound (d : Delivery) : d.rewound.packet.id? = d.packet.id? := by
  unfold Delivery.rewound
  dsimp only
  split <;> simp

theorem Coherent.rewound {d : Delivery} (h : d.Coherent) : d.rewound.Coherent :=
  h.of_fits h.fits.rewound (id?_rewound d) (qos_rewound d) (key_rewound d)

/-- A held message whose PUBLISH has come again is to be answered again. -/
def reopened (d : Delivery) : Delivery :=
  if d.stage = .awaitPubrel then { d with stage := .queued2 } else d

@[simp] theorem key_reopened (d : Delivery) : d.reopened.key = d.key := by
  unfold reopened
  split <;> rfl

theorem Fits.reopened {d : Delivery} (h : d.Fits) : d.reopened.Fits := by
  unfold Delivery.reopened
  split
  next hs => exact h.mem_course (by simp [Stage.handshake, hs]) (.inr (by simp [hs]))
  next => exact h

theorem Coherent.reopened {d : Delivery} (h : d.Coherent) : d.reopened.Coherent := by
  refine h.of_fits h.fits.reopened ?_ ?_ (key_reopened d) <;>
  · unfold Delivery.reopened
    split <;> rfl

@[simp] theorem key_release (maxAttempts : Nat) (d : Delivery) :
    (DeliveryQueue.release maxAttempts d).key = d.key := by
  unfold DeliveryQueue.release
  split
  next => rfl
  next => split <;> rfl

theorem Fits.release {d : Delivery} (h : d.Fits) (maxAttempts : Nat)
    (hs : d.stage = .awaitPubrec ∨ d.stage = .awaitPubcomp) :
    (DeliveryQueue.release maxAttempts d).Fits := by
  have hmem : Stage.sendPubrel ∈ d.packet.course d.direction := by
    refine h.mem_course ?_ (.inr ?_) <;> rcases hs with hs | hs <;> simp [Stage.handshake, hs]
  unfold DeliveryQueue.release
  split
  next => exact hmem
  next =>
    split
    next => exact hmem
    next => exact h

theorem Coherent.release {d : Delivery} (h : d.Coherent) (maxAttempts : Nat)
    (hs : d.stage = .awaitPubrec ∨ d.stage = .awaitPubcomp) :
    (DeliveryQueue.release maxAttempts d).Coherent := by
  refine h.of_fits (h.fits.release maxAttempts hs) ?_ ?_ (key_release maxAttempts d) <;>
  · unfold DeliveryQueue.release
    split
    next => rfl
    next => split <;> rfl

end Delivery
end Mqtt
