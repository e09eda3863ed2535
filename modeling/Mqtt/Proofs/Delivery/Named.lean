import Mqtt.Proofs.Delivery.Course

/-! What a delivery does concerns its own key: what is left of it, what the session is told, and
what its packets and events name. -/
namespace Mqtt

/-- The delivery that an acknowledgment is addressed to. -/
def Packet.addressee? (ack : Packet) : Option Key :=
  ack.answers.map Prod.fst

/-- A step after which the delivery is under its key or gone, and the session knows of no other. -/
structure Move.Within (m : Move) (k : Key) : Prop where
  next : ∀ e, m.next = some e → e.key = k
  record : m.record.key? = none ∨ m.record.key? = some k

namespace Delivery

/-- What a delivery of our own sends, and what a broker's message reports, names no other delivery.
Every delivery is made so. -/
structure Named (d : Delivery) : Prop where
  packet : d.direction = .outgoing → d.packet.origin? = none ∨ d.packet.origin? = some d.key
  report : d.direction = .incoming → ∀ e ∈ d.report, e.origin = d.key

theorem named_publish (id : UInt16) (p : Publish) : (publish id p).Named := by
  refine ⟨fun _ => ?_, fun h => by cases h⟩
  by_cases hq : p.qos = 0 <;> simp [publish, Packet.origin?, key, hq]

theorem named_subscribe (p : Subscribe) : (subscribe p).Named :=
  ⟨fun _ => .inr rfl, fun h => by cases h⟩

theorem named_unsubscribe (p : Unsubscribe) : (unsubscribe p).Named :=
  ⟨fun _ => .inr rfl, fun h => by cases h⟩

theorem named_received (p : Publish) : (received p).Named := by
  refine ⟨(fun h => by cases h), fun _ e he => ?_⟩
  obtain rfl : e = .received p := by simpa [received, report, message?] using he
  rfl

theorem Coherent.named {d : Delivery} (h : d.Coherent) : d.Named :=
  ⟨h.origin_packet, h.about_report⟩

variable {d : Delivery}

/-- Only the packet and the key of a delivery decide what it names. -/
theorem Named.restage {e : Delivery} (h : d.Named) (hp : e.packet = d.packet)
    (hk : e.key = d.key) : e.Named := by
  have hdir : e.direction = d.direction := congrArg Key.direction hk
  have hreport : Delivery.report e = Delivery.report d := by
    simp only [Delivery.report, message?, hp]
  constructor
  · rw [hdir, hp, hk]
    exact h.packet
  · rw [hdir, hreport, hk]
    exact h.report

theorem Named.release (h : d.Named) (maxAttempts : Nat) :
    (DeliveryQueue.release maxAttempts d).Named := by
  refine h.restage ?_ (key_release maxAttempts d)
  unfold DeliveryQueue.release
  split
  next => rfl
  next => split <;> rfl

theorem Named.withDup (h : d.Named) (dup : Bool) : (d.withDup dup).Named := by
  unfold Delivery.withDup
  split
  next p hp =>
    refine ⟨fun hd => ?_, fun hd e he => ?_⟩
    · have hpacket := h.packet hd
      rw [hp] at hpacket
      exact hpacket
    · obtain rfl : e = .received { p with dup } := by simpa [Delivery.report, message?] using he
      exact h.report hd (.received p) (by simp [Delivery.report, message?, hp])
  next => exact h

theorem Named.reopened (h : d.Named) : d.reopened.Named := by
  refine h.restage ?_ (key_reopened d)
  unfold Delivery.reopened
  split <;> rfl

theorem Named.rewound (h : d.Named) : d.rewound.Named := by
  have hcleared : Named { d with attempts := 0, sentAt := none } := h.restage rfl rfl
  unfold Delivery.rewound
  dsimp only
  split
  next => exact (hcleared.withDup true).restage rfl rfl
  next => exact (hcleared.withDup true).restage rfl rfl
  next => exact (hcleared.withDup false).restage rfl rfl
  next => exact hcleared

theorem Named.next {e : Delivery} {maxAttempts now : Nat} {m : Move} (h : d.Named)
    (hm : d.Moves maxAttempts now m) (he : m.next = some e) : e.Named := by
  cases hm with
  | send | wait | confirm =>
    obtain rfl := Option.some.inj he
    exact h.restage rfl rfl
  | sendAgain =>
    obtain rfl := Option.some.inj he
    exact (h.withDup true).restage rfl rfl
  | _ => cases he

/-! Whatever its stage, a delivery's step stays within its key. -/

theorem within_wait (d : Delivery) : Move.Within { next := some d } d.key :=
  ⟨fun _ he => by rw [← Option.some.inj he], .inl rfl⟩

theorem within_gone {r : Record} {k : Key} (w : Work) (hr : r.key? = none ∨ r.key? = some k) :
    Move.Within { next := none, record := r, work := w } k :=
  ⟨(fun _ he => by cases he), hr⟩

theorem within_transmit (d : Delivery) (packet : Packet) (stage : Stage) (now : Nat) :
    (d.transmit packet stage now).Within d.key := by
  constructor
  · intro e he
    rw [← Option.some.inj he, key_sent]
  · unfold transmit
    dsimp only
    split
    next => exact .inr rfl
    next => exact .inl rfl

theorem within_retry (d : Delivery) (delay maxAttempts now : Nat) :
    (d.retry delay maxAttempts now).Within d.key := by
  unfold retry
  split
  next => exact within_wait d
  next =>
    split
    next => exact within_wait d
    next =>
      split
      next => simpa using within_transmit (d.withDup true) d.repeated d.stage now
      next => exact within_gone _ (.inr rfl)

theorem within_move (d : Delivery) (delay maxAttempts now : Nat) :
    (d.move delay maxAttempts now).Within d.key := by
  unfold move
  split
  next => exact within_gone _ (.inl rfl)
  next => exact within_transmit ..
  next => exact within_transmit ..
  next => exact within_transmit ..
  next => exact within_transmit ..
  next => exact within_transmit ..
  next => exact within_retry ..
  next => exact within_gone _ (.inl rfl)
  next => exact within_gone _ (.inl rfl)
  next => exact ⟨fun e he => by rw [← Option.some.inj he, key_sent], .inr rfl⟩
  next => exact within_wait d

/-! A delivery that names no other works for itself alone. -/

theorem about_transmit {packet : Packet} {k : Key}
    (hp : packet.origin? = none ∨ packet.origin? = some k) (d : Delivery) (stage : Stage)
    (now : Nat) : (d.transmit packet stage now).work.About k :=
  ⟨by simpa [transmit] using hp, by simp [transmit]⟩

theorem Named.about_retry (h : d.Named) (hd : d.direction = .outgoing)
    (delay maxAttempts now : Nat) : (d.retry delay maxAttempts now).work.About d.key := by
  have hkey : d.key = ⟨d.id, .outgoing⟩ := by rw [key, hd]
  unfold Delivery.retry
  split
  next => exact ⟨by simp, by simp⟩
  next =>
    split
    next => exact ⟨by simp, by simp⟩
    next =>
      split
      next =>
        refine about_transmit ?_ _ _ _
        unfold repeated
        split
        next => exact .inr (congrArg some hkey.symm)
        next => simpa using h.packet hd
      next =>
        refine ⟨by simp, ?_⟩
        simp only [failure, List.mem_singleton, forall_eq, hkey]
        split <;> rfl

theorem Named.about_move (h : d.Named) (delay maxAttempts now : Nat) :
    (d.move delay maxAttempts now).work.About d.key := by
  unfold Delivery.move
  split
  next hd _ => exact ⟨by simpa using h.packet hd, by simp [Event.origin, key, hd]⟩
  next hd _ => exact about_transmit (h.packet hd) ..
  next hd _ => exact about_transmit (h.packet hd) ..
  next hd _ => exact about_transmit (.inr (by simp [Packet.origin?, key, hd])) ..
  next hd _ => exact about_transmit (h.packet hd) ..
  next hd _ => exact about_transmit (h.packet hd) ..
  next => exact h.about_retry (by assumption) ..
  next hd _ => exact ⟨by simp, h.report hd⟩
  next hd _ => exact ⟨by simp [Packet.origin?, key, hd], h.report hd⟩
  next hd _ => exact ⟨by simp [Packet.origin?, key, hd], by simp⟩
  next => exact ⟨by simp, by simp⟩

end Delivery

namespace DeliveryQueue

theorem about_unmatched {ack : Packet} {key : Key} {stages : List Stage}
    (h : ack.answers = some (key, stages)) : (unmatched ack).About key := by
  cases ack <;> simp only [Packet.answers, Option.some.injEq, Prod.mk.injEq, reduceCtorEq] at h <;>
    obtain ⟨rfl, rfl⟩ := h <;> constructor <;> simp [unmatched, Packet.origin?]

/-- The end of a handshake is reported for the delivery that is acknowledged. -/
theorem about_completion {ack : Packet} {stages : List Stage} {d : Delivery} (hd : d.Named)
    (ha : ack.answers = some (d.key, stages)) : (completion ack d).About d.key := by
  cases ack with
  | pubRel id =>
    have hkey : ⟨id, .incoming⟩ = d.key := congrArg Prod.fst (Option.some.inj ha)
    refine ⟨?_, hd.report (congrArg Key.direction hkey).symm⟩
    simp [completion, Packet.origin?, hkey]
  | pubAck id | pubRec id | pubComp id | unsubAck id =>
    have hkey : ⟨id, .outgoing⟩ = d.key := congrArg Prod.fst (Option.some.inj ha)
    have hid : id = d.id := congrArg Key.id hkey
    refine ⟨by simp [completion], ?_⟩
    simp [completion, Event.origin, ← hkey, hid]
  | subAck p =>
    have hkey : ⟨p.id, .outgoing⟩ = d.key := congrArg Prod.fst (Option.some.inj ha)
    refine ⟨by simp [completion], ?_⟩
    simp [completion, Event.origin, ← hkey]
  | _ => cases ha

end DeliveryQueue
end Mqtt
