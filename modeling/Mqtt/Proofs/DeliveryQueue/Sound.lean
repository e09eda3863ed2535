import Mqtt.Proofs.DeliveryQueue.Tidy

/-! What every operation on a queue of coherent deliveries preserves. -/
namespace Mqtt.DeliveryQueue

/-- A queue with a true index, coherent deliveries and no more of our own than it has room for,
under the limits of `σ`. -/
structure Sound (σ : Settings) (q : DeliveryQueue) : Prop where
  keyed : q.Keyed
  coherent : ∀ d ∈ q.deliveries, d.Coherent
  fits : q.outgoingCount ≤ q.capacity
  capacity : q.capacity = σ.capacity
  retryDelay : q.retryDelay = σ.retryDelay
  maxAttempts : q.maxAttempts = σ.maxAttempts

variable {σ : Settings} {q : DeliveryQueue}

theorem Sound.tidy (h : q.Sound σ) : q.Tidy σ :=
  ⟨h.keyed, h.fits, h.capacity, h.retryDelay, h.maxAttempts⟩

theorem Tidy.sound (h : q.Tidy σ) (hc : ∀ d ∈ q.deliveries, d.Coherent) : q.Sound σ :=
  ⟨h.keyed, hc, h.fits, h.capacity, h.retryDelay, h.maxAttempts⟩

theorem Sound.named (h : q.Sound σ) : q.Named :=
  fun d hd => (h.coherent d hd).named

theorem sound_ofSettings (σ : Settings) : (ofSettings σ).Sound σ :=
  (tidy_ofSettings σ).sound (by simp [ofSettings])

theorem Sound.coherent_of_get? (h : q.Sound σ) {k : Key} {d : Delivery} (hd : q.get? k = some d) :
    d.Coherent :=
  h.coherent d (h.keyed.get?_eq_some_iff.mp hd).2.1

/-- A queue finds nothing under a key without identifier. -/
theorem Sound.id_ne_zero (h : q.Sound σ) {k : Key} {d : Delivery} (hd : q.get? k = some d) :
    k.id ≠ 0 :=
  (h.keyed.get?_eq_some_iff.mp hd).1

theorem Sound.enqueue (h : q.Sound σ) {d : Delivery} (hc : d.Coherent)
    (hd : d.id ≠ 0 → q.get? d.key = none) (hroom : d.direction = .outgoing → q.isFull = false) :
    (q.enqueue d).Sound σ :=
  (h.tidy.enqueue hd hroom).sound (forall_enqueue h.coherent hc)

theorem Sound.applyAck (h : q.Sound σ) (s : Session) (ack : Packet) :
    (q.applyAck s ack).1.Sound σ :=
  (h.tidy.applyAck s ack).sound
    (h.keyed.forall_applyAck h.coherent (fun _ hd hs => hd.release _ hs) s ack)

theorem Sound.applyAcks (h : q.Sound σ) (s : Session) (acks : List Packet) :
    (q.applyAcks s acks).1.Sound σ :=
  (h.tidy.applyAcks s acks).sound
    (h.tidy.forall_applyAcks h.coherent (fun _ hd hs => hd.release _ hs) s acks)

theorem Sound.pass (h : q.Sound σ) (s : Session) (acks : List Packet) (now : Nat) :
    (q.pass s acks now).1.Sound σ :=
  (h.tidy.pass s acks now).sound
    (h.tidy.forall_pass h.coherent (fun _ hd hs => hd.release _ hs)
      (fun _ _ hd he => hd.next (hd.moves _ _ now) he) s acks)

/-- The broker's messages that a pass leaves wait for their release. -/
theorem Sound.awaitPubrel_of_mem_pass (h : q.Sound σ) (s : Session) (acks : List Packet)
    (now : Nat) :
    ∀ d ∈ (q.pass s acks now).1.deliveries, d.direction = .incoming → d.stage = .awaitPubrel := by
  refine h.tidy.forall_pass h.coherent (fun _ hd hs => hd.release _ hs) (fun d e hd he hin => ?_)
    s acks
  have hm := hd.moves σ.retryDelay σ.maxAttempts now
  have hdir : d.direction = .incoming :=
    (congrArg Key.direction (hm.key_next he)).symm.trans hin
  exact hd.fits.awaitPubrel_of_next hm hdir he

theorem Sound.accept (h : q.Sound σ) {p : Publish} (hp : p.Numbered) : (q.accept p).2.Sound σ :=
  (h.tidy.accept hp).sound
    (h.keyed.forall_accept h.coherent hp (Delivery.coherent_received hp) fun _ hd => hd.reopened)

theorem Sound.load (h : q.Sound σ) {ds : List Delivery} (hc : ∀ d ∈ ds, d.Coherent) :
    (q.load ds).2.Sound σ :=
  (h.tidy.load ds).sound (forall_load h.coherent hc)

end Mqtt.DeliveryQueue
