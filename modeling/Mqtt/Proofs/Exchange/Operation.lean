import Mqtt.Proofs.Delivery.Timing
import Mqtt.Proofs.Exchange.Reachable

/-!
The operations of a queue and its session, each by itself: deliveries are pushed as they are made,
under any identifier that is free.
-/
namespace Mqtt

inductive Operation where
  | pushed (d : Delivery)
  | refused (d : Delivery) (error : ClientError)
  | accepted (message : Publish) (outcome : Acceptance)
  /-- A pass at `now`, when the queue's next deadline was `due`. -/
  | passed (now : Nat) (due : Option Nat) (work : Work)

namespace Operation

def work : Operation → Work
  | .passed _ _ work => work
  | _ => {}

/-- What an operation sends for the delivery under a key, and when. -/
def sent (k : Key) : Operation → List (Packet × Nat)
  | .passed now _ work => (work.of k).outgoing.map fun p => (p, now)
  | _ => []

def begins (k : Key) : Operation → Bool
  | .pushed d => d.key = k
  | _ => false

def Punctual : Operation → Prop
  | .passed now (some due) _ => now ≤ due
  | _ => True

def latest (before : Nat) : Operation → Nat
  | .passed now _ _ => max before now
  | _ => before

end Operation

theorem Request.fresh (r : Request) (id : UInt16) : (r.delivery id).Fresh := by
  cases r with
  | publish message => exact .publish id message
  | subscribe => exact .subscribe _
  | unsubscribe => exact .unsubscribe _

namespace Exchange

/-- A queue's operations. Whoever pushes a message that outlives its connection may have the
session keep it at once; a pass does so in any case. -/
inductive Operates (x : Exchange) : Operation → Exchange → Prop where
  | push {d : Delivery} {q : DeliveryQueue} {s : Session} (fresh : d.Fresh)
      (free : x.queue.contains d.key = false) (h : x.queue.push d = .ok q)
      (kept : s = x.session ∨ d.isTracked = true ∧ s = x.session.put d) :
      Operates x (.pushed d) { queue := q, session := s }
  | refuse {d : Delivery} {error : ClientError} (fresh : d.Fresh)
      (free : x.queue.contains d.key = false) (h : x.queue.push d = .error error) :
      Operates x (.refused d error) x
  | accept {p : Publish} {outcome : Acceptance} {q : DeliveryQueue} (decoded : p.IsDecoded)
      (h : x.queue.accept p = (outcome, q)) :
      Operates x (.accepted p outcome) { x with queue := q }
  | pass {acks : List Packet} {now : Nat} {q : DeliveryQueue} {s : Session} {work : Work}
      (h : x.queue.pass x.session acks now = (q, s, work)) :
      Operates x (.passed now x.queue.nextDeadline work) { queue := q, session := s }

inductive Operated (x : Exchange) : List Operation → Exchange → Prop where
  | nil : Operated x [] x
  | snoc {t : List Operation} {e : Operation} {y z : Exchange} (run : Operated x t y)
      (op : y.Operates e z) : Operated x (t ++ [e]) z

/-- A tidy queue at rest between passes, the latest of them at `latest`, and a session that a new
connection can take up. -/
structure Regular (σ : Settings) (latest : Nat) (x : Exchange) : Prop where
  queue : x.queue.Tidy σ
  rested : ∀ d ∈ x.queue.deliveries, d.Rested σ.maxAttempts latest
  stored : ∀ d ∈ x.session.deliveries, d.Storable

variable {σ τ : Settings} {x y z : Exchange} {e : Operation} {latest now : Nat} {d : Delivery}

theorem regular_ofSettings (σ : Settings) {s : Session} (hs : ∀ d ∈ s.deliveries, d.Storable) :
    Regular σ 0 ⟨.ofSettings σ, s⟩ :=
  ⟨DeliveryQueue.tidy_ofSettings σ, by simp [DeliveryQueue.ofSettings], hs⟩

theorem regular_start (σ : Settings) (s : Session) : Regular σ 0 (start σ s) :=
  regular_ofSettings σ (by simp [Session.clear])

theorem Regular.enqueue (h : Regular σ latest x) (hd : d.Fresh)
    (hfree : x.queue.contains d.key = false)
    (hroom : d.direction = .outgoing → x.queue.isFull = false) :
    Regular σ latest { x with queue := x.queue.enqueue d } := by
  have hnew : x.queue.get? d.key = none := (h.queue.keyed.contains_eq_false_iff d.key).mp hfree
  exact ⟨h.queue.enqueue (fun _ => hnew) hroom,
    DeliveryQueue.forall_enqueue h.rested (hd.rested σ.maxAttempts latest), h.stored⟩

theorem Regular.accept (h : Regular σ latest x) {p : Publish} (hp : p.IsDecoded) :
    Regular σ latest { x with queue := (x.queue.accept p).2 } :=
  ⟨h.queue.accept hp.numbered,
    h.queue.keyed.forall_accept h.rested hp.numbered ((Delivery.Fresh.received p).rested _ _)
      fun _ hd => hd.reopened,
    h.stored⟩

theorem Regular.pass (h : Regular σ latest x) (acks : List Packet) (now : Nat) :
    Regular σ (max latest now)
      { queue := (x.queue.pass x.session acks now).1
        session := (x.queue.pass x.session acks now).2.1 } := by
  have hpaced : ∀ d ∈ x.queue.deliveries, d.Paced σ.maxAttempts latest :=
    fun d hd => (h.rested d hd).paced
  have hanswered := h.queue.forall_applyAcks hpaced (fun _ hd hs => hd.release hs) x.session acks
  refine ⟨h.queue.pass x.session acks now, ?_, ?_⟩
  · exact h.queue.forall_pass hpaced (fun _ hd hs => hd.release hs) (fun _ _ hd he => hd.next he)
      x.session acks
  · refine h.queue.session_pass (R := fun s => ∀ d ∈ s.deliveries, d.Storable) h.stored ?_ acks now
      fun d hd s hs => ?_
    · exact fun s key hs => Session.forall_record (r := .erase key) hs fun _ he => by cases he
    · exact Session.forall_record hs fun e he =>
        (hanswered d hd).toGenuine.storable_of_put ((hanswered d hd).fits.moves _ _ now) he

/-- Whatever the session kept can be loaded. -/
theorem Regular.load (h : Regular σ latest x) {s : Session}
    (hs : ∀ d ∈ s.deliveries, d.Storable) (clean : Bool) :
    Regular σ latest { x with queue := (x.queue.load (s.restore clean).1).2 } := by
  refine ⟨h.queue.load _, DeliveryQueue.forall_load h.rested fun d hd => ?_, h.stored⟩
  cases clean with
  | true => cases hd
  | false =>
    obtain ⟨e, he, rfl⟩ := List.mem_map.mp hd
    exact (hs e he).rested_rewound σ.maxAttempts latest

theorem storable_restore {s : Session} (hs : ∀ d ∈ s.deliveries, d.Storable) (clean : Bool) :
    ∀ d ∈ (s.restore clean).2.deliveries, d.Storable := by
  cases clean with
  | true => simp [Session.restore, Session.clear]
  | false =>
    intro d hd
    obtain ⟨e, he, rfl⟩ := List.mem_map.mp hd
    exact (hs e he).rewound

theorem Operates.regular (h : x.Operates e y) (hx : Regular σ latest x) :
    Regular σ (e.latest latest) y := by
  cases h with
  | push fresh free h kept =>
    obtain ⟨hroom, rfl⟩ := DeliveryQueue.exists_of_push h
    have hq := hx.enqueue fresh free hroom
    refine ⟨hq.queue, hq.rested, ?_⟩
    rcases kept with rfl | ⟨ht, rfl⟩
    · exact hx.stored
    · refine Session.forall_record (r := .put _) hx.stored fun d hd => ?_
      cases hd
      exact fresh.storable ht
  | refuse => exact hx
  | accept decoded h =>
    have hy := hx.accept decoded
    rwa [h] at hy
  | @pass acks now _ _ _ h =>
    have hy := hx.pass acks now
    rwa [h] at hy

theorem Operated.regular {t : List Operation} (h : x.Operated t y) (hx : Regular σ latest x) :
    ∃ later, Regular σ later y := by
  induction h with
  | nil => exact ⟨latest, hx⟩
  | snoc _ op ih =>
    obtain ⟨later, hy⟩ := ih
    exact ⟨_, op.regular hy⟩

/-- A new queue and the session that it is filled from. -/
theorem regular_resume (σ : Settings) {s : Session} (hs : ∀ d ∈ s.deliveries, d.Storable)
    (clientId : String) (clean : Bool) :
    Regular σ 0
      { queue := ((DeliveryQueue.ofSettings σ).resume s clientId clean).2.1
        session := ((DeliveryQueue.ofSettings σ).resume s clientId clean).2.2 } := by
  have howed : ∀ d ∈ (if s.clientId = clientId then s else { clientId }).deliveries,
      d.Storable := by
    split
    next => exact hs
    next => simp
  have hloaded := (regular_start σ s).load howed clean
  exact ⟨hloaded.queue, hloaded.rested, storable_restore howed clean⟩

theorem Step.regular {e : Entry} (h : Step σ x e y) (hx : Regular σ latest x) :
    ∃ later, Regular σ later y := by
  cases h with
  | @issue r id q s h =>
    obtain ⟨hfull, _, _, hfree, rfl, hs⟩ := DeliveryQueue.issue_spec h
    have hq := hx.enqueue (r.fresh id) (by rwa [r.key_delivery]) fun _ => hfull
    refine ⟨latest, hq.queue, hq.rested, ?_⟩
    rw [hs]
    split
    next ht =>
      refine Session.forall_record (s := { x.session with lastId := id }) (r := .put _) hx.stored
        fun d hd => ?_
      cases hd
      exact (r.fresh id).storable ht
    next => exact hx.stored
  | refuse => exact ⟨latest, hx⟩
  | accept decoded h =>
    have hy := hx.accept decoded
    rw [h] at hy
    exact ⟨latest, hy⟩
  | @pass acks now _ _ _ h =>
    have hy := hx.pass acks now
    rw [h] at hy
    exact ⟨_, hy⟩
  | reconnect h =>
    have hy := regular_resume σ hx.stored x.session.clientId false
    rw [h] at hy
    exact ⟨0, hy⟩

theorem Reachable.regular (h : Reachable σ x) : ∃ latest, Regular σ latest x := by
  induction h with
  | start σ s => exact ⟨0, regular_start σ s⟩
  | step _ step ih =>
    obtain ⟨latest, hx⟩ := ih
    exact step.regular hx
  | @connect _ τ _ clientId clean _ _ _ _ resumed ih =>
    obtain ⟨latest, hx⟩ := ih
    have hy := regular_resume τ hx.stored clientId clean
    rw [resumed] at hy
    exact ⟨0, hy⟩

/-- Everything that operations can make of queues and sessions. A queue may load what the session
of another one kept, and sessions may change hands. -/
inductive Handled : Settings → Nat → Exchange → Prop where
  | start (σ : Settings) (s : Session) : Handled σ 0 (start σ s)
  | act {σ : Settings} {latest : Nat} {x y : Exchange} {e : Operation} (h : Handled σ latest x)
      (op : x.Operates e y) : Handled σ (e.latest latest) y
  | load {σ τ : Settings} {latest before : Nat} {x z : Exchange} {clean : Bool}
      (h : Handled σ latest x) (other : Handled τ before z) :
      Handled σ latest { x with queue := (x.queue.load (z.session.restore clean).1).2 }
  | lend {σ τ : Settings} {latest before : Nat} {x z : Exchange} (h : Handled σ latest x)
      (other : Handled τ before z) : Handled σ latest { x with session := z.session }
  | restore {σ : Settings} {latest : Nat} {x : Exchange} {clean : Bool} (h : Handled σ latest x) :
      Handled σ latest { x with session := (x.session.restore clean).2 }

theorem Handled.regular (h : Handled σ latest x) : Regular σ latest x := by
  induction h with
  | start σ s => exact regular_start σ s
  | act _ op ih => exact op.regular ih
  | @load _ _ _ _ _ _ clean _ _ ih other => exact ih.load other.stored clean
  | lend _ _ ih other => exact ⟨ih.queue, ih.rested, other.stored⟩
  | @restore _ _ _ clean _ ih => exact ⟨ih.queue, ih.rested, storable_restore ih.stored clean⟩

/-- What a queue is after any operations. Its index names exactly the deliveries with an identifier,
each under a key of its own. Our own deliveries never outnumber the capacity; only another one of
ours is refused, and only then, while a message from the broker is queued or already held. Each
stage is one of the packet's handshake. A delivery of our own waits exactly if it has been sent on
this connection, which was not after the latest pass, and its attempts are counted from there. -/
theorem handled_well_formed (h : Handled σ latest x) :
    (∀ k, k ∈ x.queue.index ↔ k.id ≠ 0 ∧ ∃ d ∈ x.queue.deliveries, d.key = k) ∧
    (x.queue.deliveries.Pairwise fun d e => d.id ≠ 0 → d.key ≠ e.key) ∧
    (x.queue.deliveries.countP fun d => d.direction = .outgoing) ≤ σ.capacity ∧
    (∀ d : Delivery, x.queue.push d =
      if d.direction = .outgoing ∧ σ.capacity ≤ x.queue.outgoingCount then
        .error (.queueFull "inflight" σ.capacity)
      else .ok (x.queue.enqueue d)) ∧
    (∀ p : Publish, p.IsDecoded →
      (x.queue.accept p).1 = .queued ∧
          (x.queue.accept p).2.deliveries = x.queue.deliveries ++ [.received p] ∨
        (x.queue.accept p).1 = .duplicate ∧
          ∃ d ∈ x.queue.deliveries, d.key = (Delivery.received p).key) ∧
    ∀ d ∈ x.queue.deliveries,
      d.stage ∈ d.packet.course d.direction ∧
        (d.direction = .outgoing →
          (d.stage.isWaiting = true ↔ d.sentAt.isSome = true) ∧
            (d.sentAt = none → d.attempts = 0) ∧
            ∀ t, d.sentAt = some t →
              t ≤ latest ∧ 1 ≤ d.attempts ∧ d.attempts ≤ max 1 σ.maxAttempts) := by
  obtain ⟨hq, hrested, _⟩ := h.regular
  refine ⟨hq.keyed.mem_index, ?_, ?_, fun d => ?_, fun p hp => ?_, fun d hd => ?_⟩
  · exact hq.keyed.distinct.imp fun hkey hid heq => hid (hkey heq)
  · rw [← hq.capacity]
    exact hq.fits
  · rw [← hq.capacity]
    simp [DeliveryQueue.push, DeliveryQueue.isFull]
  · rcases hq.keyed.accept_cases hp.numbered with ⟨_, he⟩ | ⟨hheld, he⟩
    · rw [he]
      exact .inl ⟨rfl, rfl⟩
    · rw [he]
      obtain ⟨d, hd⟩ := Option.ne_none_iff_exists'.mp hheld
      obtain ⟨_, hmem, hkey⟩ := hq.keyed.get?_eq_some_iff.mp hd
      exact .inr ⟨rfl, d, hmem, hkey⟩
  · have hd := hrested d hd
    refine ⟨hd.fits, fun hdir => ?_⟩
    cases hw : d.stage.isWaiting with
    | true =>
      obtain ⟨t, ht, hle, hmin, hmax⟩ := hd.waiting hdir hw
      simp [ht, hle, hmin, hmax]
    | false =>
      obtain ⟨hnone, hzero⟩ := hd.fresh hdir hw
      simp [hnone, hzero]

/-- A message of quality 2 is sent and confirmed on one connection, and loaded on the next, where it
is to be released. -/
theorem handled_well_formed_of_loaded :
    ∃ x d, Handled {} 0 x ∧ x.queue.index = [⟨7, .outgoing⟩] ∧ x.queue.deliveries = [d] ∧
      d.stage = .sendPubrel ∧ d.sentAt = none ∧ d.attempts = 0 := by
  have hkept : Handled { capacity := 1 } 4 _ := .act (.act (.act (.start _ { clientId := "c" })
    (@Operates.push _ (.publish 7 ⟨false, 2, false, "a", none, []⟩) _ _ (.publish _ _) rfl rfl
      (.inr ⟨rfl, rfl⟩)))
    (@Operates.pass _ [] 1 _ _ _ rfl)) (@Operates.pass _ [.pubRec 7] 4 _ _ _ rfl)
  have hloaded : Handled {} 0 _ :=
    @Handled.load _ _ _ _ _ _ false (.start {} { clientId := "c" }) hkept
  obtain ⟨_, _, _, _, _, hall⟩ := handled_well_formed hloaded
  have hcounts := ((hall _ List.mem_cons_self).2 rfl).2.1 rfl
  exact ⟨_, _, hloaded, rfl, rfl, rfl, rfl, hcounts⟩

end Exchange
end Mqtt
