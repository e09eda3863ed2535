import Mqtt.Proofs.Client.Flow
import Mqtt.Proofs.DeliveryQueue.Outgoing
import Mqtt.Proofs.Exchange.Conservation

/-!
Whatever the worker sends answers the broker or comes from a call, however often a connection is
lost and another one takes up the session. Only a text that no check looks at can keep it off the
line.
-/
namespace Mqtt

/-- The packet answers a packet of the broker and carries nothing but an identifier. -/
def Packet.isAnswer : Packet → Bool
  | .pubAck _ | .pubRec _ | .pubComp _ => true
  | _ => false

/-- The packets that the worker has yet to send. -/
def Worker.packets : Worker → List Packet
  | .writing rest _ | .sending rest _ => rest
  | _ => []

theorem Packet.writable_pubRel {id : UInt16} (hid : id ≠ 0) : (Packet.pubRel id).Writable := by
  rw [writable_iff]
  refine ⟨⟨fun _ _ hz => hid (Option.some.inj hz), fun u hu => by cases hu⟩, _, rfl, ?_⟩
  simp [Octets.ofUInt16, RemainingLength.max]

theorem Worker.mem_packets_of_sent {w : Worker} {task : Task} {outcome : Except ClientError Unit}
    {p : Packet} (h : p ∈ (w.sent task outcome).packets) : p ∈ w.packets := by
  unfold sent at h
  split at h
  next => exact h
  next => cases h
  next => exact h

theorem Worker.packets_of_isIdle {w : Worker} (h : w.isIdle = true) : w.packets = [] := by
  cases w <;> first | rfl | cases h

namespace Client

/-- A delivery of our own carries what a call has asked for. -/
def Requested (t : List Milestone) (d : Delivery) : Prop :=
  d.direction = .outgoing → d.id ≠ 0 ∧ ∃ (call : Call) (r : Request),
    call.request = .ok r ∧ .issued r d.id ∈ t ∧ r.Carried d.id d

/-- The packet answers the broker, or belongs to what a call has asked for. -/
def Sendable (t : List Milestone) (p : Packet) : Prop :=
  p.isAnswer = true ∨ ∃ (call : Call) (r : Request) (id : UInt16),
    call.request = .ok r ∧ .issued r id ∈ t ∧ id ≠ 0 ∧
      (p = .pubRel id ∨ ∃ dup, p = ((r.delivery id).withDup dup).packet)

variable {t u : List Milestone} {d e : Delivery}

theorem Requested.mono (h : Requested t d) (hsub : t ⊆ u) : Requested u d := by
  intro hd
  obtain ⟨hid, call, r, hcall, hissued, hcarried⟩ := h hd
  exact ⟨hid, call, r, hcall, hsub hissued, hcarried⟩

theorem Sendable.mono {p : Packet} (h : Sendable t p) (hsub : t ⊆ u) : Sendable u p := by
  rcases h with h | ⟨call, r, id, hcall, hissued, h⟩
  · exact .inl h
  · exact .inr ⟨call, r, id, hcall, hsub hissued, h⟩

theorem Requested.restage (h : Requested t d) (hkey : e.key = d.key)
    (hcarried : ∀ r, Request.Carried r d.id d → Request.Carried r d.id e) : Requested t e := by
  have hid : e.id = d.id := congrArg Key.id hkey
  have hdirection : e.direction = d.direction := congrArg Key.direction hkey
  intro he
  rw [hid]
  obtain ⟨hne, call, r, hcall, hissued, hd⟩ := h (hdirection ▸ he)
  exact ⟨hne, call, r, hcall, hissued, hcarried r hd⟩

theorem requested_of_incoming (h : d.direction = .incoming) : Requested t d := by
  intro hd
  rw [h] at hd
  cases hd

theorem Requested.sendable (h : Requested t d) (hd : d.direction = .outgoing) {p : Packet}
    (hp : p = .pubRel d.id ∨ p = d.packet ∨ p = (d.withDup true).packet) : Sendable t p := by
  obtain ⟨hid, call, r, hcall, hissued, hcarried⟩ := h hd
  refine .inr ⟨call, r, d.id, hcall, hissued, hid, ?_⟩
  rcases hp with hp | rfl | rfl
  · exact .inl hp
  · exact .inr hcarried
  · exact .inr (hcarried.withDup true)

/-! Each step of a delivery goes on with the request and sends nothing else. -/

/-- What is left of a delivery, what the session is told and what is sent. -/
structure Onward (t : List Milestone) (m : Move) : Prop where
  next : ∀ e, m.next = some e → Requested t e
  record : ∀ e, m.record = .put e → Requested t e
  outgoing : ∀ p ∈ m.work.outgoing, Sendable t p

theorem Requested.onward_wait (h : Requested t d) : Onward t { next := some d } := by
  refine ⟨fun e he => ?_, fun e he => ?_, by simp⟩
  · cases he
    exact h
  · cases he

theorem onward_gone {r : Record} {w : Work} (hr : r.key? = none ∨ r = .erase d.key)
    (hw : ∀ p ∈ w.outgoing, Sendable t p) : Onward t { next := none, record := r, work := w } := by
  refine ⟨fun e he => ?_, fun e he => ?_, hw⟩
  · cases he
  · obtain rfl : r = .put e := he
    rcases hr with hr | hr <;> cases hr

theorem Requested.onward_transmit (h : Requested t d) {p : Packet} (hp : Sendable t p)
    (stage : Stage) (now : Nat) : Onward t (d.transmit p stage now) := by
  have hsent : Requested t (d.sent stage now) := h.restage rfl fun _ hr => hr
  refine ⟨fun e he => ?_, fun e he => ?_, by simpa [Delivery.transmit] using hp⟩
  · cases he
    exact hsent
  · unfold Delivery.transmit at he
    dsimp only at he
    split at he
    next =>
      cases he
      exact hsent
    next => cases he

theorem Requested.onward_retry (h : Requested t d) (hd : d.direction = .outgoing)
    (delay maxAttempts now : Nat) : Onward t (d.retry delay maxAttempts now) := by
  unfold Delivery.retry
  split
  next => exact h.onward_wait
  next =>
    split
    next => exact h.onward_wait
    next =>
      split
      next =>
        have hdup : Requested t (d.withDup true) :=
          h.restage (Delivery.key_withDup d true) fun _ hr => hr.withDup true
        refine hdup.onward_transmit (h.sendable hd ?_) d.stage now
        unfold Delivery.repeated
        split
        next => exact .inl rfl
        next => exact .inr (.inr rfl)
      next => exact onward_gone (.inr rfl) (by simp)

theorem Requested.onward_move (h : Requested t d) (delay maxAttempts now : Nat) :
    Onward t (d.move delay maxAttempts now) := by
  have hpacket : d.direction = .outgoing → Sendable t d.packet :=
    fun hd => h.sendable hd (.inr (.inl rfl))
  unfold Delivery.move
  split
  next hd _ => exact onward_gone (d := d) (.inl rfl) (by simpa using hpacket hd)
  next hd _ => exact h.onward_transmit (hpacket hd) ..
  next hd _ => exact h.onward_transmit (hpacket hd) ..
  next hd _ => exact h.onward_transmit (h.sendable hd (.inl rfl)) ..
  next hd _ => exact h.onward_transmit (hpacket hd) ..
  next hd _ => exact h.onward_transmit (hpacket hd) ..
  next => exact h.onward_retry (by assumption) ..
  next => exact onward_gone (d := d) (.inl rfl) (by simp)
  next => exact onward_gone (d := d) (.inl rfl) (by simp [Sendable, Packet.isAnswer])
  next hd _ =>
    have hsent : Requested t (d.sent .awaitPubrel now) := requested_of_incoming hd
    refine ⟨fun e he => ?_, fun e he => ?_, by simp [Sendable, Packet.isAnswer]⟩
    · cases he
      exact hsent
    · cases he
      exact hsent
  next => exact h.onward_wait

/-! Neither a queue nor a session ever holds another delivery of our own. -/

/-- All deliveries that are held go back to calls. -/
structure Backs (t : List Milestone) (q : DeliveryQueue) (s : Session) : Prop where
  queued : ∀ d ∈ q.deliveries, Requested t d
  stored : ∀ d ∈ s.deliveries, Requested t d

variable {q : DeliveryQueue} {s : Session}

theorem Backs.mono (h : Backs t q s) (hsub : t ⊆ u) : Backs u q s :=
  ⟨fun d hd => (h.queued d hd).mono hsub, fun d hd => (h.stored d hd).mono hsub⟩

theorem isAnswer_of_applyAcks {acks : List Packet} {p : Packet}
    (h : p ∈ (q.applyAcks s acks).2.2.outgoing) : p.isAnswer = true := by
  obtain ⟨id, rfl⟩ := DeliveryQueue.exists_pubComp_of_mem_applyAcks h
  rfl

theorem Backs.applyAck (h : Backs t q s) (ack : Packet) :
    Backs t (q.applyAck s ack).1 (q.applyAck s ack).2.1 := by
  unfold DeliveryQueue.applyAck
  split
  next => exact h
  next key stages _ =>
    split
    next => exact h
    next d _ =>
      split
      next => exact h
      next =>
        split
        next =>
          refine ⟨fun e he => ?_, h.stored⟩
          rcases DeliveryQueue.mem_modify he with he | ⟨f, hf, _, rfl⟩
          · exact h.queued e he
          · exact (h.queued f hf).restage (Delivery.key_release _ f) fun _ hr => hr.release _
        next =>
          refine ⟨fun e he => ?_, fun e he => ?_⟩
          · exact h.queued e (List.mem_of_mem_eraseP he)
          · exact h.stored e (List.mem_of_mem_filter he)

theorem Backs.applyAcks (h : Backs t q s) (acks : List Packet) :
    Backs t (q.applyAcks s acks).1 (q.applyAcks s acks).2.1 := by
  induction acks generalizing q s with
  | nil => exact h
  | cons ack acks ih => exact ih (h.applyAck ack)

theorem requested_record (h : ∀ d ∈ s.deliveries, Requested t d) {r : Record}
    (hr : ∀ e, r = .put e → Requested t e) : ∀ d ∈ (s.record r).deliveries, Requested t d := by
  intro d hd
  cases r with
  | keep => exact h d hd
  | put e =>
    rcases Session.mem_put hd with hd | rfl
    · exact h d hd
    · exact hr d rfl
  | erase key => exact h d (List.mem_of_mem_filter hd)

theorem Backs.advance (h : Backs t q s) (now : Nat) :
    Backs t (q.advance s now).1 (q.advance s now).2.1 ∧
      ∀ p ∈ (q.advance s now).2.2.outgoing, Sendable t p := by
  have honward : ∀ d ∈ q.deliveries, Onward t (d.move q.retryDelay q.maxAttempts now) :=
    fun d hd => (h.queued d hd).onward_move _ _ now
  refine ⟨⟨fun e he => ?_, ?_⟩, fun p hp => ?_⟩
  · rw [DeliveryQueue.advance_deliveries] at he
    obtain ⟨d, hd, hde⟩ := List.mem_filterMap.mp he
    exact (honward d hd).next e hde
  · simp only [DeliveryQueue.advance, DeliveryQueue.moves, List.foldl_map]
    refine List.foldlRecOn (motive := fun s : Session => ∀ d ∈ s.deliveries, Requested t d)
      q.deliveries _ h.stored fun s hs d hd => ?_
    exact requested_record hs (honward d hd).record
  · simp only [DeliveryQueue.advance, DeliveryQueue.moves, List.flatMap_map,
      List.mem_flatMap] at hp
    obtain ⟨d, hd, hp⟩ := hp
    exact (honward d hd).outgoing p hp

theorem Backs.pass (h : Backs t q s) (acks : List Packet) (now : Nat) :
    Backs t (q.pass s acks now).1 (q.pass s acks now).2.1 ∧
      ∀ p ∈ (q.pass s acks now).2.2.outgoing, Sendable t p := by
  obtain ⟨hmoved, hsent⟩ := (h.applyAcks acks).advance now
  refine ⟨hmoved, fun p hp => ?_⟩
  rcases List.mem_append.mp hp with hp | hp
  · exact .inl (isAnswer_of_applyAcks hp)
  · exact hsent p hp

theorem Backs.enqueue (h : Backs t q s) (hd : Requested t d) : Backs t (q.enqueue d) s := by
  refine ⟨fun e he => ?_, h.stored⟩
  rcases List.mem_append.mp he with he | he
  · exact h.queued e he
  · obtain rfl := List.mem_singleton.mp he
    exact hd

theorem Backs.accept (h : Backs t q s) (p : Publish) : Backs t (q.accept p).2 s := by
  rw [DeliveryQueue.accept_eq]
  split
  next held hheld =>
    refine ⟨fun e he => ?_, h.stored⟩
    rcases DeliveryQueue.mem_modify he with he | ⟨f, hf, _, rfl⟩
    · exact h.queued e he
    · refine (h.queued f hf).restage (Delivery.key_reopened f) fun _ hr => ?_
      unfold Delivery.reopened
      split
      next => exact hr
      next => exact hr
  next => exact h.enqueue (requested_of_incoming rfl)

theorem Backs.issue (h : Backs t q s) {call : Call} {r : Request} {id : UInt16}
    {q' : DeliveryQueue} {s' : Session} (hcall : call.request = .ok r)
    (hissue : q.issue s r.delivery = .ok (id, q', s')) : Backs (t ++ [.issued r id]) q' s' := by
  obtain ⟨_, hid, _, _, rfl, rfl⟩ := DeliveryQueue.issue_spec hissue
  have hnew : Requested (t ++ [.issued r id]) (r.delivery id) := by
    have hkey : (r.delivery id).id = id := congrArg Key.id (Request.key_delivery r id)
    intro _
    rw [hkey]
    exact ⟨hid, call, r, hcall, by simp, Request.carried_delivery r id⟩
  have hold := h.mono (List.subset_append_left t [.issued r id])
  refine ⟨(hold.enqueue hnew).queued, fun e he => ?_⟩
  split at he
  next =>
    rcases Session.mem_put he with he | rfl
    · exact hold.stored e he
    · exact hnew
  next => exact hold.stored e he

theorem Backs.load (h : Backs t q s) {ds : List Delivery} (hds : ∀ d ∈ ds, Requested t d) :
    Backs t (q.load ds).2 s := by
  induction ds generalizing q with
  | nil => exact h
  | cons d ds ih =>
    have hrest : ∀ e ∈ ds, Requested t e := fun e he => hds e (List.mem_cons_of_mem _ he)
    unfold DeliveryQueue.load
    split
    next => exact ih h hrest
    next =>
      split
      next => exact ih h hrest
      next q' hpush =>
        unfold DeliveryQueue.push at hpush
        split at hpush
        next => cases hpush
        next =>
          cases hpush
          exact ih (h.enqueue (hds d List.mem_cons_self)) hrest

theorem Backs.resume (h : Backs t q s) {clientId : String} {clean : Bool} {loaded : Nat}
    {q' : DeliveryQueue} {s' : Session}
    (hresume : q.resume s clientId clean = (loaded, q', s')) : Backs t q' s' := by
  have hstored : ∀ d ∈ (if s.clientId = clientId then s else { clientId }).deliveries,
      Requested t d := by
    split
    next => exact h.stored
    next => simp
  cases hresume
  cases clean with
  | true => exact ⟨h.queued, fun _ hd => absurd hd List.not_mem_nil⟩
  | false =>
    have hrewound : ∀ d ∈ (if s.clientId = clientId then s else { clientId }).deliveries.map
        Delivery.rewound, Requested t d := by
      intro e he
      obtain ⟨d, hd, rfl⟩ := List.mem_map.mp he
      exact (hstored d hd).restage (Delivery.key_rewound d) fun _ hr => hr.rewound
    exact ⟨(h.load hrewound).queued, hrewound⟩

/-- What has been sent goes back to calls, and so will everything that is held. -/
structure Traced (t : List Milestone) (f : Flow) : Prop where
  backs : Backs t f.queue f.session
  held : ∀ p ∈ f.worker.packets, Sendable t p
  taken : ∀ u n v, t = u ++ n :: v → ∀ p, n = .taken p → Sendable u p

theorem Traced.step {f g : Flow} {m : Option Milestone} (h : Traced t f) (step : f.Step m g) :
    Traced (t ++ m.toList) g := by
  have hsub : t ⊆ t ++ m.toList := List.subset_append_left t _
  have hbacks := h.backs.mono hsub
  have hheld : ∀ p ∈ f.worker.packets, Sendable (t ++ m.toList) p :=
    fun p hp => (h.held p hp).mono hsub
  have hsent : ∀ task outcome, ∀ p ∈ (f.worker.sent task outcome).packets,
      Sendable (t ++ m.toList) p :=
    fun _ _ p hp => hheld p (Worker.mem_packets_of_sent hp)
  have hidle : ∀ {w : Worker}, w.isIdle = true → ∀ p ∈ w.packets, Sendable (t ++ m.toList) p := by
    intro w hw p hp
    rw [Worker.packets_of_isIdle hw] at hp
    cases hp
  have htaken : (∀ p, m = some (.taken p) → Sendable t p) →
      ∀ u n v, t ++ m.toList = u ++ n :: v → ∀ p, n = .taken p → Sendable u p :=
    fun hm => forall_append_toList h.taken fun n hn p hp => hm p (hn.trans (congrArg some hp))
  cases step with
  | quiet drift =>
    rw [drift.rest]
    exact ⟨hbacks, hheld, htaken (by simp)⟩
  | opened =>
    refine ⟨⟨?_, hbacks.stored⟩, hidle rfl, htaken (by simp)⟩
    simp [DeliveryQueue.ofSettings]
  | issued hcall hissue => exact ⟨h.backs.issue hcall hissue, hheld, htaken (by simp)⟩
  | accepted p => exact ⟨hbacks.accept p, hheld, htaken (by simp)⟩
  | resumed _ hresume => exact ⟨hbacks.resume hresume, hheld, htaken (by simp)⟩
  | started => exact ⟨hbacks, hidle rfl, htaken (by simp)⟩
  | @passed acks now q s work _ hpass =>
    have hp := hbacks.pass acks now
    rw [hpass] at hp
    exact ⟨hp.1, hp.2, htaken (by simp)⟩
  | @taken p rest events bytes hworker _ =>
    have hnow : ∀ p' ∈ p :: rest, Sendable t p' := by
      intro p' hp'
      exact h.held p' (by rw [hworker]; exact hp')
    refine ⟨hbacks, fun p' hp' => ?_, htaken fun p' hp' => ?_⟩
    · exact (hnow p' (List.mem_cons_of_mem p hp')).mono hsub
    · cases hp'
      exact hnow p List.mem_cons_self
  | @unsendable p rest events e hworker _ =>
    refine ⟨hbacks, fun p' hp' => (by cases hp'), htaken fun p' hp' => ?_⟩
    cases hp'
    exact h.held p (by rw [hworker]; exact List.mem_cons_self)
  | finished => exact ⟨hbacks, fun p hp => (by cases hp), htaken (by simp)⟩
  | reported _ hnext =>
    refine ⟨hbacks, hidle ?_, htaken (by simp)⟩
    rcases hnext with rfl | rfl <;> rfl
  | idled _ _ _ hnext drift =>
    rw [drift.rest]
    exact ⟨hbacks, hidle hnext, htaken (by simp)⟩
  | posted => exact ⟨hbacks, hheld, htaken (by simp)⟩
  | continued => exact ⟨hbacks, hheld, htaken (by simp)⟩
  | written => exact ⟨hbacks, hsent _ _, htaken (by simp)⟩
  | failed _ _ _ drift =>
    rw [drift.rest]
    exact ⟨hbacks, hsent _ _, htaken (by simp)⟩
  | withdrawn _ _ _ drift =>
    rw [drift.rest]
    exact ⟨hbacks, hsent _ _, htaken (by simp)⟩
  | told => exact ⟨hbacks, hheld, htaken (by simp)⟩

theorem traced_acts {settings : Settings} {session : Session} {c c' : Client}
    {actions : List Action} (hnew : ofSettings settings session = .ok c)
    (hfresh : session.deliveries = []) (hacts : c.acts actions = some c') :
    Traced (c.milestones actions) c'.flow := by
  refine flow_induction (motive := Traced) ?_ Traced.step hacts
  obtain ⟨_, _, hnew⟩ := exists_of_bind_eq_ok hnew
  cases hnew
  refine ⟨⟨?_, ?_⟩, ?_, ?_⟩
  · simp [flow, DeliveryQueue.ofSettings]
  · simp [flow, hfresh]
  · simp [flow, Worker.packets]
  · simp

/-- What a call accepts makes a packet that can be written, for each identifier, at first and as a
duplicate, exactly if no text in it is too long for its count. In whatever a new client goes
through, one connection after another, each packet that the worker takes up is an answer to the
broker or the packet or release of an earlier call, and so there is no other reason in an accepted
argument why it cannot be written. -/
theorem taken_writable_iff_short {settings : Settings} {session : Session} {c c' : Client}
    {actions : List Action} (hnew : ofSettings settings session = .ok c)
    (hfresh : session.deliveries = []) (hacts : c.acts actions = some c')
    (hfits : ∀ r id, .issued r id ∈ c.milestones actions → (r.delivery id).packet.Fits) :
    (∀ (call : Call) (r : Request) (id : UInt16), call.request = .ok r → id ≠ 0 →
      (r.delivery id).packet.Fits →
        ∀ dup, ((r.delivery id).withDup dup).packet.Writable ↔ r.Short) ∧
    ∀ u p v, c.milestones actions = u ++ .taken p :: v → p.isAnswer = true ∨
      ∃ (call : Call) (r : Request) (id : UInt16), call.request = .ok r ∧ .issued r id ∈ u ∧
        (p = .pubRel id ∧ p.Writable ∨
          ∃ dup, p = ((r.delivery id).withDup dup).packet ∧ (p.Writable ↔ r.Short)) := by
  refine ⟨fun call r id hcall hid hfits dup => (Call.checked hcall).writable_iff hid dup hfits, ?_⟩
  intro u p v ht
  rcases (traced_acts hnew hfresh hacts).taken u _ v ht p rfl with
    hanswer | ⟨call, r, id, hcall, hissued, hid, rfl | ⟨dup, rfl⟩⟩
  · exact .inl hanswer
  · exact .inr ⟨call, r, id, hcall, hissued, .inl ⟨rfl, Packet.writable_pubRel hid⟩⟩
  · have hfit : (r.delivery id).packet.Fits := hfits r id (by simp [ht, hissued])
    exact .inr ⟨call, r, id, hcall, hissued, .inr ⟨dup, rfl,
      (Call.checked hcall).writable_iff hid dup hfit⟩⟩

set_option maxRecDepth 1000 in
/-- A PUBLISH of quality 1 is taken up, and again on the next connection, as a duplicate. -/
theorem taken_writable_iff_short_of_resumed :
    let options : ConnectOptions := { clientId := "c", keepAlive := 0, cleanSession := false }
    let actions := Action.opening options ++ [.publish "a" [42] 1 false, .signal] ++
      Action.working ++ Action.losing ++ Action.opening options ++ Action.working
    let r : Request := .publish ⟨false, 1, false, "a", none, [42]⟩
    let d := r.delivery 1
    ofSettings {} { clientId := "" } = .ok newcomer ∧
      (∃ c', newcomer.acts actions = some c') ∧
      (∀ r id, .issued r id ∈ newcomer.milestones actions → (r.delivery id).packet.Fits) ∧
      .taken (d.withDup true).packet ∈ newcomer.milestones actions ∧
      r.Short ∧ (d.withDup true).packet.Writable := by
  intro options actions r d
  have hnew : ofSettings {} { clientId := "" } = .ok newcomer := rfl
  have hrun : ∃ c', newcomer.acts actions = some c' := Option.isSome_iff_exists.mp (by decide)
  let again := (d.sent .awaitPuback 0).rewound
  have hmilestones : newcomer.milestones actions =
      [.opened {}, .written .caller options.packet, .issued r 1,
        .passed ((DeliveryQueue.ofSettings {}).enqueue d) ⟨"c", [d], 1⟩ [] 0, .taken d.packet,
        .reported [] (.error .tooLate), .opened {}, .written .caller options.packet,
        .passed ((DeliveryQueue.ofSettings {}).enqueue again) ⟨"c", [again], 1⟩ [] 0,
        .taken (d.withDup true).packet] := by
    dsimp only [actions, options, again, d, r]
    rfl
  have hbody : d.packet.body = .ok [0, 1, 97, 0, 1, 42] := rfl
  have hfits : ∀ r' id, .issued r' id ∈ newcomer.milestones actions →
      (r'.delivery id).packet.Fits := by
    intro r' id hissued
    rw [hmilestones] at hissued
    obtain ⟨rfl, rfl⟩ : r' = r ∧ id = 1 := by simpa using hissued
    intro body h
    rw [← Except.ok.inj (hbody.symm.trans h)]
    decide
  have hshort : r.Short := by
    intro text htext
    obtain rfl := List.mem_singleton.mp htext
    decide
  obtain ⟨c', hacts⟩ := hrun
  have hwritable := (taken_writable_iff_short hnew rfl hacts hfits).1
    (.publish "a" [42] 1 false) r 1 rfl (by decide) (hfits r 1 (by simp [hmilestones])) true
  have htaken : .taken (d.withDup true).packet ∈ newcomer.milestones actions := by
    rw [hmilestones]
    simp
  exact ⟨hnew, ⟨c', hacts⟩, hfits, htaken, hshort, hwritable.mpr hshort⟩

theorem checkName_replicate {n : Nat} (hn : n ≠ 0) :
    Topic.checkName (String.ofList (List.replicate n 'a')) = .ok () := by
  have hother : ∀ c, c ≠ 'a' → c ∉ List.replicate n 'a' :=
    fun c hc hmem => hc (List.eq_of_mem_replicate hmem)
  unfold Topic.checkName
  rw [String.toList_ofList, if_neg (by simpa using hn), if_neg]
  rintro (h | h)
  · exact hother _ (by decide) h
  · exact hother _ (by decide) h

theorem length_encode_replicate (n : Nat) :
    (Utf8.encode (String.ofList (List.replicate n 'a'))).length = n := by
  rw [Utf8.encode, String.toList_ofList]
  induction n with
  | zero => rfl
  | succ n ih =>
    rw [List.replicate_succ, List.flatMap_cons, List.length_append, ih, Nat.add_comm]
    rfl

theorem encode_of_long {topic : String} (h : 65535 < (Utf8.encode topic).length) (id : UInt16)
    (dup retain : Bool) (payload : Octets) :
    (Packet.publish ⟨dup, 1, retain, topic, some id, payload⟩).encode = .error .fieldTooLong := by
  have htext : Field.ofText topic = .error .fieldTooLong := if_pos h
  unfold Packet.encode Packet.header Publish.header
  dsimp only
  rw [htext]
  rfl

/-- A topic name of 65536 letters passes the checks and is queued, and the session keeps it. No pass
can write its packet, neither the first one nor the one after the session is resumed. -/
theorem not_taken_writable_of_long :
    let long := String.ofList (List.replicate 65536 'a')
    let r : Request := .publish ⟨false, 1, false, long, none, []⟩
    let d := r.delivery 1
    Call.request (.publish long [] 1 false) = .ok r ∧
      d.packet.Fits ∧ 2 + (Utf8.encode long).length + 2 ≤ RemainingLength.max ∧
      (∀ dup, (d.withDup dup).packet.encode = .error .fieldTooLong) ∧
      ∃ q s, (DeliveryQueue.ofSettings {}).issue { clientId := "c" } r.delivery = .ok (1, q, s) ∧
        (q.pass s [] 0).2.2 = { outgoing := [d.packet] } ∧
        (q.pass s [] 0).2.1.deliveries = [d.sent .awaitPuback 0] ∧
        let (loaded, q', s') := (DeliveryQueue.ofSettings {}).resume (q.pass s [] 0).2.1 "c" false
        loaded = 1 ∧ (q'.pass s' [] 0).2.2 = { outgoing := [(d.withDup true).packet] } := by
  intro long r d
  have hcheck : Topic.checkName long = .ok () := checkName_replicate (by decide)
  have hlength : (Utf8.encode long).length = 65536 := length_encode_replicate 65536
  clear_value long
  have hlong : 65535 < (Utf8.encode long).length := by
    rw [hlength]
    decide
  have herror : ∀ dup, (d.withDup dup).packet.encode = .error .fieldTooLong :=
    fun dup => encode_of_long hlong 1 dup false []
  have hrequest : Call.request (.publish long [] 1 false) = .ok r := by
    simp only [Call.request, hcheck]
    rfl
  have hfits : d.packet.Fits := by
    intro body hbody
    have hshort : r.Short :=
      ((Call.checked hrequest).exists_body_iff (by decide) false).mp ⟨body, hbody⟩
    exact absurd (hshort long List.mem_cons_self) (Nat.not_le.mpr hlong)
  have hsize : 2 + (Utf8.encode long).length + 2 ≤ RemainingLength.max := by
    rw [hlength]
    decide
  exact ⟨hrequest, hfits, hsize, herror, _, _, rfl, rfl, rfl, rfl, rfl⟩

end Client
end Mqtt
