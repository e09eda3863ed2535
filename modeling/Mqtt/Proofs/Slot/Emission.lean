import Mqtt.Proofs.Slot.Mirrored

/-!
A slot with a message of our own above quality 0: what was sent for it, by the stage of its
delivery.
-/
namespace Mqtt

namespace Publish

/-- The message as its delivery sends it. -/
def copy (p : Publish) (id : UInt16) (dup : Bool) : Packet :=
  .publish { p with id := some id, dup }

/-- Only the first copy is no duplicate. -/
def copies (p : Publish) (id : UInt16) (n : Nat) : List Packet :=
  (List.range n).map fun i => p.copy id (i != 0)

theorem copies_succ (p : Publish) (id : UInt16) (n : Nat) :
    p.copies id (n + 1) = p.copies id n ++ [p.copy id (n != 0)] := by
  simp [copies, List.range_succ]

end Publish

namespace Delivery

variable {p : Publish} {id : UInt16} {dup : Bool} {d : Delivery}

/-- The stages of a message of our own above quality 0. -/
theorem Coherent.copy_cases (h : d.Coherent) (hd : d.direction = .outgoing)
    (hp : d.packet = p.copy id dup) (hq : p.qos ≠ 0) :
    p.qos = 1 ∧ (d.stage = .queued1 ∨ d.stage = .awaitPuback) ∨
      p.qos ≠ 1 ∧ (d.stage = .queued2 ∨ d.stage = .awaitPubrec ∨ d.stage = .sendPubrel ∨
        d.stage = .awaitPubcomp) := by
  have hs := h.stage
  simp only [hp, hd, Publish.copy, Packet.course, hq, if_false] at hs
  split at hs
  next hq1 => exact .inl ⟨hq1, by simpa using hs⟩
  next hq1 => exact .inr ⟨hq1, by simpa using hs⟩

theorem packet_withDup_copy (hp : d.packet = p.copy id dup) (dup' : Bool) :
    (d.withDup dup').packet = p.copy id dup' := by
  simp [withDup, hp, Publish.copy]

/-- All the work of such a message names it. -/
theorem Coherent.work_of_copy {maxAttempts now : Nat} {m : Move} (h : d.Coherent)
    (hd : d.key = ⟨id, .outgoing⟩) (hp : d.packet = p.copy id dup)
    (hm : d.Moves maxAttempts now m) : m.work.of ⟨id, .outgoing⟩ = m.work := by
  have hcopy : ∀ dup, (p.copy id dup).origin? = some ⟨id, .outgoing⟩ := fun _ => rfl
  have hid : d.id = id := congrArg Key.id hd
  have hrel : (Packet.pubRel d.id).origin? = some ⟨id, .outgoing⟩ := by
    simp [Packet.origin?, hid]
  have hdir : d.direction = .outgoing := congrArg Key.direction hd
  have hevents : m.work.events.filter (fun e => e.origin = ⟨id, .outgoing⟩) = m.work.events :=
    List.filter_eq_self.mpr fun e he => by simpa [hd] using (h.about hm).events e he
  have houtgoing : ∀ q ∈ m.work.outgoing, q.origin? = some ⟨id, .outgoing⟩ := by
    cases hm with
    | send =>
      simp only [transmit, wire, List.mem_singleton, forall_eq]
      split
      next => exact hrel
      next => rw [hp, hcopy]
    | sendAgain =>
      simp only [transmit, repeated, List.mem_singleton, forall_eq]
      split
      next => exact hrel
      next => rw [packet_withDup_copy hp, hcopy]
    | fire => simp [hp, hcopy]
    | hand hin | answer hin | confirm hin => simp [hdir] at hin
    | _ => simp
  have hfilter : m.work.outgoing.filter (fun q => q.origin? = some ⟨id, .outgoing⟩) =
      m.work.outgoing :=
    List.filter_eq_self.mpr fun q hq => by simpa using houtgoing q hq
  rw [Work.of, hevents, hfilter]

end Delivery

namespace Slot

/-- A PUBREC has answered the message itself. -/
def Released (id : UInt16) (ms : List (Packet × Delivery)) : Prop :=
  ∃ d, (.pubRec id, d) ∈ ms ∧ d.stage = .awaitPubrec

theorem Released.append {id : UInt16} {ms : List (Packet × Delivery)} (h : Released id ms)
    (ms' : List (Packet × Delivery)) : Released id (ms ++ ms') := by
  obtain ⟨d, hm, hs⟩ := h
  exact ⟨d, List.mem_append_left ms' hm, hs⟩

/-- The last answer has come, to a packet sent since the connection was made. -/
def Acknowledged (p : Publish) (id : UInt16) (since : List Packet)
    (ms : List (Packet × Delivery)) : Prop :=
  if p.qos = 1 then
    (∃ d, (.pubAck id, d) ∈ ms ∧ d.stage = .awaitPuback) ∧ ∃ dup, p.copy id dup ∈ since
  else (∃ d, (.pubComp id, d) ∈ ms ∧ d.stage = .awaitPubcomp) ∧ .pubRel id ∈ since

/-- What was sent for a message, in all and since the connection was made, by the stage of its
delivery. -/
inductive Emits (p : Publish) (id : UInt16) (ms : List (Packet × Delivery)) (x : Slot) :
    List Packet → List Packet → Prop where
  | ready {d : Delivery} {n : Nat} {since : List Packet} (queued : x.queued = some d)
      (stage : d.stage = .queued1 ∨ d.stage = .queued2) (packet : d.packet = p.copy id (n != 0))
      (unreleased : ¬ Released id ms) : x.Emits p id ms (p.copies id n) since
  | waiting {d : Delivery} {n : Nat} {dup dup' : Bool} {since : List Packet}
      (queued : x.queued = some d) (stage : d.stage = .awaitPuback ∨ d.stage = .awaitPubrec)
      (packet : d.packet = p.copy id dup) (unreleased : ¬ Released id ms)
      (sent : p.copy id dup' ∈ since) : x.Emits p id ms (p.copies id (n + 1)) since
  | releasing {d : Delivery} {n m : Nat} {dup : Bool} {since : List Packet}
      (queued : x.queued = some d) (stage : d.stage = .sendPubrel)
      (packet : d.packet = p.copy id dup) (released : Released id ms) :
      x.Emits p id ms (p.copies id n ++ List.replicate m (.pubRel id)) since
  | completing {d : Delivery} {n m : Nat} {dup : Bool} {since : List Packet}
      (queued : x.queued = some d) (stage : d.stage = .awaitPubcomp)
      (packet : d.packet = p.copy id dup) (released : Released id ms)
      (sent : .pubRel id ∈ since) :
      x.Emits p id ms (p.copies id n ++ List.replicate m (.pubRel id)) since
  | gone {n m : Nat} {since : List Packet} (queued : x.queued = none) (qos : p.qos = 1 → m = 0) :
      x.Emits p id ms (p.copies id n ++ List.replicate m (.pubRel id)) since

variable {maxAttempts : Nat} {p : Publish} {id : UInt16} {x y : Slot}
  {ms : List (Packet × Delivery)} {sent since : List Packet}

theorem Emits.release {d : Delivery} (h : x.Emits p id ms sent since) (hx : x.queued = some d)
    (hid : d.id = id) (hs : d.stage = .awaitPubrec ∨ d.stage = .awaitPubcomp) :
    Emits p id (ms ++ [(.pubRec d.id, d)])
      { x with queued := some (DeliveryQueue.release maxAttempts d) } sent since := by
  cases h with
  | @waiting d' n dup _ _ hx' hs' hp =>
    obtain rfl := Option.some.inj (hx.symm.trans hx')
    have hs : d.stage = .awaitPubrec := by
      rcases hs' with hs' | hs'
      · simp [hs'] at hs
      · exact hs'
    have hreleased : Released id (ms ++ [(.pubRec d.id, d)]) := ⟨d, by simp [hid], hs⟩
    have hreleasing : Emits p id (ms ++ [(.pubRec d.id, d)])
        { x with queued := some (DeliveryQueue.release maxAttempts d) }
        (p.copies id (n + 1) ++ List.replicate 0 (.pubRel id)) since :=
      .releasing rfl (by simp [DeliveryQueue.release, hs])
        (by simpa [DeliveryQueue.release, hs] using hp) hreleased
    simpa using hreleasing
  | @completing d' n m dup _ hx' hs' hp hreleased hsent =>
    obtain rfl := Option.some.inj (hx.symm.trans hx')
    have hreleased := hreleased.append [(.pubRec d.id, d)]
    by_cases hleft : d.attempts < maxAttempts
    · exact .releasing rfl (by simp [DeliveryQueue.release, hs', hleft])
        (by simpa [DeliveryQueue.release, hs', hleft] using hp) hreleased
    · exact .completing rfl (by simp [DeliveryQueue.release, hs', hleft])
        (by simpa [DeliveryQueue.release, hs', hleft] using hp) hreleased hsent
  | ready hx' hs' =>
    obtain rfl := Option.some.inj (hx.symm.trans hx')
    rcases hs' with hs' | hs' <;> simp [hs'] at hs
  | releasing hx' hs' =>
    obtain rfl := Option.some.inj (hx.symm.trans hx')
    simp [hs'] at hs
  | gone hnone => simp [hnone] at hx

theorem Emits.acknowledged {d : Delivery} {ack : Packet} {e : Event}
    (h : x.Emits p id ms sent since) (hq : p.qos ≠ 0) (ho : x.Owned ⟨id, .outgoing⟩)
    (hx : x.queued = some d) (hf : d.Finishes ack e) : Acknowledged p id since [(ack, d)] := by
  obtain ⟨hkey, hc⟩ := ho d hx
  have hid : d.id = id := congrArg Key.id hkey
  have hdir : d.direction = .outgoing := congrArg Key.direction hkey
  cases h with
  | waiting hx' hs' hp _ hsent =>
    obtain rfl := Option.some.inj (hx.symm.trans hx')
    cases hf with
    | pubAck hs =>
      have hq1 : p.qos = 1 := by
        rcases hc.copy_cases hdir hp hq with ⟨hq1, _⟩ | ⟨_, h⟩
        · exact hq1
        · simp [hs] at h
      rw [Acknowledged, if_pos hq1]
      exact ⟨⟨d, by simp [hid], hs⟩, _, hsent⟩
    | pubComp hs | subAck hs | unsubAck hs => simp [hs] at hs'
  | completing hx' hs' hp _ hsent =>
    obtain rfl := Option.some.inj (hx.symm.trans hx')
    cases hf with
    | pubComp hs =>
      have hq1 : p.qos ≠ 1 := by
        rcases hc.copy_cases hdir hp hq with ⟨_, h⟩ | ⟨hq1, _⟩
        · simp [hs] at h
        · exact hq1
      rw [Acknowledged, if_neg hq1]
      exact ⟨⟨d, by simp [hid], hs⟩, hsent⟩
    | pubAck hs | subAck hs | unsubAck hs => simp [hs] at hs'
  | ready hx' hs' | releasing hx' hs' =>
    obtain rfl := Option.some.inj (hx.symm.trans hx')
    cases hf <;> simp_all
  | gone hnone => simp [hnone] at hx

theorem Emits.leave (h : x.Emits p id ms sent since) (hq : p.qos ≠ 0)
    (ho : x.Owned ⟨id, .outgoing⟩) (ms' : List (Packet × Delivery)) (stored : Option Delivery) :
    Emits p id ms' { queued := none, stored } sent since := by
  have hreleased : ∀ {d : Delivery} {dup : Bool}, x.queued = some d → d.packet = p.copy id dup →
      d.stage = .sendPubrel ∨ d.stage = .awaitPubcomp → p.qos ≠ 1 := by
    intro d dup hx hp hs
    rcases (ho d hx).2.copy_cases (congrArg Key.direction (ho d hx).1) hp hq with ⟨_, h⟩ | ⟨hq1, _⟩
    · rcases hs with hs | hs <;> simp [hs] at h
    · exact hq1
  have hcopies : ∀ n, Emits p id ms' { queued := none, stored } (p.copies id n) since := by
    intro n
    have hgone : Emits p id ms' { queued := none, stored }
        (p.copies id n ++ List.replicate 0 (.pubRel id)) since := .gone rfl fun _ => rfl
    simpa using hgone
  cases h with
  | ready | waiting => exact hcopies _
  | releasing hx hs hp => exact .gone rfl fun h => absurd h (hreleased hx hp (.inl hs))
  | completing hx hs hp => exact .gone rfl fun h => absurd h (hreleased hx hp (.inr hs))
  | gone _ hm => exact .gone rfl hm

theorem Emits.reply {ack : Packet} {found : Option Delivery} {w : Work}
    (h : x.Emits p id ms sent since) (hq : p.qos ≠ 0) (ho : x.Owned ⟨id, .outgoing⟩)
    (hr : x.Replies maxAttempts ⟨id, .outgoing⟩ ack found y w) :
    y.Emits p id (ms ++ (found.map fun d => (ack, d)).toList) sent since ∧ w.outgoing = [] ∧
      (.published id true ∈ w.events →
        Acknowledged p id since (found.map fun d => (ack, d)).toList) := by
  cases hr with
  | stray =>
    have hstray : (DeliveryQueue.unmatched ack).of ⟨id, .outgoing⟩ = {} := by
      cases ack <;> simp [DeliveryQueue.unmatched, Work.of, Packet.origin?]
    rw [hstray]
    exact ⟨by simpa using h, rfl, by simp⟩
  | release hx _ hs => exact ⟨h.release hx (congrArg Key.id (ho _ hx).1) hs, rfl, by simp⟩
  | finish hx _ hf => exact ⟨h.leave hq ho _ none, rfl, fun _ => h.acknowledged hq ho hx hf⟩
  | hand hx hin => simp [← Delivery.direction_key, (ho _ hx).1] at hin

theorem Acknowledged.append (h : Acknowledged p id since ms)
    (before after : List (Packet × Delivery)) :
    Acknowledged p id since (before ++ (ms ++ after)) := by
  unfold Acknowledged at h ⊢
  split at h
  next hq =>
    rw [if_pos hq]
    obtain ⟨⟨d, hm, hs⟩, hsent⟩ := h
    exact ⟨⟨d, by simp [hm], hs⟩, hsent⟩
  next hq =>
    rw [if_neg hq]
    obtain ⟨⟨d, hm, hs⟩, hsent⟩ := h
    exact ⟨⟨d, by simp [hm], hs⟩, hsent⟩

theorem Emits.of_queued (h : x.Emits p id ms sent since) (hy : y.queued = x.queued) :
    y.Emits p id ms sent since := by
  cases h with
  | ready hx hs hp hr => exact .ready (hy.trans hx) hs hp hr
  | waiting hx hs hp hr hsent => exact .waiting (hy.trans hx) hs hp hr hsent
  | releasing hx hs hp hr => exact .releasing (hy.trans hx) hs hp hr
  | completing hx hs hp hr hsent => exact .completing (hy.trans hx) hs hp hr hsent
  | gone hnone hm => exact .gone (hy.trans hnone) hm

theorem Emits.send {d : Delivery} {stage : Stage} {now : Nat} (h : x.Emits p id ms sent since)
    (hx : x.queued = some d) (hid : d.id = id) (hready : d.stage.sent? = some stage)
    (stored : Option Delivery) :
    Emits p id ms { queued := some (d.sent stage now), stored } (sent ++ [d.wire])
        (since ++ [d.wire]) ∧
      (d.wire = .pubRel id → Released id ms) ∧ ∀ p', d.wire = .publish p' → ¬ Released id ms := by
  cases h with
  | @ready d' n _ hx' hs hp hr =>
    obtain rfl := Option.some.inj (hx.symm.trans hx')
    have hwire : d.wire = p.copy id (n != 0) := by
      rcases hs with hs | hs <;> simp [Delivery.wire, hs, hp]
    have hstage : stage = .awaitPuback ∨ stage = .awaitPubrec := by
      rcases hs with hs | hs <;> simp [hs, Stage.sent?] at hready <;> simp [← hready]
    have hsent : p.copy id (n != 0) ∈ since ++ [p.copy id (n != 0)] := by simp
    rw [hwire, ← Publish.copies_succ]
    exact ⟨.waiting rfl hstage hp hr hsent, by simp [Publish.copy], fun _ _ => hr⟩
  | @releasing d' n m dup _ hx' hs hp hr =>
    obtain rfl := Option.some.inj (hx.symm.trans hx')
    have hwire : d.wire = .pubRel id := by simp [Delivery.wire, hs, hid]
    have hstage : stage = .awaitPubcomp := by simpa [hs, Stage.sent?, eq_comm] using hready
    rw [hwire, List.append_assoc, ← List.replicate_succ']
    exact ⟨.completing rfl hstage hp hr (by simp), fun _ => hr, by simp⟩
  | waiting hx' hs =>
    obtain rfl := Option.some.inj (hx.symm.trans hx')
    rcases hs with hs | hs <;> simp [hs, Stage.sent?] at hready
  | completing hx' hs =>
    obtain rfl := Option.some.inj (hx.symm.trans hx')
    simp [hs, Stage.sent?] at hready
  | gone hnone => simp [hnone] at hx

theorem Emits.sendAgain {d : Delivery} {now : Nat} (h : x.Emits p id ms sent since)
    (hx : x.queued = some d) (hid : d.id = id) (hw : d.stage.isWaiting = true)
    (stored : Option Delivery) :
    Emits p id ms { queued := some ((d.withDup true).sent d.stage now), stored }
        (sent ++ [d.repeated]) (since ++ [d.repeated]) ∧
      (d.repeated = .pubRel id → Released id ms) ∧
      ∀ p', d.repeated = .publish p' → ¬ Released id ms := by
  cases h with
  | @waiting d' n dup dup' _ hx' hs hp hr =>
    obtain rfl := Option.some.inj (hx.symm.trans hx')
    have hpacket := Delivery.packet_withDup_copy hp true
    have hrepeated : d.repeated = p.copy id true := by
      rcases hs with hs | hs <;> simp [Delivery.repeated, hs, hpacket]
    have hcopies : p.copies id (n + 1) ++ [p.copy id true] = p.copies id (n + 2) := by
      simp [Publish.copies_succ p id (n + 1)]
    have hsent : p.copy id true ∈ since ++ [p.copy id true] := by simp
    rw [hrepeated, hcopies]
    exact ⟨.waiting rfl hs hpacket hr hsent, by simp [Publish.copy], fun _ _ => hr⟩
  | @completing d' n m dup _ hx' hs hp hr =>
    obtain rfl := Option.some.inj (hx.symm.trans hx')
    have hpacket := Delivery.packet_withDup_copy hp true
    have hrepeated : d.repeated = .pubRel id := by simp [Delivery.repeated, hs, hid]
    rw [hrepeated, List.append_assoc, ← List.replicate_succ']
    exact ⟨.completing rfl hs hpacket hr (by simp), fun _ => hr, by simp⟩
  | ready hx' hs =>
    obtain rfl := Option.some.inj (hx.symm.trans hx')
    rcases hs with hs | hs <;> simp [hs, Stage.isWaiting] at hw
  | releasing hx' hs =>
    obtain rfl := Option.some.inj (hx.symm.trans hx')
    simp [hs, Stage.isWaiting] at hw
  | gone hnone => simp [hnone] at hx

theorem Emits.move {d : Delivery} {m : Move} {now : Nat} (h : x.Emits p id ms sent since)
    (hq : p.qos ≠ 0) (ho : x.Owned ⟨id, .outgoing⟩) (hx : x.queued = some d)
    (hm : d.Moves maxAttempts now m) (stored : Option Delivery) :
    Emits p id ms { queued := m.next, stored } (sent ++ m.work.outgoing)
        (since ++ m.work.outgoing) ∧
      (.pubRel id ∈ m.work.outgoing → Released id ms) ∧
      (∀ p', .publish p' ∈ m.work.outgoing → ¬ Released id ms) ∧
      .published id true ∉ m.work.events := by
  have hdir : d.direction = .outgoing := congrArg Key.direction (ho d hx).1
  have hid : d.id = id := congrArg Key.id (ho d hx).1
  cases hm with
  | hand hin | answer hin | confirm hin => simp [hdir] at hin
  | wait =>
    refine ⟨?_, by simp, by simp, by simp⟩
    simpa using h.of_queued hx.symm
  | fire _ hs' =>
    cases h with
    | ready hx' hs | waiting hx' hs | releasing hx' hs | completing hx' hs =>
      obtain rfl := Option.some.inj (hx.symm.trans hx')
      simp [hs'] at hs
    | gone hnone => simp [hnone] at hx
  | giveUp =>
    refine ⟨by simpa using h.leave hq ho ms stored, by simp, by simp, ?_⟩
    simp only [Delivery.failure, List.mem_singleton]
    split <;> simp
  | send _ hready =>
    obtain ⟨hnext, hrelease, hcopy⟩ := h.send hx hid hready stored
    exact ⟨hnext, fun hm => hrelease (List.mem_singleton.mp hm).symm,
      fun p' hm => hcopy p' (List.mem_singleton.mp hm).symm, by simp [Delivery.transmit]⟩
  | sendAgain _ hw =>
    obtain ⟨hnext, hrelease, hcopy⟩ := h.sendAgain hx hid hw stored
    exact ⟨hnext, fun hm => hrelease (List.mem_singleton.mp hm).symm,
      fun p' hm => hcopy p' (List.mem_singleton.mp hm).symm, by simp [Delivery.transmit]⟩

theorem Emits.packet {d : Delivery} (h : x.Emits p id ms sent since) (hx : x.queued = some d) :
    ∃ dup, d.packet = p.copy id dup := by
  cases h with
  | ready hx' _ hp | waiting hx' _ hp | releasing hx' _ hp | completing hx' _ hp =>
    obtain rfl := Option.some.inj (hx.symm.trans hx')
    exact ⟨_, hp⟩
  | gone hnone => simp [hnone] at hx

/-- In all, copies of the message and then its PUBRELs were sent. -/
theorem Emits.shape (h : x.Emits p id ms sent since) (hq : p.qos ≠ 0)
    (ho : x.Owned ⟨id, .outgoing⟩) :
    ∃ n m, sent = p.copies id n ++ List.replicate m (.pubRel id) ∧ (p.qos = 1 → m = 0) := by
  have hgone := h.leave hq ho ms none
  cases hgone with
  | gone _ hm => exact ⟨_, _, rfl, hm⟩
  | ready hx | waiting hx | releasing hx | completing hx => cases hx

/-- What an entry sends and reports fits what came before it. -/
structure Sends (p : Publish) (id : UInt16) (ms : List (Packet × Delivery)) (since : List Packet)
    (ns : List (Packet × Delivery)) (w : Work) : Prop where
  release : .pubRel id ∈ w.outgoing → Released id (ms ++ ns)
  copy : ∀ p', .publish p' ∈ w.outgoing → ¬ Released id (ms ++ ns)
  success : .published id true ∈ w.events → Acknowledged p id since ns

theorem Emits.pass (h : x.Emits p id ms sent since) (hq : p.qos ≠ 0)
    (ho : x.Owned ⟨id, .outgoing⟩) (σ : Settings) (acks : List Packet) (now : Nat) :
    (x.pass σ ⟨id, .outgoing⟩ acks now).1.Emits p id
        (ms ++ x.answered σ.maxAttempts ⟨id, .outgoing⟩ acks)
        (sent ++ (x.pass σ ⟨id, .outgoing⟩ acks now).2.outgoing)
        (since ++ (x.pass σ ⟨id, .outgoing⟩ acks now).2.outgoing) ∧
      Sends p id ms since (x.answered σ.maxAttempts ⟨id, .outgoing⟩ acks)
        (x.pass σ ⟨id, .outgoing⟩ acks now).2 := by
  -- the replies send nothing
  refine ho.pass_induction
    (P := fun y ns w => y.Emits p id (ms ++ ns) sent since ∧ w.outgoing = [] ∧
      (.published id true ∈ w.events → Acknowledged p id since ns))
    (Q := fun y ns w => y.Emits p id (ms ++ ns) (sent ++ w.outgoing) (since ++ w.outgoing) ∧
      Sends p id ms since ns w) σ now ⟨by simpa using h, rfl, by simp⟩ ?_ ?_ ?_ acks
  · rintro y z ns v w ack found hyo ⟨hy, hv, hacked⟩ hr
    obtain ⟨hz, hw, hacked'⟩ := hy.reply hq hyo hr
    refine ⟨by rwa [← List.append_assoc], by simp [Work.append, hv, hw], fun hm => ?_⟩
    rcases List.mem_append.mp hm with hm | hm
    · simpa using (hacked hm).append [] _
    · simpa using (hacked' hm).append ns []
  · rintro y ns w ⟨hy, hw, hacked⟩ _
    rw [hw, List.append_nil, List.append_nil]
    exact ⟨hy, by simp [hw], by simp [hw], hacked⟩
  · rintro y ns w d m hyo ⟨hy, hw, hacked⟩ hd hm
    obtain ⟨dup, hp⟩ := hy.packet hd
    have hwork := (hyo d hd).2.work_of_copy (hyo d hd).1 hp hm
    obtain ⟨hnext, hrelease, hcopy, hfail⟩ := hy.move hq hyo hd hm (record y.stored m.record)
    simp only [hwork, Work.append, hw, List.nil_append]
    refine ⟨hnext, hrelease, hcopy, fun hs => ?_⟩
    exact hacked ((List.mem_append.mp hs).resolve_right hfail)

theorem Emits.rewound (h : x.Emits p id ms sent since) (hq : p.qos ≠ 0)
    (hm : x.Mirrored ⟨id, .outgoing⟩) (ho : x.Owned ⟨id, .outgoing⟩) :
    Emits p id ms { queued := x.stored.map Delivery.rewound
                    stored := x.stored.map Delivery.rewound } sent [] := by
  have hstored := hm.stored_outgoing rfl
  have hkept : ∀ {d : Delivery} {dup : Bool}, x.queued = some d → d.packet = p.copy id dup →
      x.stored.map Delivery.rewound = some d.rewound := by
    intro d dup hx hp
    have htracked : d.isTracked = true := by
      simpa [Delivery.isTracked, Delivery.message?, hp, Publish.copy] using hq
    simp [hstored, hx, Option.filter, htracked]
  have hdir : ∀ {d : Delivery}, x.queued = some d → d.direction = .outgoing := fun hx =>
    congrArg Key.direction (ho _ hx).1
  cases h with
  | @ready d n _ hx hs hp hr =>
    refine .ready (hkept hx hp) ?_ ?_ hr <;> rcases hs with hs | hs <;>
      simp [Delivery.rewound, hs, hp]
  | @waiting d n dup dup' _ hx hs hp hr =>
    have hstage : d.rewound.stage = .queued1 ∨ d.rewound.stage = .queued2 := by
      rcases hs with hs | hs <;> simp [Delivery.rewound, hs, hdir hx]
    have hpacket : d.rewound.packet = p.copy id true := by
      rcases hs with hs | hs <;>
        simp only [Delivery.rewound, hs, hdir hx, Delivery.withDup, hp, Publish.copy]
    have hdup : (n + 1 != 0) = true := by simp
    exact .ready (hkept hx hp) hstage (hdup ▸ hpacket) hr
  | @releasing d n m dup _ hx hs hp hr =>
    exact .releasing (hkept hx hp) (by simp [Delivery.rewound, hs])
      (by simpa [Delivery.rewound, hs] using hp) hr
  | @completing d n m dup _ hx hs hp hr =>
    have hpacket : d.rewound.packet = p.copy id false := by
      simp only [Delivery.rewound, hs, hdir hx, Delivery.withDup, hp, Publish.copy]
    exact .releasing (hkept hx hp) (by simp [Delivery.rewound, hs, hdir hx]) hpacket hr
  | gone hnone hm' => exact .gone (by simp [hstored, hnone]) hm'

end Slot
end Mqtt
