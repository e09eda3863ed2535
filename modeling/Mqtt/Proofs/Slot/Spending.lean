import Mqtt.Proofs.Delivery.Timing
import Mqtt.Proofs.Slot.Conclusion

/-!
How often the delivery of a slot has sent each of its two steps on one connection, and when it
sends again or is given up.
-/
namespace Mqtt

def Packet.isRelease : Packet → Bool
  | .pubRel _ => true
  | _ => false

/-- The second step is to be sent or was sent last. -/
def Stage.isRelease : Stage → Bool
  | .sendPubrel | .awaitPubcomp => true
  | _ => false

/-- A delivery was given up. -/
def Event.isFailure : Event → Bool
  | .published _ success => !success
  | .subscribeFailed _ | .unsubscribeFailed _ => true
  | _ => false

/-- How many packets of one step there are among packets and the times they were sent at. -/
def sends (release : Bool) (log : List (Packet × Nat)) : Nat :=
  log.countP fun m => m.1.isRelease = release

section sends

variable {log : List (Packet × Nat)} {release : Bool}

theorem sends_concat (release : Bool) (log : List (Packet × Nat)) (m : Packet × Nat) :
    sends release (log ++ [m]) = sends release log + if m.1.isRelease = release then 1 else 0 := by
  simp [sends, List.countP_append]

theorem isRelease_of_sent? {stage next : Stage} (h : stage.sent? = some next) :
    next.isRelease = stage.isRelease := by
  cases stage <;> simp only [Stage.sent?, Option.some.injEq, reduceCtorEq] at h <;> subst h <;> rfl

theorem length_eq_sends (log : List (Packet × Nat)) :
    log.length = sends false log + sends true log := by
  induction log with
  | nil => rfl
  | cons m log ih =>
    cases h : m.1.isRelease <;> simp [sends, h] at ih ⊢ <;> omega

end sends

namespace Delivery

variable {d e : Delivery} {maxAttempts now : Nat} {log : List (Packet × Nat)} {p : Packet}

/-! What a delivery of our own sends. -/

theorem Fits.packet_isRelease (h : d.Fits) (hd : d.direction = .outgoing) :
    d.packet.isRelease = false := by
  rcases h.outgoing_cases hd with ⟨p, hp, _⟩ | ⟨p, hp, _⟩ | ⟨p, hp, _⟩ <;>
    simp [hp, Packet.isRelease]

theorem Coherent.origin_of_ne (h : d.Coherent) (hd : d.direction = .outgoing)
    (hs : d.stage ≠ .queued0) : d.packet.origin? = some d.key := by
  have hc := h.carried
  have hkey : d.key = ⟨d.id, .outgoing⟩ := by simp [key, hd]
  rcases h.fits.outgoing_cases hd with ⟨p, hp, hcases⟩ | ⟨p, hp, _⟩ | ⟨p, hp, _⟩
  · have hq : p.qos ≠ 0 := by
      rcases hcases with ⟨_, h0⟩ | ⟨hq, _⟩ | ⟨hq, _⟩
      · exact absurd h0 hs
      · simp [hq]
      · exact hq
    simp_all [Packet.id?, Packet.origin?, qos, message?]
  · simp_all [Packet.id?, Packet.origin?, qos, message?]
  · simp_all [Packet.id?, Packet.origin?, qos, message?]

theorem Coherent.origin_wire (h : d.Coherent) (hd : d.direction = .outgoing) {stage : Stage}
    (hs : d.stage.sent? = some stage) :
    d.wire.origin? = some d.key ∧ d.wire.isRelease = d.stage.isRelease := by
  have hpacket := h.fits.packet_isRelease hd
  have hne : d.stage ≠ .queued0 := fun h0 => by simp [h0, Stage.sent?] at hs
  unfold wire
  split
  next hrel => exact ⟨by simp [Packet.origin?, key, hd], by rw [hrel]; rfl⟩
  next hrel =>
    refine ⟨h.origin_of_ne hd hne, hpacket.trans ?_⟩
    cases hst : d.stage <;> simp_all [Stage.sent?, Stage.isRelease]

theorem Coherent.origin_repeated (h : d.Coherent) (hd : d.direction = .outgoing)
    (hw : d.stage.isWaiting = true) :
    d.repeated.origin? = some d.key ∧ d.repeated.isRelease = d.stage.isRelease := by
  have hpacket := (h.fits.withDup true).packet_isRelease (by simpa using hd)
  have hne : d.stage ≠ .queued0 := fun h0 => by simp [h0, Stage.isWaiting] at hw
  unfold repeated
  split
  next hcomp => exact ⟨by simp [Packet.origin?, key, hd], by rw [hcomp]; rfl⟩
  next hcomp =>
    refine ⟨by simpa using h.origin_of_ne hd hne, hpacket.trans ?_⟩
    cases hst : d.stage <;> simp_all [Stage.isWaiting, Stage.isRelease]

/-! The attempts are the packets of the present step. -/

/-- The attempts of a delivery count what was sent of its step, no step was sent more often than
allowed, and the second not before its time. -/
structure Counted (maxAttempts : Nat) (log : List (Packet × Nat)) (d : Delivery) : Prop where
  count : sends d.stage.isRelease log = d.attempts
  bound : d.attempts ≤ maxAttempts
  first : d.stage.isRelease = true → sends false log ≤ maxAttempts
  second : d.stage.isRelease = false → sends true log = 0

theorem Counted.sends_le (h : d.Counted maxAttempts log) (release : Bool) :
    sends release log ≤ maxAttempts := by
  have hcount := h.count
  have hbound := h.bound
  have hfirst := h.first
  have hsecond := h.second
  cases hs : d.stage.isRelease <;> cases release <;> simp_all

theorem Counted.send (h : d.Counted maxAttempts log) (hleft : d.attempts < maxAttempts)
    (hp : p.isRelease = d.stage.isRelease) (hs : e.stage.isRelease = d.stage.isRelease)
    (he : e.attempts = d.attempts + 1) (now : Nat) :
    e.Counted maxAttempts (log ++ [(p, now)]) := by
  constructor
  · rw [sends_concat, hs, he, h.count, if_pos hp]
  · omega
  · intro hrel
    rw [sends_concat, if_neg (by simp [hp, ← hs, hrel])]
    exact h.first (hs.symm.trans hrel)
  · intro hrel
    rw [sends_concat, if_neg (by simp [hp, ← hs, hrel])]
    exact h.second (hs.symm.trans hrel)

/-- A PUBREC begins the count of the second step; a repeated one leaves it as it is. -/
theorem Counted.release (h : d.Counted maxAttempts log) (hmax : 1 ≤ maxAttempts)
    (hs : d.stage = .awaitPubrec ∨ d.stage = .awaitPubcomp) :
    DeliveryQueue.release maxAttempts d = d ∨
      (DeliveryQueue.release maxAttempts d).stage = .sendPubrel ∧
        (DeliveryQueue.release maxAttempts d).attempts < maxAttempts ∧
        (DeliveryQueue.release maxAttempts d).Counted maxAttempts log := by
  unfold DeliveryQueue.release
  split
  next hrec =>
    have hnone : sends true log = 0 := h.second (by rw [hrec]; rfl)
    have hfirst := h.sends_le false
    exact .inr ⟨rfl, hmax, ⟨hnone, Nat.zero_le _, fun _ => hfirst, fun hrel => by cases hrel⟩⟩
  next hrec =>
    have hcomp := hs.resolve_left hrec
    have hcount : sends true log = d.attempts := by
      have hcount := h.count
      rwa [hcomp] at hcount
    have hfirst := h.sends_le false
    split
    next hleft =>
      exact .inr ⟨rfl, hleft, ⟨hcount, h.bound, fun _ => hfirst, fun hrel => by cases hrel⟩⟩
    next => exact .inl rfl

end Delivery

namespace Slot

/-- What a slot holds after the packets of `log` were sent for its delivery on this connection. The
delivery is ready only before its first packet and where `asked`, which says that a PUBREC has just
been answered; else it waits, since the last of the packets. -/
inductive Spends (maxAttempts : Nat) (asked : Prop) (log : List (Packet × Nat)) (x : Slot) :
    Prop where
  | gone (empty : x.queued = none) (bound : ∀ release, sends release log ≤ maxAttempts)
  | ready {d : Delivery} {stage : Stage} (held : x.queued = some d)
      (ready : d.stage.sent? = some stage) (counted : d.Counted maxAttempts log)
      (left : d.attempts < maxAttempts) (prompt : log = [] ∨ asked)
  | waiting {d : Delivery} {p : Packet} {t : Nat} (held : x.queued = some d)
      (waiting : d.stage.isWaiting = true) (counted : d.Counted maxAttempts log)
      (last : log.getLast? = some (p, t)) (step : p.isRelease = d.stage.isRelease)
      (sentAt : d.sentAt = some t)

end Slot

/-- One pass keeps to the schedule: it sends one packet at most, which repeats the last one after
the delay unless a PUBREC `asked` for it, and it gives up only after all attempts at the last step
and another delay. -/
structure Work.Scheduled (delay maxAttempts now : Nat) (asked : Prop) (log : List (Packet × Nat))
    (w : Work) : Prop where
  once : w.outgoing.length ≤ 1
  spaced : ∀ p ∈ w.outgoing, ∀ m, log.getLast? = some m →
    asked ∨ m.1.isRelease = p.isRelease ∧ m.2 + delay ≤ now
  spent : ∀ e ∈ w.events, e.isFailure = true →
    ∃ m, log.getLast? = some m ∧ sends m.1.isRelease log = maxAttempts ∧ m.2 + delay ≤ now

namespace Slot

variable {σ : Settings} {delay maxAttempts now : Nat} {asked asked' : Prop}
  {log : List (Packet × Nat)} {k : Key} {x y z : Slot} {v w : Work} {ms : List (Packet × Delivery)}
  {ack : Packet} {found : Option Delivery}

theorem Spends.sends_le (h : x.Spends maxAttempts asked log) (release : Bool) :
    sends release log ≤ maxAttempts := by
  cases h with
  | gone _ bound => exact bound release
  | ready _ _ counted | waiting _ _ counted => exact counted.sends_le release

theorem Spends.mono (h : x.Spends maxAttempts asked log) (ha : asked → asked') :
    x.Spends maxAttempts asked' log := by
  cases h with
  | gone empty bound => exact .gone empty bound
  | ready held ready counted left prompt =>
    exact .ready held ready counted left (prompt.imp_right ha)
  | waiting held waiting counted last step sentAt =>
    exact .waiting held waiting counted last step sentAt

theorem Spends.reply (h : y.Spends maxAttempts (∃ d, (.pubRec k.id, d) ∈ ms) log)
    (ho : y.Owned k) (hk : k.direction = .outgoing) (hmax : 1 ≤ maxAttempts)
    (hr : y.Replies maxAttempts k ack found z w) :
    z.Spends maxAttempts
        (∃ d, (.pubRec k.id, d) ∈ ms ++ (found.map fun d => (ack, d)).toList) log ∧
      w.outgoing = [] ∧ ∀ e ∈ w.events, e.isFailure = false := by
  have hkeep : (∃ d, (.pubRec k.id, d) ∈ ms) →
      ∃ d, (.pubRec k.id, d) ∈ ms ++ (found.map fun d => (ack, d)).toList :=
    fun ⟨d, hd⟩ => ⟨d, List.mem_append_left _ hd⟩
  cases hr with
  | stray =>
    rw [unmatched_of_outgoing hk]
    exact ⟨h.mono hkeep, rfl, by simp⟩
  | @release d hx hd hs =>
    refine ⟨?_, rfl, by simp⟩
    have hid : d.id = k.id := congrArg Key.id (ho d hx).1
    cases h with
    | gone empty => simp [hx] at empty
    | ready held ready =>
      obtain rfl := Option.some.inj (hx.symm.trans held)
      rcases hs with hs | hs <;> simp [hs, Stage.sent?] at ready
    | waiting held waiting counted last step sentAt =>
      obtain rfl := Option.some.inj (hx.symm.trans held)
      rcases counted.release hmax hs with hsame | ⟨hstage, hleft, hcounted⟩
      · rw [hsame]
        exact .waiting rfl waiting counted last step sentAt
      · exact .ready rfl (by rw [hstage]; rfl) hcounted hleft (.inr ⟨d, by simp [hid]⟩)
  | finish hx hd hf =>
    refine ⟨.gone rfl h.sends_le, rfl, ?_⟩
    cases hf <;> simp [Event.isFailure]
  | hand hx hd => simp [← (ho _ hx).1, hd] at hk

/-! What the move of a delivery of our own leaves in its slot, and sends. -/

theorem Owned.advance_of_ready (ho : x.Owned k) (hk : k.direction = .outgoing) {d : Delivery}
    (hx : x.queued = some d) {stage : Stage} (hs : d.stage.sent? = some stage)
    (delay maxAttempts now : Nat) :
    (x.advance delay maxAttempts k now).1.queued = some (d.sent stage now) ∧
      (x.advance delay maxAttempts k now).2 = { outgoing := [d.wire] } := by
  obtain ⟨hkey, hc⟩ := ho d hx
  have hd : d.direction = .outgoing := (congrArg Key.direction hkey).trans hk
  have horigin := (hc.origin_wire hd hs).1
  constructor <;>
    simp [Slot.advance, hx, Delivery.move_of_ready hd hs, Delivery.transmit, Work.of, horigin, hkey]

theorem Owned.advance_of_early (ho : x.Owned k) (hk : k.direction = .outgoing) {d : Delivery}
    (hx : x.queued = some d) {t : Nat} (hw : d.stage.isWaiting = true) (ht : d.sentAt = some t)
    (hnow : now < t + delay) (maxAttempts : Nat) :
    (x.advance delay maxAttempts k now).1.queued = some d ∧
      (x.advance delay maxAttempts k now).2 = {} := by
  have hd : d.direction = .outgoing := (congrArg Key.direction (ho d hx).1).trans hk
  have hmove := Delivery.move_of_dueAt (Delivery.dueAt_of_sentAt hd hw ht delay) maxAttempts now
  rw [if_pos hnow] at hmove
  constructor <;> simp [Slot.advance, hx, hmove]

theorem Owned.advance_of_overdue (ho : x.Owned k) (hk : k.direction = .outgoing) {d : Delivery}
    (hx : x.queued = some d) {t : Nat} (hw : d.stage.isWaiting = true) (ht : d.sentAt = some t)
    (hnow : t + delay ≤ now) (hleft : d.attempts < maxAttempts) :
    (x.advance delay maxAttempts k now).1.queued = some ((d.withDup true).sent d.stage now) ∧
      (x.advance delay maxAttempts k now).2 = { outgoing := [d.repeated] } := by
  obtain ⟨hkey, hc⟩ := ho d hx
  have hd : d.direction = .outgoing := (congrArg Key.direction hkey).trans hk
  have horigin := (hc.origin_repeated hd hw).1
  have hmove := Delivery.move_of_dueAt (Delivery.dueAt_of_sentAt hd hw ht delay) maxAttempts now
  rw [if_neg (Nat.not_lt.mpr hnow), if_pos hleft] at hmove
  constructor <;> simp [Slot.advance, hx, hmove, Delivery.transmit, Work.of, horigin, hkey]

theorem Owned.advance_of_spent (ho : x.Owned k) (hk : k.direction = .outgoing) {d : Delivery}
    (hx : x.queued = some d) {t : Nat} (hw : d.stage.isWaiting = true) (ht : d.sentAt = some t)
    (hnow : t + delay ≤ now) (hspent : ¬ d.attempts < maxAttempts) :
    (x.advance delay maxAttempts k now).1.queued = none ∧
      (x.advance delay maxAttempts k now).2.outgoing = [] := by
  have hd : d.direction = .outgoing := (congrArg Key.direction (ho d hx).1).trans hk
  have hmove := Delivery.move_of_dueAt (Delivery.dueAt_of_sentAt hd hw ht delay) maxAttempts now
  rw [if_neg (Nat.not_lt.mpr hnow), if_neg hspent] at hmove
  constructor <;> simp [Slot.advance, hx, hmove, Work.of]

theorem Spends.advance (h : x.Spends maxAttempts asked log) (ho : x.Owned k)
    (hk : k.direction = .outgoing) (delay now : Nat) :
    let after := x.advance delay maxAttempts k now
    after.1.Spends maxAttempts False (log ++ after.2.outgoing.map fun p => (p, now)) ∧
      after.2.Scheduled delay maxAttempts now asked log := by
  intro after
  cases h with
  | gone empty bound =>
    have hafter : after = (x, {}) := by simp [after, Slot.advance, empty]
    rw [hafter]
    exact ⟨by simpa using .gone empty bound, by simp, by simp, by simp⟩
  | @ready d stage held ready counted left prompt =>
    obtain ⟨hqueued, hwork⟩ := ho.advance_of_ready hk held ready delay maxAttempts now
    obtain ⟨hkey, hc⟩ := ho d held
    have hrelease := (hc.origin_wire ((congrArg Key.direction hkey).trans hk) ready).2
    have hstage := isRelease_of_sent? ready
    rw [show after.2 = _ from hwork]
    refine ⟨?_, by simp, ?_, by simp⟩
    · exact .waiting hqueued (Delivery.isWaiting_of_sent? ready).2
        (counted.send left hrelease hstage rfl now) (by simp) (hrelease.trans hstage.symm) rfl
    · intro p hp m hm
      refine .inl (prompt.resolve_left ?_)
      rintro rfl
      cases hm
  | @waiting d p t held waiting counted last step sentAt =>
    by_cases hearly : now < t + delay
    · obtain ⟨hqueued, hwork⟩ := ho.advance_of_early hk held waiting sentAt hearly maxAttempts
      rw [show after.2 = _ from hwork]
      refine ⟨?_, by simp, by simp, by simp⟩
      simpa using .waiting hqueued waiting counted last step sentAt
    have hover := Nat.not_lt.mp hearly
    by_cases hleft : d.attempts < maxAttempts
    · obtain ⟨hqueued, hwork⟩ := ho.advance_of_overdue hk held waiting sentAt hover hleft
      obtain ⟨hkey, hc⟩ := ho d held
      have hrelease := (hc.origin_repeated ((congrArg Key.direction hkey).trans hk) waiting).2
      rw [show after.2 = _ from hwork]
      refine ⟨?_, by simp, ?_, by simp⟩
      · have hcounted := counted.send (e := (d.withDup true).sent d.stage now) hleft hrelease rfl
          (by simp [Delivery.sent]) now
        exact .waiting hqueued waiting hcounted (by simp) hrelease rfl
      · intro q hq m hm
        obtain rfl := List.mem_singleton.mp hq
        obtain rfl := Option.some.inj (last.symm.trans hm)
        exact .inr ⟨step.trans hrelease.symm, hover⟩
    · obtain ⟨hempty, hwork⟩ := ho.advance_of_spent hk held waiting sentAt hover hleft
      refine ⟨?_, by simp [after, hwork], by simp [after, hwork], fun e _ _ => ?_⟩
      · rw [show after.2.outgoing = _ from hwork]
        simpa using .gone hempty counted.sends_le
      · refine ⟨(p, t), last, ?_, hover⟩
        have hcount := counted.count
        have hbound := counted.bound
        rw [step, hcount]
        omega

theorem Spends.pass (h : x.Spends σ.maxAttempts False log) (ho : x.Owned k)
    (hk : k.direction = .outgoing) (hmax : 1 ≤ σ.maxAttempts) (acks : List Packet) (now : Nat) :
    let after := x.pass σ k acks now
    after.1.Spends σ.maxAttempts False (log ++ after.2.outgoing.map fun p => (p, now)) ∧
      after.2.Scheduled σ.retryDelay σ.maxAttempts now
        (∃ d, (.pubRec k.id, d) ∈ x.answered σ.maxAttempts k acks) log := by
  intro after
  have hanswers := ho.answers_induction
    (P := fun y ms w => y.Spends σ.maxAttempts (∃ d, (.pubRec k.id, d) ∈ ms) log ∧
      w.outgoing = [] ∧ ∀ e ∈ w.events, e.isFailure = false)
    ⟨h.mono False.elim, rfl, by simp⟩ (fun hyo hy hr => by
      obtain ⟨hz, hsent, htold⟩ := hy.1.reply hyo hk hmax hr
      refine ⟨hz, by simp [Work.append, hy.2.1, hsent], fun e he => ?_⟩
      rcases List.mem_append.mp he with he | he
      · exact hy.2.2 e he
      · exact htold e he) acks
  obtain ⟨hspends, hsent, htold⟩ := hanswers
  obtain ⟨hnext, hscheduled⟩ := hspends.advance (ho.answers acks) hk σ.retryDelay now
  have houtgoing : after.2.outgoing = ((x.answers σ.maxAttempts k acks).1.advance σ.retryDelay
      σ.maxAttempts k now).2.outgoing := by
    simp [after, Slot.pass, Work.append, hsent]
  rw [houtgoing]
  refine ⟨hnext, ?_, ?_, fun e he hfail => ?_⟩
  · rw [houtgoing]
    exact hscheduled.once
  · rw [houtgoing]
    exact hscheduled.spaced
  · rcases List.mem_append.mp he with he | he
    · rw [htold e he] at hfail
      cases hfail
    · exact hscheduled.spent e he hfail

end Slot
end Mqtt
