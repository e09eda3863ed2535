import Mqtt.Proofs.Slot.Replies

/-!
How the stored copy of a slot follows the queued one: exactly after a pass, ours also between
passes, and a broker's message with the stage in which it was last confirmed.
-/
namespace Mqtt

namespace Delivery

theorem Coherent.isTracked_of_stage {d : Delivery} (h : d.Coherent) (hd : d.direction = .outgoing)
    (hs : d.stage = .sendPubrel) : d.isTracked = true := by
  rcases h.fits.outgoing_cases hd with
    ⟨p, hp, ⟨_, h⟩ | ⟨_, h | h⟩ | ⟨hq, _⟩⟩ | ⟨_, _, h | h⟩ | ⟨_, _, h | h⟩
  case inl.inr.inr => simpa [isTracked, message?, hp] using hq
  all_goals simp [hs] at h

theorem Coherent.not_isTracked {d : Delivery} (h : d.Coherent) (hs : d.stage = .queued0) :
    d.isTracked = false := by
  cases hd : d.direction with
  | outgoing =>
    rcases h.fits.outgoing_cases hd with
      ⟨p, hp, ⟨hq, _⟩ | ⟨_, h | h⟩ | ⟨_, _, h | h | h | h⟩⟩ | ⟨_, _, h | h⟩ | ⟨_, _, h | h⟩
    case inl.inl => simp [isTracked, message?, hp, hq]
    all_goals simp [hs] at h
  | incoming =>
    obtain ⟨p, hp, ⟨hq, _⟩ | ⟨_, h⟩ | ⟨_, h | h⟩⟩ := h.incoming_cases hd
    case inl => simp [isTracked, message?, hp, hq]
    all_goals simp [hs] at h

end Delivery

namespace Slot

/-- The stored copy is the queued delivery, unless that does not outlive a connection; a broker's
message has been confirmed. -/
inductive Settled (k : Key) : Slot → Prop where
  | ours (direction : k.direction = .outgoing) (d? : Option Delivery) :
      Settled k { queued := d?, stored := d?.filter Delivery.isTracked }
  | theirs (direction : k.direction = .incoming) {d? : Option Delivery}
      (stage : ∀ d, d? = some d → d.stage = .awaitPubrel) :
      Settled k { queued := d?, stored := d? }

/-- Between passes a broker's message may have arrived, or be confirmed once more. -/
inductive Mirrored (k : Key) : Slot → Prop where
  | settled {x : Slot} (h : x.Settled k) : Mirrored k x
  | arrived (direction : k.direction = .incoming) {d : Delivery} (stage : d.stage ≠ .awaitPubrel) :
      Mirrored k { queued := some d, stored := none }
  | repeated (direction : k.direction = .incoming) {d : Delivery} (stage : d.stage = .awaitPubrel) :
      Mirrored k { queued := some { d with stage := .queued2 }, stored := some d }

/-- Within a pass a released delivery of our own is ahead of its copy. -/
inductive Lagging (k : Key) (x : Slot) : Prop where
  | mirrored (h : x.Mirrored k)
  | released (direction : k.direction = .outgoing) {d : Delivery} (queued : x.queued = some d)
      (stage : d.stage = .sendPubrel)

theorem settled_empty (k : Key) : Settled k { queued := none, stored := none } := by
  cases hd : k.direction with
  | outgoing => exact .ours hd none
  | incoming => exact .theirs hd (by simp)

variable {maxAttempts : Nat} {k : Key} {x : Slot}

theorem Lagging.reply {y : Slot} {ack : Packet} {found : Option Delivery} {w : Work}
    (h : x.Lagging k) (ho : x.Owned k) (hr : x.Replies maxAttempts k ack found y w) :
    y.Lagging k := by
  cases hr with
  | stray => exact h
  | finish | hand => exact .mirrored (.settled (settled_empty k))
  | @release d hx hd hs =>
    have hdir : k.direction = .outgoing := by rw [← (ho d hx).1, ← hd, Delivery.direction_key]
    by_cases hrec : d.stage = .awaitPubrec
    · refine .released hdir rfl ?_
      simp [DeliveryQueue.release, hrec]
    by_cases hleft : d.attempts < maxAttempts
    · refine .released hdir rfl ?_
      simp [DeliveryQueue.release, hrec, hleft]
    -- no attempt is left, and the delivery stays as it is
    have hsame : DeliveryQueue.release maxAttempts d = d := by
      simp [DeliveryQueue.release, hrec, hleft]
    rw [hsame, ← hx]
    exact h

variable {d : Delivery} {m : Move} {now : Nat}

/-- Only a released delivery of our own is ahead of its copy. -/
theorem Lagging.stored_outgoing (h : x.Lagging k) (hk : k.direction = .outgoing)
    (hx : x.queued = some d) (hs : d.stage ≠ .sendPubrel) :
    x.stored = (some d).filter Delivery.isTracked := by
  cases h with
  | mirrored h =>
    cases h with
    | settled h =>
      cases h with
      | ours _ d? => exact congrArg (Option.filter Delivery.isTracked) hx
      | theirs hin => simp [hk] at hin
    | arrived hin | repeated hin => simp [hk] at hin
  | released _ hx' hs' =>
    obtain rfl := Option.some.inj (hx.symm.trans hx')
    exact absurd hs' hs

/-- Only a broker's message that is to be confirmed can differ from its copy. -/
theorem Lagging.stored_incoming (h : x.Lagging k) (hk : k.direction = .incoming)
    (hx : x.queued = some d) (hs : d.stage ≠ .queued2) :
    x.stored = if d.stage = .awaitPubrel then some d else none := by
  cases h with
  | mirrored h =>
    cases h with
    | settled h =>
      cases h with
      | ours hout => simp [hk] at hout
      | theirs _ hall =>
        rw [if_pos (hall d hx)]
        exact hx
    | arrived _ hne =>
      obtain rfl := Option.some.inj hx
      simp [hne]
    | repeated _ _ =>
      obtain rfl := Option.some.inj hx
      exact absurd rfl hs
  | released hout => simp [hk] at hout

/-- What is sent is stored with it, if it outlives the connection. -/
theorem Lagging.transmit (h : x.Lagging k) (hk : k.direction = .outgoing) (hx : x.queued = some d)
    (hs : d.isTracked = false → d.stage ≠ .sendPubrel) {e : Delivery}
    (he : e.isTracked = d.isTracked) (packet : Packet) (stage : Stage) (now : Nat) :
    Settled k { queued := (e.transmit packet stage now).next
                stored := record x.stored (e.transmit packet stage now).record } := by
  have hours := Settled.ours hk (some (e.sent stage now))
  unfold Delivery.transmit
  cases htracked : d.isTracked with
  | true => simpa [he, htracked, record, Option.filter] using hours
  | false =>
    have hnone : x.stored = none := by
      simpa [htracked, Option.filter] using h.stored_outgoing hk hx (hs htracked)
    simpa [he, htracked, record, hnone, Option.filter] using hours

theorem Lagging.move_outgoing (h : x.Lagging k) (ho : x.Owned k) (hk : k.direction = .outgoing)
    (hx : x.queued = some d) (hm : d.Moves maxAttempts now m) :
    Settled k { queued := m.next, stored := record x.stored m.record } := by
  obtain ⟨hkey, hc⟩ := ho d hx
  have hdir : d.direction = .outgoing := (congrArg Key.direction hkey).trans hk
  cases hm with
  | send =>
    refine h.transmit hk hx (fun hfalse hs => ?_) rfl _ _ now
    rw [hc.isTracked_of_stage hdir hs] at hfalse
    cases hfalse
  | sendAgain _ hw =>
    refine h.transmit hk hx (fun _ hs => ?_) (by simp) _ _ now
    simp [hs, Stage.isWaiting] at hw
  | wait hw =>
    have hs : d.stage ≠ .sendPubrel := fun hs => by simp [hs, Stage.isWaiting] at hw
    simp only [record, h.stored_outgoing hk hx hs]
    exact .ours hk (some d)
  | giveUp => exact .ours hk none
  | fire _ hs =>
    have hnone := h.stored_outgoing hk hx (by simp [hs])
    simp only [Option.filter, hc.not_isTracked hs, Bool.false_eq_true, if_false] at hnone
    simp only [record, hnone]
    exact .ours hk none
  | hand hin | answer hin | confirm hin => simp [hdir] at hin

theorem Lagging.move_incoming (h : x.Lagging k) (ho : x.Owned k) (hk : k.direction = .incoming)
    (hx : x.queued = some d) (hm : d.Moves maxAttempts now m) :
    Settled k { queued := m.next, stored := record x.stored m.record } := by
  obtain ⟨hkey, hc⟩ := ho d hx
  have hdir : d.direction = .incoming := (congrArg Key.direction hkey).trans hk
  cases hm with
  | confirm => exact .theirs hk fun e he => by obtain rfl := Option.some.inj he; rfl
  | wait hw =>
    have hs : d.stage = .awaitPubrel := by
      obtain ⟨_, _, ⟨_, hs⟩ | ⟨_, hs⟩ | ⟨_, hs | hs⟩⟩ := hc.incoming_cases hdir
      case inr.inr.inr => exact hs
      all_goals simp [hs, Stage.isWaiting] at hw
    have hsome : x.stored = some d := by simpa [hs] using h.stored_incoming hk hx (by simp [hs])
    simp only [record, hsome]
    exact .theirs hk fun e he => by obtain rfl := Option.some.inj he; exact hs
  | hand _ hs | answer _ hs =>
    have hnone : x.stored = none := by simpa [hs] using h.stored_incoming hk hx (by simp [hs])
    simp only [record, hnone]
    exact settled_empty k
  | send hout | sendAgain hout | giveUp hout | fire hout => simp [hdir] at hout

theorem Lagging.of_empty (h : x.Lagging k) (hx : x.queued = none) : x.Settled k := by
  cases h with
  | mirrored h =>
    cases h with
    | settled h => exact h
    | arrived | repeated => cases hx
  | released _ hx' => simp [hx] at hx'

theorem Mirrored.pass (h : x.Mirrored k) (ho : x.Owned k) (σ : Settings) (acks : List Packet)
    (now : Nat) : (x.pass σ k acks now).1.Settled k := by
  refine ho.pass_induction (P := fun y _ _ => y.Lagging k) (Q := fun y _ _ => y.Settled k) σ now
    (.mirrored h) (fun hyo hy hr => hy.reply hyo hr) (fun hy hnone => hy.of_empty hnone) ?_ acks
  intro y _ _ d m hyo hy hd hm
  cases hk : k.direction with
  | outgoing => exact hy.move_outgoing hyo hk hd hm
  | incoming => exact hy.move_incoming hyo hk hd hm

/-- Of our own deliveries the stored copy is exact. -/
theorem Mirrored.stored_outgoing (h : x.Mirrored k) (hk : k.direction = .outgoing) :
    x.stored = x.queued.filter Delivery.isTracked := by
  cases h with
  | settled h =>
    cases h with
    | ours => rfl
    | theirs hin => simp [hk] at hin
  | arrived hin | repeated hin => simp [hk] at hin

theorem Mirrored.stored_eq_none (h : x.Mirrored k) (hx : x.queued = none) : x.stored = none := by
  cases h with
  | settled h =>
    cases h with
    | ours _ d? =>
      obtain rfl : d? = none := hx
      rfl
    | theirs => exact hx
  | arrived | repeated => cases hx

theorem Mirrored.arrive (h : x.Mirrored k) (hk : k.direction = .incoming) (hx : x.queued = none)
    {d : Delivery} (hs : d.stage ≠ .awaitPubrel) : Mirrored k { x with queued := some d } := by
  rw [h.stored_eq_none hx]
  exact .arrived hk hs

theorem Mirrored.reopen (h : x.Mirrored k) (hk : k.direction = .incoming) :
    Mirrored k { x with queued := x.queued.map Delivery.reopened } := by
  cases h with
  | settled h =>
    cases h with
    | ours hout => simp [hk] at hout
    | @theirs _ d? hs =>
      rcases d? with _ | d
      · exact .settled (settled_empty k)
      · have hd := hs d rfl
        simpa [Delivery.reopened, hd] using Mirrored.repeated hk hd
  | arrived _ hs => simpa [Delivery.reopened, hs] using Mirrored.arrived hk hs
  | repeated _ hs => simpa [Delivery.reopened] using Mirrored.repeated hk hs

/-- What a new connection takes up is what the session stores. -/
theorem Mirrored.rewound (h : x.Mirrored k) :
    Settled k { queued := x.stored.map Delivery.rewound
                stored := x.stored.map Delivery.rewound } := by
  have htheirs : ∀ d : Delivery, d.stage = .awaitPubrel → d.rewound.stage = .awaitPubrel := by
    intro d hs
    simp [Delivery.rewound, hs]
  cases h with
  | settled h =>
    cases h with
    | ours hk d? =>
      have hours := Settled.ours hk ((d?.filter Delivery.isTracked).map Delivery.rewound)
      rcases d? with _ | d
      · exact hours
      · cases ht : d.isTracked <;> simpa [Option.filter, ht] using hours
    | @theirs hk d? hs =>
      refine .theirs hk fun e he => ?_
      obtain ⟨d, hd, rfl⟩ := Option.map_eq_some_iff.mp he
      exact htheirs d (hs d hd)
  | arrived => exact settled_empty k
  | repeated hk hs =>
    refine .theirs hk fun e he => ?_
    obtain rfl := Option.some.inj he
    exact htheirs _ hs

end Slot
end Mqtt
