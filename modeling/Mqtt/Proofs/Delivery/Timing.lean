import Mqtt.Proofs.Delivery.Named

/-! When a delivery of our own was last sent, how often, and when it acts again. -/
namespace Mqtt.Delivery

/-- A delivery as it is made, before it is sent. -/
inductive Fresh : Delivery → Prop where
  | publish (id : UInt16) (p : Publish) : Fresh (.publish id p)
  | subscribe (p : Subscribe) : Fresh (.subscribe p)
  | unsubscribe (p : Unsubscribe) : Fresh (.unsubscribe p)
  | received (p : Publish) : Fresh (.received p)

/-- What holds of every delivery, whoever made it and whatever became of it. Only one of our own
with an identifier is sure to be coherent. -/
structure Genuine (d : Delivery) : Prop where
  fits : d.Fits
  named : d.Named
  coherent : d.direction = .outgoing → d.id ≠ 0 → d.Coherent

variable {d e : Delivery} {delay maxAttempts latest now : Nat} {m : Move}

theorem mem_course_ofQos (direction : Direction) (p : Publish) :
    Stage.ofQos p.qos ∈ (Packet.publish p).course direction := by
  unfold Stage.ofQos
  cases direction with
  | outgoing | incoming =>
    simp only [Packet.course]
    split
    next => exact List.mem_singleton_self _
    next =>
      split
      next => exact List.mem_cons_self
      next => exact List.mem_cons_self

theorem Fresh.genuine (h : d.Fresh) : d.Genuine := by
  cases h with
  | publish id p =>
    let packet : Publish := { p with id := if p.qos = 0 then none else some id }
    exact ⟨mem_course_ofQos .outgoing packet, named_publish id p,
      fun _ hid => coherent_publish hid p⟩
  | subscribe p =>
    exact ⟨List.mem_cons_self, named_subscribe p, fun _ hid => coherent_subscribe hid⟩
  | unsubscribe p =>
    exact ⟨List.mem_cons_self, named_unsubscribe p, fun _ hid => coherent_unsubscribe hid⟩
  | received p =>
    exact ⟨mem_course_ofQos .incoming p, named_received p, fun hd => by cases hd⟩

theorem Genuine.release (h : d.Genuine) (maxAttempts : Nat)
    (hs : d.stage = .awaitPubrec ∨ d.stage = .awaitPubcomp) :
    (DeliveryQueue.release maxAttempts d).Genuine := by
  have hkey := key_release maxAttempts d
  refine ⟨h.fits.release maxAttempts hs, h.named.release maxAttempts, fun hd hid => ?_⟩
  rw [← direction_key, hkey] at hd
  rw [← id_key, hkey] at hid
  exact (h.coherent hd hid).release maxAttempts hs

theorem Genuine.next (h : d.Genuine) (hm : d.Moves maxAttempts now m) (he : m.next = some e) :
    e.Genuine := by
  have hkey := hm.key_next he
  refine ⟨h.fits.next hm he, h.named.next hm he, fun hd hid => ?_⟩
  rw [← direction_key, hkey] at hd
  rw [← id_key, hkey] at hid
  exact (h.coherent hd hid).next hm he

theorem Genuine.reopened (h : d.Genuine) : d.reopened.Genuine := by
  have hkey := key_reopened d
  refine ⟨h.fits.reopened, h.named.reopened, fun hd hid => ?_⟩
  rw [← direction_key, hkey] at hd
  rw [← id_key, hkey] at hid
  exact (h.coherent hd hid).reopened

theorem Genuine.rewound (h : d.Genuine) : d.rewound.Genuine :=
  ⟨h.fits.rewound, h.named.rewound,
    fun hd hid => (h.coherent (by simpa using hd) (by simpa using hid)).rewound⟩

theorem isWaiting_of_sent? {stage next : Stage} (h : stage.sent? = some next) :
    stage.isWaiting = false ∧ next.isWaiting = true := by
  cases stage <;> simp only [Stage.sent?, Option.some.injEq, reduceCtorEq] at h <;> subst h <;>
    exact ⟨rfl, rfl⟩

theorem dueAt_eq_some_iff {due : Nat} :
    d.dueAt delay = some due ↔
      d.direction = .outgoing ∧ d.stage.isWaiting = true ∧
        ∃ t, d.sentAt = some t ∧ t + delay = due := by
  unfold dueAt
  split
  next h => simp [h]
  next h =>
    simp only [reduceCtorEq, false_iff]
    exact fun hdue => h ⟨hdue.1, hdue.2.1⟩

theorem dueAt_of_sentAt {t : Nat} (hd : d.direction = .outgoing) (hw : d.stage.isWaiting = true)
    (ht : d.sentAt = some t) (delay : Nat) : d.dueAt delay = some (t + delay) :=
  dueAt_eq_some_iff.mpr ⟨hd, hw, t, ht, rfl⟩

theorem move_of_dueAt {due : Nat} (h : d.dueAt delay = some due) (maxAttempts now : Nat) :
    d.move delay maxAttempts now =
      if now < due then { next := some d }
      else if d.attempts < maxAttempts then (d.withDup true).transmit d.repeated d.stage now
      else { next := none, record := .erase d.key, work := { events := [d.failure] } } := by
  obtain ⟨hd, hw, _⟩ := dueAt_eq_some_iff.mp h
  rw [move_of_waiting hd hw]
  simp only [retry, h]

theorem move_of_awaitPubrel (hd : d.direction = .incoming) (hs : d.stage = .awaitPubrel)
    (delay maxAttempts now : Nat) : d.move delay maxAttempts now = { next := some d } := by
  simp only [move, hd, hs]

/-- A delivery of our own that waits was sent, not after `latest` and not more often than
allowed. -/
structure Timed (maxAttempts latest : Nat) (d : Delivery) : Prop extends Genuine d where
  waiting : d.direction = .outgoing → d.stage.isWaiting = true →
    ∃ t, d.sentAt = some t ∧ t ≤ latest ∧ 1 ≤ d.attempts ∧ d.attempts ≤ max 1 maxAttempts

/-- Within a pass, one that is about to be sent has an attempt left. -/
structure Paced (maxAttempts latest : Nat) (d : Delivery) : Prop extends
    Timed maxAttempts latest d where
  ready : d.direction = .outgoing → d.stage.isWaiting = false → d.attempts < max 1 maxAttempts

/-- Between passes, one that does not wait has not been sent on this connection. -/
structure Rested (maxAttempts latest : Nat) (d : Delivery) : Prop extends
    Timed maxAttempts latest d where
  fresh : d.direction = .outgoing → d.stage.isWaiting = false → d.sentAt = none ∧ d.attempts = 0

theorem Rested.paced (h : d.Rested maxAttempts latest) : d.Paced maxAttempts latest := by
  refine ⟨h.toTimed, fun hd hw => ?_⟩
  rw [(h.fresh hd hw).2]
  omega

theorem Paced.release (h : d.Paced maxAttempts latest)
    (hs : d.stage = .awaitPubrec ∨ d.stage = .awaitPubcomp) :
    (DeliveryQueue.release maxAttempts d).Paced maxAttempts latest := by
  have hg := h.toGenuine.release maxAttempts hs
  unfold DeliveryQueue.release at hg ⊢
  split at hg
  next hrec =>
    rw [if_pos hrec]
    refine ⟨⟨hg, fun _ hw => by simp [Stage.isWaiting] at hw⟩, fun _ _ => ?_⟩
    dsimp only
    omega
  next hrec =>
    rw [if_neg hrec]
    split at hg
    next hleft =>
      rw [if_pos hleft]
      refine ⟨⟨hg, fun _ hw => by simp [Stage.isWaiting] at hw⟩, fun _ _ => ?_⟩
      dsimp only
      omega
    next hspent =>
      rw [if_neg hspent]
      exact h

@[simp] theorem attempts_withDup (d : Delivery) (dup : Bool) :
    (d.withDup dup).attempts = d.attempts := by
  unfold withDup
  split <;> rfl

@[simp] theorem sentAt_withDup (d : Delivery) (dup : Bool) :
    (d.withDup dup).sentAt = d.sentAt := by
  unfold withDup
  split <;> rfl

theorem Paced.next_outgoing (h : d.Paced maxAttempts latest) (hd : d.direction = .outgoing)
    (he : (d.move delay maxAttempts now).next = some e) :
    e.stage.isWaiting = true ∧ 1 ≤ e.attempts ∧ e.attempts ≤ max 1 maxAttempts ∧
      ∃ t, e.sentAt = some t ∧ (t = now ∨ t ≤ latest ∧ now < t + delay) := by
  rcases h.fits.outgoing_stage hd with hs | ⟨stage, hs⟩ | hw
  · simp [move, hd, hs] at he
  · rw [move_of_ready hd hs] at he
    obtain rfl := Option.some.inj he
    have hready := h.ready hd (isWaiting_of_sent? hs).1
    exact ⟨(isWaiting_of_sent? hs).2, Nat.le_add_left 1 d.attempts, hready, now, rfl, .inl rfl⟩
  · obtain ⟨t, ht, hle, hmin, hmax⟩ := h.waiting hd hw
    rw [move_of_dueAt (dueAt_of_sentAt hd hw ht delay)] at he
    split at he
    next hearly =>
      obtain rfl := Option.some.inj he
      exact ⟨hw, hmin, hmax, t, ht, .inr ⟨hle, hearly⟩⟩
    next =>
      split at he
      next hleft =>
        obtain rfl := Option.some.inj he
        refine ⟨hw, Nat.le_add_left 1 _, ?_, now, rfl, .inl rfl⟩
        simp only [sent, attempts_withDup]
        omega
      next => cases he

theorem Paced.next (h : d.Paced maxAttempts latest)
    (he : (d.move delay maxAttempts now).next = some e) :
    e.Rested maxAttempts (max latest now) := by
  have hm := h.fits.moves delay maxAttempts now
  have hdir : e.direction = d.direction := congrArg Key.direction (hm.key_next he)
  refine ⟨⟨h.toGenuine.next hm he, fun hd _ => ?_⟩, fun hd hw => ?_⟩
  · obtain ⟨_, hmin, hmax, t, ht, hcases⟩ := h.next_outgoing (hdir.symm.trans hd) he
    refine ⟨t, ht, ?_, hmin, hmax⟩
    omega
  · obtain ⟨hwait, _⟩ := h.next_outgoing (hdir.symm.trans hd) he
    simp [hwait] at hw

theorem Fits.not_outgoing_of_awaitPubrel (h : d.Fits) (hs : d.stage = .awaitPubrel) :
    d.direction ≠ .outgoing := by
  intro hd
  rcases h.outgoing_cases hd with ⟨p, _, hstage⟩ | ⟨p, _, hstage⟩ | ⟨p, _, hstage⟩ <;>
    simp [hs] at hstage

theorem Rested.reopened (h : d.Rested maxAttempts latest) :
    d.reopened.Rested maxAttempts latest := by
  have hg := h.toGenuine.reopened
  unfold Delivery.reopened at hg ⊢
  split at hg
  next hs =>
    rw [if_pos hs]
    have hin := h.fits.not_outgoing_of_awaitPubrel hs
    exact ⟨⟨hg, fun hd => absurd hd hin⟩, fun hd => absurd hd hin⟩
  next hs =>
    rw [if_neg hs]
    exact h

theorem isWaiting_ofQos (qos : UInt8) : (Stage.ofQos qos).isWaiting = false := by
  unfold Stage.ofQos
  split
  next => rfl
  next => split <;> rfl

theorem Fresh.rested (h : d.Fresh) (maxAttempts latest : Nat) : d.Rested maxAttempts latest := by
  have hready : d.stage.isWaiting = false := by
    cases h with
    | publish id p => exact isWaiting_ofQos p.qos
    | received p => exact isWaiting_ofQos p.qos
    | _ => rfl
  refine ⟨⟨h.genuine, fun _ hw => ?_⟩, fun _ _ => ?_⟩
  · simp [hready] at hw
  · cases h <;> exact ⟨rfl, rfl⟩

/-- What a session may store: of our own only messages above quality 0. -/
structure Storable (d : Delivery) : Prop extends Genuine d where
  tracked : d.direction = .outgoing → d.isTracked = true

theorem Storable.rewound (h : d.Storable) : d.rewound.Storable :=
  ⟨h.toGenuine.rewound, fun hd => by simpa using h.tracked (by simpa using hd)⟩

theorem Storable.isWaiting_rewound (h : d.Storable) (hd : d.direction = .outgoing) :
    d.rewound.stage.isWaiting = false := by
  have htracked := h.tracked hd
  rcases h.fits.outgoing_cases hd with ⟨p, hp, hcases⟩ | ⟨p, hp, _⟩ | ⟨p, hp, _⟩
  · rcases hcases with ⟨_, hs⟩ | ⟨_, hs | hs⟩ | ⟨_, _, hs | hs | hs | hs⟩ <;>
      simp [Delivery.rewound, hd, hs, Stage.isWaiting]
  · simp [isTracked, message?, hp] at htracked
  · simp [isTracked, message?, hp] at htracked

/-- A stored message can be sent again at once, as if it were new. -/
theorem Storable.rested_rewound (h : d.Storable) (maxAttempts latest : Nat) :
    d.rewound.Rested maxAttempts latest := by
  have hcleared : d.rewound.attempts = 0 ∧ d.rewound.sentAt = none := by
    unfold Delivery.rewound
    dsimp only
    split <;> simp
  have hready : d.direction = .outgoing → d.rewound.stage.isWaiting = false := h.isWaiting_rewound
  rw [← direction_rewound d] at hready
  exact ⟨⟨h.toGenuine.rewound, fun hd hw => by simp [hready hd] at hw⟩,
    fun _ _ => ⟨hcleared.2, hcleared.1⟩⟩

theorem Fresh.storable (h : d.Fresh) (ht : d.isTracked = true) : d.Storable :=
  ⟨h.genuine, fun _ => ht⟩

/-- A move stores a message of our own only if it is to outlive its connection. -/
theorem Genuine.storable_of_put (h : d.Genuine) (hm : d.Moves maxAttempts now m)
    (he : m.record = .put e) : e.Storable := by
  refine ⟨h.next hm (hm.next_of_put he), fun hout => ?_⟩
  cases hm with
  | send | sendAgain =>
    simp only [transmit] at he
    split at he
    next ht =>
      cases he
      exact ht
    next => cases he
  | confirm hd =>
    cases he
    simp [sent, hd] at hout
  | _ => cases he

end Mqtt.Delivery
