import Mqtt.Proofs.Exchange.Operation

/-! After a pass everything waits, and the next deadline is when something has to be done again. -/
namespace Mqtt

namespace DeliveryQueue

variable {σ : Settings} {q : DeliveryQueue} {due : Nat}

theorem nextDeadline_eq_some_iff :
    q.nextDeadline = some due ↔
      (∃ d ∈ q.deliveries, d.dueAt q.retryDelay = some due) ∧
        ∀ d ∈ q.deliveries, ∀ other, d.dueAt q.retryDelay = some other → due ≤ other := by
  unfold nextDeadline
  rw [List.min?_eq_some_iff]
  simp only [List.mem_filterMap]
  constructor
  · rintro ⟨hmem, hle⟩
    exact ⟨hmem, fun d hd other ho => hle other ⟨d, hd, ho⟩⟩
  · rintro ⟨hmem, hle⟩
    refine ⟨hmem, fun other hother => ?_⟩
    obtain ⟨d, hd, ho⟩ := hother
    exact hle d hd other ho

theorem nextDeadline_eq_none_iff :
    q.nextDeadline = none ↔ ∀ d ∈ q.deliveries, d.dueAt q.retryDelay = none := by
  simp [nextDeadline, List.min?_eq_none_iff, List.filterMap_eq_nil_iff]

theorem nextDeadline_le {d : Delivery} (hd : d ∈ q.deliveries)
    (hdue : d.dueAt q.retryDelay = some due) :
    ∃ first, q.nextDeadline = some first ∧ first ≤ due := by
  obtain ⟨first, hfirst⟩ : ∃ first, q.nextDeadline = some first := by
    refine Option.ne_none_iff_exists'.mp fun hnone => ?_
    rw [nextDeadline_eq_none_iff.mp hnone d hd] at hdue
    cases hdue
  exact ⟨first, hfirst, (nextDeadline_eq_some_iff.mp hfirst).2 d hd due hdue⟩

theorem pass_nil (q : DeliveryQueue) (s : Session) (now : Nat) :
    q.pass s [] now = q.advance s now := by
  simp [pass, applyAcks]

/-- Deliveries that all wait on leave a step nothing to do. -/
theorem advance_of_idle {now : Nat}
    (h : ∀ d ∈ q.deliveries, d.move q.retryDelay q.maxAttempts now = { next := some d })
    (s : Session) : q.advance s now = (q, s, {}) := by
  have hmoves : q.moves now = q.deliveries.map fun d => (d, { next := some d }) :=
    List.map_congr_left fun d hd => by rw [h d hd]
  have hnext : (q.deliveries.filterMap fun d => some d) = q.deliveries := List.filterMap_some
  simp [advance, hmoves, List.filterMap_map, List.foldl_map, List.flatMap_map, Session.record,
    hnext]

theorem work_subset_advance {d : Delivery} (hd : d ∈ q.deliveries) (s : Session) (now : Nat) :
    let work := (d.move q.retryDelay q.maxAttempts now).work
    work.outgoing ⊆ (q.advance s now).2.2.outgoing ∧
      work.events ⊆ (q.advance s now).2.2.events := by
  intro work
  simp only [DeliveryQueue.advance, moves, List.flatMap_map]
  exact ⟨fun p hp => List.mem_flatMap.mpr ⟨d, hd, hp⟩, fun e he => List.mem_flatMap.mpr ⟨d, hd, he⟩⟩

/-- Nothing is ready: our own deliveries wait for answers that are not overdue at `now`, and the
broker's messages for their release. -/
structure Quiet (q : DeliveryQueue) (now : Nat) : Prop where
  outgoing : ∀ d ∈ q.deliveries, d.direction = .outgoing →
    d.stage.isWaiting = true ∧ ∃ due, d.dueAt q.retryDelay = some due ∧ now < due
  incoming : ∀ d ∈ q.deliveries, d.direction = .incoming → d.stage = .awaitPubrel

variable {now : Nat}

theorem Quiet.nextDeadline_eq_none_iff (h : q.Quiet now) :
    q.nextDeadline = none ↔ ∀ d ∈ q.deliveries, d.direction ≠ .outgoing := by
  rw [DeliveryQueue.nextDeadline_eq_none_iff]
  constructor
  · intro hnone d hd hout
    obtain ⟨_, due, hdue, _⟩ := h.outgoing d hd hout
    rw [hnone d hd] at hdue
    cases hdue
  · intro hin d hd
    simp [Delivery.dueAt, hin d hd]

theorem Quiet.advance_of_early (h : q.Quiet now) {later : Nat}
    (hlater : ∀ due, q.nextDeadline = some due → later < due) (s : Session) :
    q.advance s later = (q, s, {}) := by
  refine advance_of_idle (fun d hd => ?_) s
  cases hdir : d.direction with
  | incoming => exact Delivery.move_of_awaitPubrel hdir (h.incoming d hd hdir) _ _ later
  | outgoing =>
    obtain ⟨_, due, hdue, _⟩ := h.outgoing d hd hdir
    obtain ⟨first, hfirst, hle⟩ := nextDeadline_le hd hdue
    have hearly := hlater first hfirst
    rw [Delivery.move_of_dueAt hdue, if_pos (by omega)]

/-- At its deadline a delivery is sent again or given up. -/
theorem Keyed.advance_of_dueAt (h : q.Keyed) {d : Delivery} (hd : d ∈ q.deliveries)
    (hid : d.id ≠ 0) (hdue : d.dueAt q.retryDelay = some due) (s : Session) :
    let after := q.advance s due
    d.attempts < q.maxAttempts ∧ d.repeated ∈ after.2.2.outgoing ∧
        (d.withDup true).sent d.stage due ∈ after.1.deliveries ∨
      q.maxAttempts ≤ d.attempts ∧ d.failure ∈ after.2.2.events ∧
        ∀ e ∈ after.1.deliveries, e.key ≠ d.key := by
  intro after
  have hmove := Delivery.move_of_dueAt hdue q.maxAttempts due
  rw [if_neg (Nat.lt_irrefl due)] at hmove
  have hnext : after.1.deliveries = _ := advance_deliveries q s due
  obtain ⟨houtgoing, hevents⟩ := work_subset_advance hd s due
  split at hmove
  next hleft =>
    refine .inl ⟨hleft, houtgoing (by simp [hmove, Delivery.transmit]), ?_⟩
    rw [hnext]
    exact List.mem_filterMap.mpr ⟨d, hd, by rw [hmove]; rfl⟩
  next hspent =>
    refine .inr ⟨Nat.not_lt.mp hspent, hevents (by simp [hmove]), fun e he hkey => ?_⟩
    rw [hnext] at he
    obtain ⟨d', hd', he⟩ := List.mem_filterMap.mp he
    have hkey' : d'.key = d.key := (key_move q due d' hd' e he).symm.trans hkey
    obtain rfl := h.eq_of_key hd hd' hid hkey'
    rw [hmove] at he
    cases he

end DeliveryQueue

namespace Exchange

variable {σ : Settings} {x : Exchange} {latest : Nat}

theorem Regular.sent_of_mem_pass (h : Regular σ latest x) {acks : List Packet} {now : Nat}
    {e : Delivery} (he : e ∈ (x.queue.pass x.session acks now).1.deliveries)
    (hout : e.direction = .outgoing) :
    e.stage.isWaiting = true ∧
      ∃ t, e.sentAt = some t ∧ (t = now ∨ t ≤ latest ∧ now < t + σ.retryDelay) := by
  obtain ⟨d, hd, hde⟩ := h.queue.mem_pass he
  have hpaced : d.Paced σ.maxAttempts latest :=
    h.queue.forall_applyAcks (fun d hd => (h.rested d hd).paced) (fun _ hd hs => hd.release hs)
      x.session acks d hd
  have hkey := (hpaced.fits.moves σ.retryDelay σ.maxAttempts now).key_next hde
  have hdir : d.direction = .outgoing := (congrArg Key.direction hkey).symm.trans hout
  obtain ⟨hwait, _, _, hsent⟩ := hpaced.next_outgoing hdir hde
  exact ⟨hwait, hsent⟩

/-- A pass leaves our own deliveries waiting for answers that are not overdue. -/
theorem Regular.dueAt_of_mem_pass (h : Regular σ latest x) (hdelay : 0 < σ.retryDelay)
    {acks : List Packet} {now : Nat} {e : Delivery}
    (he : e ∈ (x.queue.pass x.session acks now).1.deliveries) (hout : e.direction = .outgoing) :
    e.stage.isWaiting = true ∧ ∃ due, e.dueAt σ.retryDelay = some due ∧ now < due := by
  obtain ⟨hwait, t, ht, hcases⟩ := h.sent_of_mem_pass he hout
  refine ⟨hwait, t + σ.retryDelay, Delivery.dueAt_of_sentAt hout hwait ht _, ?_⟩
  omega

/-- After a pass nothing is ready, whatever was acknowledged. Our own deliveries all wait for an
answer that is not overdue yet, and the broker's messages for their release, so that the next
deadline is when the first answer becomes overdue. Before it a pass without acknowledgments
changes nothing, and at it one delivery at least is sent again or given up. -/
theorem pass_leaves_nothing_ready (h : Reachable σ x) (hdelay : 0 < σ.retryDelay)
    (acks : List Packet) (now : Nat) :
    let q := (x.queue.pass x.session acks now).1
    (∀ d ∈ q.deliveries, d.direction = .outgoing →
      d.stage.isWaiting = true ∧ ∃ due, d.dueAt σ.retryDelay = some due ∧ now < due) ∧
    (∀ d ∈ q.deliveries, d.direction = .incoming → d.stage = .awaitPubrel) ∧
    (q.nextDeadline = none ↔ ∀ d ∈ q.deliveries, d.direction ≠ .outgoing) ∧
    (∀ due, q.nextDeadline = some due ↔
      (∃ d ∈ q.deliveries, d.dueAt σ.retryDelay = some due) ∧
        ∀ d ∈ q.deliveries, ∀ other, d.dueAt σ.retryDelay = some other → due ≤ other) ∧
    (∀ s later, (∀ due, q.nextDeadline = some due → later < due) →
      q.pass s [] later = (q, s, {})) ∧
    ∀ s due, q.nextDeadline = some due →
      let after := q.pass s [] due
      ∃ d ∈ q.deliveries, d.dueAt σ.retryDelay = some due ∧
        (d.attempts < σ.maxAttempts ∧ d.repeated ∈ after.2.2.outgoing ∧
            (d.withDup true).sent d.stage due ∈ after.1.deliveries ∨
          σ.maxAttempts ≤ d.attempts ∧ d.failure ∈ after.2.2.events ∧
            ∀ e ∈ after.1.deliveries, e.key ≠ d.key) := by
  intro q
  obtain ⟨latest, hx⟩ := h.regular
  have hsound : q.Sound σ := h.sound.1.pass x.session acks now
  have hquiet : q.Quiet now := by
    refine ⟨fun d hd hout => ?_, h.sound.1.awaitPubrel_of_mem_pass x.session acks now⟩
    rw [hsound.retryDelay]
    exact hx.dueAt_of_mem_pass hdelay hd hout
  rw [← hsound.retryDelay, ← hsound.maxAttempts]
  refine ⟨hquiet.outgoing, hquiet.incoming, hquiet.nextDeadline_eq_none_iff,
    fun due => DeliveryQueue.nextDeadline_eq_some_iff, fun s later hlater => ?_,
    fun s due hdue => ?_⟩
  · rw [q.pass_nil]
    exact hquiet.advance_of_early hlater s
  · rw [q.pass_nil]
    obtain ⟨⟨d, hd, hdd⟩, _⟩ := DeliveryQueue.nextDeadline_eq_some_iff.mp hdue
    have hid : d.id ≠ 0 := by
      intro hz
      have hin := ((hsound.coherent d hd).numbered.mp hz).1
      simp [Delivery.dueAt, hin] at hdd
    exact ⟨d, hd, hdd, hsound.keyed.advance_of_dueAt hd hid hdd s⟩

/-- One message each way and a stray acknowledgment: ours is due 10000 ms later, and up to then
nothing happens. -/
theorem pass_leaves_nothing_ready_of_both :
    ∃ x, Reachable {} x ∧ 0 < ({} : Settings).retryDelay ∧
      let q := (x.queue.pass x.session [.pubAck 9] 5).1
      q.deliveries.map Delivery.stage = [.awaitPubrec, .awaitPubrel] ∧
        q.nextDeadline = some 10005 ∧ q.pass x.session [] 10004 = (q, x.session, {}) ∧
        ∃ d ∈ q.deliveries, d.dueAt 10000 = some 10005 := by
  have hdecoded : (Publish.mk false 2 false "b" (some 4) []).IsDecoded :=
    ⟨[0x34, 5, 0, 1, 0x62, 0, 4], 7, rfl⟩
  have hreach : Reachable {} _ := .step (.step (.start {} { clientId := "c" })
    (.issue (r := .publish ⟨false, 2, false, "a", none, []⟩) rfl)) (.accept hdecoded rfl)
  have hdelay : 0 < ({} : Settings).retryDelay := by decide
  obtain ⟨_, _, _, hdeadline, hquiet, _⟩ :=
    pass_leaves_nothing_ready hreach hdelay [.pubAck 9] 5
  refine ⟨_, hreach, hdelay, rfl, rfl, hquiet _ 10004 fun due hdue => ?_,
    ((hdeadline 10005).mp rfl).1⟩
  obtain rfl : 10005 = due := Option.some.inj hdue
  decide

end Exchange
end Mqtt
