import Mqtt.Proofs.Delivery.Named
import Mqtt.Proofs.DeliveryQueue.Index
import Mqtt.Proofs.Session.Table

/-!
What every operation keeps of a queue's index and room, and how a property of all its deliveries is
handed on.
-/
namespace Mqtt.DeliveryQueue

/-- A true index and no more deliveries of our own than there is room for, under the limits
of `σ`. -/
structure Tidy (σ : Settings) (q : DeliveryQueue) : Prop where
  keyed : q.Keyed
  fits : q.outgoingCount ≤ q.capacity
  capacity : q.capacity = σ.capacity
  retryDelay : q.retryDelay = σ.retryDelay
  maxAttempts : q.maxAttempts = σ.maxAttempts

variable {σ : Settings} {q : DeliveryQueue} {P Q : Delivery → Prop}

theorem tidy_ofSettings (σ : Settings) : (ofSettings σ).Tidy σ :=
  ⟨keyed_ofSettings σ, by simp [ofSettings, outgoingCount], rfl, rfl, rfl⟩

/-! Putting a delivery behind the others. -/

theorem outgoingCount_enqueue (q : DeliveryQueue) (d : Delivery) :
    (q.enqueue d).outgoingCount =
      q.outgoingCount + if d.direction = .outgoing then 1 else 0 := by
  simp [enqueue, outgoingCount, List.countP_append]

theorem Tidy.enqueue (h : q.Tidy σ) {d : Delivery} (hd : d.id ≠ 0 → q.get? d.key = none)
    (hroom : d.direction = .outgoing → q.isFull = false) : (q.enqueue d).Tidy σ := by
  refine ⟨h.keyed.enqueue hd, ?_, h.capacity, h.retryDelay, h.maxAttempts⟩
  have hfits := h.fits
  rw [outgoingCount_enqueue]
  change _ ≤ q.capacity
  split
  next hdir =>
    have hfull : ¬ q.capacity ≤ q.outgoingCount := by simpa [isFull] using hroom hdir
    omega
  next => omega

theorem forall_enqueue (h : ∀ e ∈ q.deliveries, P e) {d : Delivery} (hd : P d) :
    ∀ e ∈ (q.enqueue d).deliveries, P e := by
  intro e he
  rcases List.mem_append.mp he with he | he
  · exact h e he
  · obtain rfl := List.mem_singleton.mp he
    exact hd

/-! Changing a delivery in its place. -/

theorem mem_modify {key : Key} {f : Delivery → Delivery} {ds : List Delivery} {e : Delivery}
    (h : e ∈ modify key f ds) : e ∈ ds ∨ ∃ d ∈ ds, d.key = key ∧ e = f d := by
  induction ds with
  | nil => cases h
  | cons d ds ih =>
    unfold modify at h
    split at h
    next hd =>
      rcases List.mem_cons.mp h with rfl | h
      · exact .inr ⟨d, List.mem_cons_self, hd, rfl⟩
      · exact .inl (List.mem_cons_of_mem _ h)
    next =>
      rcases List.mem_cons.mp h with rfl | h
      · exact .inl List.mem_cons_self
      · rcases ih h with h | ⟨e, he, hk, rfl⟩
        · exact .inl (List.mem_cons_of_mem _ h)
        · exact .inr ⟨e, List.mem_cons_of_mem _ he, hk, rfl⟩

theorem Tidy.modify (h : q.Tidy σ) {key : Key} {f : Delivery → Delivery}
    (hf : ∀ d, d.key = key → (f d).key = key) :
    Tidy σ { q with deliveries := modify key f q.deliveries } := by
  refine ⟨h.keyed.modify hf, ?_, h.capacity, h.retryDelay, h.maxAttempts⟩
  have hdir : (DeliveryQueue.modify key f q.deliveries).map Delivery.direction =
      q.deliveries.map Delivery.direction :=
    map_modify Delivery.direction
      (fun d hd => congrArg Key.direction ((hf d hd).trans hd.symm)) q.deliveries
  have hcount : ∀ ds : List Delivery, (ds.countP fun d => d.direction = .outgoing) =
      (ds.map Delivery.direction).countP fun x => x = .outgoing := by
    intro ds
    rw [List.countP_map]
    rfl
  change (DeliveryQueue.modify key f q.deliveries).countP _ ≤ _
  rw [hcount, hdir, ← hcount]
  exact h.fits

/-! Taking a delivery out. -/

theorem Tidy.remove (h : q.Tidy σ) {key : Key} (hkey : key.id ≠ 0) : (q.remove key).Tidy σ :=
  ⟨h.keyed.remove hkey, Nat.le_trans List.eraseP_sublist.countP_le h.fits, h.capacity,
    h.retryDelay, h.maxAttempts⟩

/-! Acknowledgments. -/

theorem answers_pubRec {ack : Packet} {key : Key} {stages : List Stage} (h : ack.type = .pubRec)
    (ha : ack.answers = some (key, stages)) :
    key.direction = .outgoing ∧ stages = [.awaitPubrec, .awaitPubcomp] := by
  cases ack <;> simp [Packet.type] at h
  simp only [Packet.answers, Option.some.injEq, Prod.mk.injEq] at ha
  exact ⟨by rw [← ha.1], ha.2.symm⟩

theorem Tidy.applyAck (h : q.Tidy σ) (s : Session) (ack : Packet) :
    (q.applyAck s ack).1.Tidy σ := by
  unfold DeliveryQueue.applyAck
  split
  next => exact h
  next key stages _ =>
    split
    next => exact h
    next d hd =>
      split
      next => exact h
      next =>
        split
        next => exact h.modify fun e he => by simpa using he
        next => exact h.remove (h.keyed.get?_eq_some_iff.mp hd).1

theorem Keyed.forall_applyAck (h : q.Keyed) (hP : ∀ d ∈ q.deliveries, P d)
    (hrelease : ∀ d, P d → d.stage = .awaitPubrec ∨ d.stage = .awaitPubcomp →
      P (release q.maxAttempts d))
    (s : Session) (ack : Packet) : ∀ d ∈ (q.applyAck s ack).1.deliveries, P d := by
  unfold DeliveryQueue.applyAck
  split
  next => exact hP
  next key stages ha =>
    split
    next => exact hP
    next d hd =>
      split
      next => exact hP
      next hs =>
        have hs := Decidable.not_not.mp hs
        split
        next htype =>
          obtain ⟨_, rfl⟩ := answers_pubRec htype ha
          intro e he
          rcases mem_modify he with he | ⟨f, hf, hk, rfl⟩
          · exact hP e he
          · obtain ⟨hid, hmem, rfl⟩ := h.get?_eq_some_iff.mp hd
            obtain rfl := h.eq_of_key hmem hf hid hk
            exact hrelease f (hP f hf) (by simpa using hs)
        next => exact fun e he => hP e (List.mem_of_mem_eraseP he)

theorem Tidy.applyAcks (h : q.Tidy σ) (s : Session) (acks : List Packet) :
    (q.applyAcks s acks).1.Tidy σ := by
  induction acks generalizing q s with
  | nil => exact h
  | cons ack acks ih => exact ih (h.applyAck s ack) _

theorem Tidy.forall_applyAcks (h : q.Tidy σ) (hP : ∀ d ∈ q.deliveries, P d)
    (hrelease : ∀ d, P d → d.stage = .awaitPubrec ∨ d.stage = .awaitPubcomp →
      P (release σ.maxAttempts d))
    (s : Session) (acks : List Packet) : ∀ d ∈ (q.applyAcks s acks).1.deliveries, P d := by
  induction acks generalizing q s with
  | nil => exact hP
  | cons ack acks ih =>
    have hfirst := h.keyed.forall_applyAck hP (h.maxAttempts ▸ hrelease) s ack
    exact ih (h.applyAck s ack) hfirst (q.applyAck s ack).2.1

/-- What the deliveries of a queue send and report names no other delivery. -/
def Named (q : DeliveryQueue) : Prop :=
  ∀ d ∈ q.deliveries, d.Named

theorem Named.applyAck (h : q.Named) (s : Session) (ack : Packet) : (q.applyAck s ack).1.Named := by
  unfold DeliveryQueue.applyAck
  split
  next => exact h
  next key stages _ =>
    split
    next => exact h
    next d _ =>
      split
      next => exact h
      next =>
        split
        next =>
          intro e he
          rcases mem_modify he with he | ⟨d', hd', _, rfl⟩
          · exact h e he
          · exact (h d' hd').release _
        next => exact fun e he => h e (List.mem_of_mem_eraseP he)

theorem Named.applyAcks (h : q.Named) (s : Session) (acks : List Packet) :
    (q.applyAcks s acks).1.Named := by
  induction acks generalizing q s with
  | nil => exact h
  | cons ack acks ih => exact ih (h.applyAck s ack) _

/-! The step that all deliveries take at a time. -/

theorem advance_deliveries (q : DeliveryQueue) (s : Session) (now : Nat) :
    (q.advance s now).1.deliveries =
      q.deliveries.filterMap fun d => (d.move q.retryDelay q.maxAttempts now).next := by
  simp [DeliveryQueue.advance, moves, List.filterMap_map]

theorem key_move (q : DeliveryQueue) (now : Nat) :
    ∀ d ∈ q.deliveries, ∀ e, (d.move q.retryDelay q.maxAttempts now).next = some e →
      e.key = d.key :=
  fun d _ e he => (Delivery.within_move d _ _ now).next e he

theorem Keyed.advance (h : q.Keyed) (s : Session) (now : Nat) : (q.advance s now).1.Keyed := by
  have hkey := key_move q now
  have hgone : ∀ k, k ∈ (q.advance s now).1.index ↔ k ∈ q.index ∧
      ∀ d ∈ q.deliveries, (d.move q.retryDelay q.maxAttempts now).next = none → d.key ≠ k := by
    intro k
    simp [DeliveryQueue.advance, moves, List.filterMap_map]
  constructor
  · rw [advance_deliveries]
    exact h.distinct.filterMap hkey
  · intro k
    rw [hgone, advance_deliveries, h.mem_index]
    constructor
    · rintro ⟨⟨hk, d, hd, rfl⟩, hstay⟩
      obtain ⟨e, he⟩ := Option.ne_none_iff_exists'.mp fun hn => hstay d hd hn rfl
      exact ⟨hk, e, List.mem_filterMap.mpr ⟨d, hd, he⟩, hkey d hd e he⟩
    · rintro ⟨hk, e, he, rfl⟩
      obtain ⟨d, hd, hde⟩ := List.mem_filterMap.mp he
      have hdk := hkey d hd e hde
      refine ⟨⟨hk, d, hd, hdk.symm⟩, fun f hf hn hfk => ?_⟩
      -- the delivery that is gone and the one that stays would share a key
      obtain rfl := h.eq_of_key hd hf (hdk ▸ hk) (hfk.trans hdk)
      rw [hn] at hde
      cases hde

theorem Tidy.advance (h : q.Tidy σ) (s : Session) (now : Nat) : (q.advance s now).1.Tidy σ := by
  refine ⟨h.keyed.advance s now, ?_, h.capacity, h.retryDelay, h.maxAttempts⟩
  refine Nat.le_trans ?_ h.fits
  unfold outgoingCount
  rw [advance_deliveries, List.countP_filterMap]
  refine List.countP_mono_left fun d hd hout => ?_
  cases hn : (d.move q.retryDelay q.maxAttempts now).next with
  | none => simp [hn] at hout
  | some e =>
    have hdir : e.direction = d.direction := congrArg Key.direction (key_move q now d hd e hn)
    simpa [hn, hdir] using hout

theorem Tidy.pass (h : q.Tidy σ) (s : Session) (acks : List Packet) (now : Nat) :
    (q.pass s acks now).1.Tidy σ :=
  (h.applyAcks s acks).advance (q.applyAcks s acks).2.1 now

/-- What a pass leaves has moved from what the acknowledgments leave. -/
theorem Tidy.mem_pass (h : q.Tidy σ) {s : Session} {acks : List Packet} {now : Nat} {e : Delivery}
    (he : e ∈ (q.pass s acks now).1.deliveries) :
    ∃ d ∈ (q.applyAcks s acks).1.deliveries,
      (d.move σ.retryDelay σ.maxAttempts now).next = some e := by
  have hq := h.applyAcks s acks
  have hadvance : (q.pass s acks now).1.deliveries = _ :=
    advance_deliveries _ (q.applyAcks s acks).2.1 now
  rw [hadvance, hq.retryDelay, hq.maxAttempts] at he
  exact List.mem_filterMap.mp he

theorem Tidy.forall_pass (h : q.Tidy σ) {now : Nat} (hP : ∀ d ∈ q.deliveries, P d)
    (hrelease : ∀ d, P d → d.stage = .awaitPubrec ∨ d.stage = .awaitPubcomp →
      P (release σ.maxAttempts d))
    (hnext : ∀ d e, P d → (d.move σ.retryDelay σ.maxAttempts now).next = some e → Q e)
    (s : Session) (acks : List Packet) : ∀ d ∈ (q.pass s acks now).1.deliveries, Q d := by
  intro e he
  obtain ⟨d, hd, hde⟩ := h.mem_pass he
  exact hnext d e (h.forall_applyAcks hP hrelease s acks d hd) hde

/-! Messages from the broker. -/

theorem accept_eq (q : DeliveryQueue) (p : Publish) :
    q.accept p =
      match (if p.qos = 0 then none else p.id).bind fun id => q.get? ⟨id, .incoming⟩ with
      | some d =>
        (.duplicate,
          { q with deliveries := DeliveryQueue.modify d.key Delivery.reopened q.deliveries })
      | none => (.queued, q.enqueue (.received p)) :=
  rfl

/-- A message is queued unless one is held under its key, which is then answered again. -/
theorem Keyed.accept_cases (h : q.Keyed) {p : Publish} (hp : p.Numbered) :
    q.get? (Delivery.received p).key = none ∧ q.accept p = (.queued, q.enqueue (.received p)) ∨
      q.get? (Delivery.received p).key ≠ none ∧
        q.accept p = (.duplicate, { q with
          deliveries :=
            DeliveryQueue.modify (Delivery.received p).key Delivery.reopened q.deliveries }) := by
  rw [accept_eq]
  rcases hp.id_eq with ⟨hq, hnone⟩ | ⟨hq, id, _, hsome⟩
  · refine .inl ⟨?_, by simp [hq]⟩
    rw [Option.eq_none_iff_forall_ne_some]
    intro d hd
    exact (h.get?_eq_some_iff.mp hd).1 (by simp [Delivery.received, hnone])
  · have hkey : (Delivery.received p).key = ⟨id, .incoming⟩ := by
      simp [Delivery.key, Delivery.received, hsome]
    rw [hkey]
    rcases hd : q.get? ⟨id, .incoming⟩ with _ | d
    · exact .inl ⟨rfl, by simp [hq, hsome, hd]⟩
    · have hdk := h.key_of_get? hd
      exact .inr ⟨by simp, by simp [hq, hsome, hd, hdk]⟩

theorem Tidy.accept (h : q.Tidy σ) {p : Publish} (hp : p.Numbered) : (q.accept p).2.Tidy σ := by
  rcases h.keyed.accept_cases hp with ⟨hfree, he⟩ | ⟨_, he⟩
  · rw [he]
    exact h.enqueue (fun _ => hfree) fun hdir => by cases hdir
  · rw [he]
    exact h.modify fun e he => by simpa using he

theorem Keyed.forall_accept (h : q.Keyed) (hP : ∀ d ∈ q.deliveries, P d) {p : Publish}
    (hp : p.Numbered) (hnew : P (.received p)) (hreopen : ∀ d, P d → P d.reopened) :
    ∀ d ∈ (q.accept p).2.deliveries, P d := by
  rcases h.accept_cases hp with ⟨_, he⟩ | ⟨_, he⟩
  · rw [he]
    exact forall_enqueue hP hnew
  · rw [he]
    intro e he
    rcases mem_modify he with he | ⟨d, hd, _, rfl⟩
    · exact hP e he
    · exact hreopen d (hP d hd)

/-! Deliveries that a session still owes. -/

theorem push_eq_ok {d : Delivery} (h : d.direction = .outgoing → q.isFull = false) :
    q.push d = .ok (q.enqueue d) := by
  unfold push
  split
  next hfull => simp [h hfull.1] at hfull
  next => rfl

theorem exists_of_push {q' : DeliveryQueue} {d : Delivery} (h : q.push d = .ok q') :
    (d.direction = .outgoing → q.isFull = false) ∧ q' = q.enqueue d := by
  unfold push at h
  split at h
  next => cases h
  next hroom =>
    cases h
    exact ⟨by simpa using hroom, rfl⟩

theorem Tidy.push (h : q.Tidy σ) {d : Delivery} {q' : DeliveryQueue}
    (hfree : q.contains d.key = false) (hq : q.push d = .ok q') : q'.Tidy σ := by
  obtain ⟨hroom, rfl⟩ := exists_of_push hq
  exact h.enqueue (fun _ => (h.keyed.contains_eq_false_iff _).mp hfree) hroom

/-- What holds of a queue and is kept by taking up one delivery more holds when all are loaded. -/
theorem load_induction {R : DeliveryQueue → Prop} {ds : List Delivery} (h : R q)
    (step : ∀ q q' d, R q → d ∈ ds → q.contains d.key = false → q.push d = .ok q' → R q') :
    R (q.load ds).2 := by
  induction ds generalizing q with
  | nil => exact h
  | cons d ds ih =>
    have hrest : ∀ q q' e, R q → e ∈ ds → q.contains e.key = false → q.push e = .ok q' → R q' :=
      fun q q' e hr he => step q q' e hr (List.mem_cons_of_mem _ he)
    unfold DeliveryQueue.load
    split
    next => exact ih h hrest
    next hfree =>
      split
      next => exact ih h hrest
      next q' hpush =>
        exact ih (step q q' d h List.mem_cons_self (by simpa using hfree) hpush) hrest

theorem Tidy.load (h : q.Tidy σ) (ds : List Delivery) : (q.load ds).2.Tidy σ :=
  load_induction h fun _ _ _ hq _ hfree hpush => hq.push hfree hpush

theorem forall_load (h : ∀ d ∈ q.deliveries, P d) {ds : List Delivery} (hds : ∀ d ∈ ds, P d) :
    ∀ d ∈ (q.load ds).2.deliveries, P d := by
  refine load_induction (R := fun q => ∀ d ∈ q.deliveries, P d) h ?_
  intro q q' d hq hd _ hpush
  obtain ⟨_, rfl⟩ := exists_of_push hpush
  exact forall_enqueue hq (hds d hd)

end Mqtt.DeliveryQueue
