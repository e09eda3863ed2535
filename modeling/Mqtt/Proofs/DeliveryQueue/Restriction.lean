import Mqtt.Proofs.DeliveryQueue.Sound

/-!
Deliveries do not interfere: a pass does with the delivery under a key what it would do if that
delivery and its acknowledgments were all there is.
-/
namespace Mqtt

namespace Session

/-- What a session stores under one key. -/
def only (s : Session) (k : Key) : Session :=
  { s with deliveries := s.deliveries.filter fun d => d.key = k }

variable {s : Session} {k : Key}

theorem contains_only (s : Session) (k : Key) : (s.only k).contains k = s.contains k := by
  unfold contains only
  rw [List.any_filter]
  congr 1
  funext d
  by_cases hd : d.key = k <;> simp [hd]

theorem only_put (s : Session) (d : Delivery) (k : Key) :
    (s.put d).only k = if d.key = k then (s.only k).put d else s.only k := by
  have hkey : ∀ e : Delivery, (if e.key = d.key then d else e).key = e.key := by
    intro e
    split
    next h => exact h.symm
    next => rfl
  have hmap : ∀ ds : List Delivery,
      (ds.map fun e => if e.key = d.key then d else e).filter (fun e => e.key = k) =
        (ds.filter fun e => e.key = k).map fun e => if e.key = d.key then d else e := by
    intro ds
    simp only [List.filter_map, Function.comp_def, hkey]
  by_cases hd : d.key = k
  · subst hd
    unfold put
    rw [contains_only, if_pos rfl]
    split
    next => simp only [only, hmap]
    next => simp [only]
  · rw [if_neg hd]
    unfold put
    split
    next =>
      have hsame : ∀ e ∈ s.deliveries.filter (fun e => e.key = k),
          (if e.key = d.key then d else e) = e := by
        intro e he
        have hek : e.key = k := by simpa using (List.mem_filter.mp he).2
        rw [if_neg (hek ▸ Ne.symm hd)]
      simp only [only, hmap]
      rw [List.map_congr_left hsame, List.map_id']
    next => simp [only, hd]

theorem only_erase (s : Session) (key k : Key) :
    (s.erase key).only k = if key = k then (s.only k).erase key else s.only k := by
  unfold erase only
  split
  next => simp only [List.filter_filter, Bool.and_comm]
  next hne =>
    simp only [List.filter_filter]
    congr 1
    refine List.filter_congr fun d _ => ?_
    by_cases hd : d.key = k <;> simp [hd, Ne.symm hne]

theorem only_record (s : Session) (r : Record) (k : Key) :
    (s.record r).only k = if r.key? = some k then (s.only k).record r else s.only k := by
  cases r with
  | keep => rfl
  | put d => simp [Session.record, only_put, Record.key?]
  | erase key => simp [Session.record, only_erase, Record.key?]

/-- Of the records that deliveries leave under their own keys, one key sees its own. -/
theorem only_foldl_record {ds : List Delivery} {r : Delivery → Record} (s : Session) (k : Key)
    (hr : ∀ d ∈ ds, (r d).key? = none ∨ (r d).key? = some d.key) :
    (ds.foldl (fun s d => s.record (r d)) s).only k =
      (ds.filter fun d => d.key = k).foldl (fun s d => s.record (r d)) (s.only k) := by
  induction ds generalizing s with
  | nil => rfl
  | cons d ds ih =>
    rw [List.foldl_cons, ih (s.record (r d)) fun e he => hr e (List.mem_cons_of_mem _ he),
      only_record]
    by_cases hd : d.key = k
    · rcases hr d List.mem_cons_self with hnone | hsome
      · have hkeep := Record.key?_eq_none_iff.mp hnone
        simp [hd, hkeep, Record.key?, Session.record]
      · simp [hd, hsome]
    · have hother : (r d).key? ≠ some k := by
        rcases hr d List.mem_cons_self with hnone | hsome
        · simp [hnone]
        · simpa [hsome] using hd
      simp [hd, hother]

end Session

namespace DeliveryQueue

def only (q : DeliveryQueue) (k : Key) : DeliveryQueue :=
  { q with deliveries := q.deliveries.filter fun d => d.key = k
           index := q.index.filter fun l => l = k }

variable {q : DeliveryQueue} {k : Key}

theorem contains_only (q : DeliveryQueue) (k : Key) : (q.only k).contains k = q.contains k := by
  simp [contains, only]

theorem get?_only (q : DeliveryQueue) (k : Key) : (q.only k).get? k = q.get? k := by
  unfold get?
  rw [contains_only]
  simp [only]

theorem filter_modify {key : Key} {f : Delivery → Delivery}
    (hf : ∀ d, d.key = key → (f d).key = key) (ds : List Delivery) :
    (modify key f ds).filter (fun d => d.key = k) =
      if key = k then modify key f (ds.filter fun d => d.key = k)
      else ds.filter fun d => d.key = k := by
  induction ds with
  | nil => simp [modify]
  | cons d ds ih =>
    simp only [modify]
    by_cases hd : d.key = key
    · by_cases hk : key = k
      · simp [modify, hd, hf d hd, hk]
      · simp [hd, hf d hd, hk]
    · by_cases hk : key = k
      · have hdk : d.key ≠ k := hk ▸ hd
        simpa [hdk, hk] using ih
      · by_cases hdk : d.key = k <;> simpa [hd, hdk, hk, Ne.symm hk] using ih

theorem filter_eraseP (ds : List Delivery) (key : Key) :
    (ds.eraseP fun d => d.key = key).filter (fun d => d.key = k) =
      if key = k then (ds.filter fun d => d.key = k).eraseP fun d => d.key = key
      else ds.filter fun d => d.key = k := by
  induction ds with
  | nil => simp
  | cons d ds ih =>
    by_cases hd : d.key = key
    · by_cases hk : key = k <;> simp [hd, hk]
    · by_cases hk : key = k
      · have hdk : d.key ≠ k := hk ▸ hd
        simpa [hdk, hk] using ih
      · by_cases hdk : d.key = k <;> simpa [hd, hdk, hk, Ne.symm hk] using ih

theorem only_remove (q : DeliveryQueue) (key k : Key) :
    (q.remove key).only k = if key = k then (q.only k).remove key else q.only k := by
  unfold remove only
  simp only [filter_eraseP, List.filter_filter]
  split
  next => simp only [Bool.and_comm]
  next hne =>
    congr 1
    refine List.filter_congr fun l _ => ?_
    by_cases hl : l = k <;> simp [hl, Ne.symm hne]

theorem Named.only (h : q.Named) (k : Key) : (q.only k).Named :=
  fun d hd => h d (List.mem_of_mem_filter hd)

theorem mem_of_get? {d : Delivery} (h : q.get? k = some d) : d ∈ q.deliveries ∧ d.key = k := by
  unfold get? at h
  split at h
  next => exact ⟨List.mem_of_find?_eq_some h, by simpa using List.find?_some h⟩
  next => cases h

theorem applyAck_other (s : Session) {ack : Packet} (hk : ack.addressee? ≠ some k) :
    (q.applyAck s ack).1.only k = q.only k ∧ (q.applyAck s ack).2.1.only k = s.only k := by
  unfold applyAck
  split
  next => exact ⟨rfl, rfl⟩
  next key stages ha =>
    have hne : key ≠ k := fun h => hk (by simp [Packet.addressee?, ha, h])
    split
    next => exact ⟨rfl, rfl⟩
    next =>
      split
      next => exact ⟨rfl, rfl⟩
      next =>
        split
        next =>
          refine ⟨?_, rfl⟩
          unfold only
          simp only [filter_modify fun e he => (Delivery.key_release q.maxAttempts e).trans he,
            if_neg hne]
        next => exact ⟨by rw [only_remove, if_neg hne], by rw [Session.only_erase, if_neg hne]⟩

theorem Named.applyAck_about (h : q.Named) (s : Session) {ack : Packet}
    (hk : ack.addressee? = some k) : (q.applyAck s ack).2.2.About k := by
  obtain ⟨⟨key, stages⟩, ha, rfl⟩ := Option.map_eq_some_iff.mp hk
  unfold DeliveryQueue.applyAck
  simp only [ha]
  split
  next => exact about_unmatched ha
  next d hget =>
    obtain ⟨hd, rfl⟩ := mem_of_get? hget
    split
    next => exact about_unmatched ha
    next =>
      split
      next => exact ⟨by simp, by simp⟩
      next => exact about_completion (h d hd) ha

theorem Named.applyAck_work_other (h : q.Named) (s : Session) {ack : Packet}
    (hk : ack.addressee? ≠ some k) : (q.applyAck s ack).2.2.of k = {} := by
  cases hkey : ack.addressee? with
  | none =>
    have ha : ack.answers = none := Option.map_eq_none_iff.mp hkey
    simp [DeliveryQueue.applyAck, ha]
  | some key => exact (h.applyAck_about s hkey).of_ne fun heq => hk (heq ▸ hkey)

/-- What is addressed to a delivery acts as if there were no other. -/
theorem applyAck_addressee (q : DeliveryQueue) (s : Session) {ack : Packet}
    (hk : ack.addressee? = some k) :
    (q.applyAck s ack).1.only k = ((q.only k).applyAck (s.only k) ack).1 ∧
      (q.applyAck s ack).2.1.only k = ((q.only k).applyAck (s.only k) ack).2.1 ∧
      (q.applyAck s ack).2.2 = ((q.only k).applyAck (s.only k) ack).2.2 := by
  unfold applyAck
  obtain ⟨⟨key, stages⟩, ha, rfl⟩ := Option.map_eq_some_iff.mp hk
  simp only [ha, get?_only]
  split
  next => exact ⟨rfl, rfl, rfl⟩
  next =>
    split
    next => exact ⟨rfl, rfl, rfl⟩
    next =>
      split
      next =>
        refine ⟨?_, rfl, rfl⟩
        unfold only
        simp only [filter_modify fun e he => (Delivery.key_release q.maxAttempts e).trans he,
          if_true]
      next =>
        exact ⟨by rw [only_remove, if_pos rfl], by rw [Session.only_erase, if_pos rfl], rfl⟩

theorem applyAcks_only (q : DeliveryQueue) (s : Session) (acks : List Packet) (k : Key) :
    let mine := acks.filter fun ack => ack.addressee? = some k
    (q.applyAcks s acks).1.only k = ((q.only k).applyAcks (s.only k) mine).1 ∧
      (q.applyAcks s acks).2.1.only k = ((q.only k).applyAcks (s.only k) mine).2.1 := by
  induction acks generalizing q s with
  | nil => exact ⟨rfl, rfl⟩
  | cons ack acks ih =>
    have ih := ih (q.applyAck s ack).1 (q.applyAck s ack).2.1
    by_cases hk : ack.addressee? = some k
    · obtain ⟨hq, hs, _⟩ := applyAck_addressee q s hk
      rw [hq, hs] at ih
      simpa only [hk, List.filter_cons, decide_true, if_true, applyAcks] using ih
    · obtain ⟨hq, hs⟩ := applyAck_other (q := q) s hk
      rw [hq, hs] at ih
      simpa only [hk, List.filter_cons, decide_false, Bool.false_eq_true, if_false, applyAcks]
        using ih

theorem Named.applyAcks_work (h : q.Named) (s : Session) (acks : List Packet) (k : Key) :
    (q.applyAcks s acks).2.2.of k =
      ((q.only k).applyAcks (s.only k)
        (acks.filter fun ack => ack.addressee? = some k)).2.2.of k := by
  induction acks generalizing q s with
  | nil => rfl
  | cons ack acks ih =>
    have ih := ih (h.applyAck s ack) (q.applyAck s ack).2.1
    by_cases hk : ack.addressee? = some k
    · obtain ⟨hq, hs, hw⟩ := applyAck_addressee q s hk
      rw [hq, hs] at ih
      simp only [hk, List.filter_cons, decide_true, if_true, DeliveryQueue.applyAcks,
        Work.of_append, hw, ih]
    · obtain ⟨hq, hs⟩ := applyAck_other (q := q) s hk
      rw [hq, hs] at ih
      simp only [hk, List.filter_cons, decide_false, Bool.false_eq_true, if_false,
        DeliveryQueue.applyAcks, Work.of_append, h.applyAck_work_other s hk, Work.empty_append, ih]

/-! The step that all deliveries take at a time. -/

theorem filter_next (q : DeliveryQueue) (now : Nat) (k : Key) :
    (q.deliveries.filterMap fun d => (d.move q.retryDelay q.maxAttempts now).next).filter
        (fun d => d.key = k) =
      (q.deliveries.filter fun d => d.key = k).filterMap
        fun d => (d.move q.retryDelay q.maxAttempts now).next := by
  rw [List.filter_filterMap, List.filterMap_filter]
  refine List.filterMap_congr fun d _ => ?_
  have hkey := (Delivery.within_move d q.retryDelay q.maxAttempts now).next
  cases he : (d.move q.retryDelay q.maxAttempts now).next with
  | none => simp
  | some e =>
    have hek := hkey e he
    by_cases hd : d.key = k <;> simp [Option.filter, hek, hd]

/-- A key leaves the index with one of its deliveries, whatever becomes of the others. -/
theorem only_advance (q : DeliveryQueue) (s : Session) (now : Nat) (k : Key) :
    (q.advance s now).1.only k = ((q.only k).advance (s.only k) now).1 ∧
      (q.advance s now).2.1.only k = ((q.only k).advance (s.only k) now).2.1 := by
  constructor
  · have hdeliveries := filter_next q now k
    unfold only advance moves
    simp only [List.filterMap_map, Function.comp_def, List.filter_filter] at hdeliveries ⊢
    rw [hdeliveries]
    congr 1
    refine List.filter_congr fun l _ => ?_
    by_cases hl : l = k
    · have hgone : (∃ d, d ∈ q.deliveries ∧
            (d.move q.retryDelay q.maxAttempts now).next = none ∧ d.key = k) ↔
          ∃ d, (d ∈ q.deliveries ∧ d.key = k) ∧
            (d.move q.retryDelay q.maxAttempts now).next = none ∧ d.key = k :=
        exists_congr fun d => by tauto
      simpa [hl] using hgone
    · simp [hl]
  · unfold advance moves only
    simp only [List.foldl_map]
    exact Session.only_foldl_record s k fun d _ => (Delivery.within_move d _ _ now).record

/-- A list of deliveries that work on their own: under one key only its own work is left. -/
theorem of_flatMap_filter {ds : List Delivery} {w : Delivery → Work} {k : Key}
    (hw : ∀ d ∈ ds, (w d).About d.key) :
    Work.of { outgoing := ds.flatMap fun d => (w d).outgoing
              events := ds.flatMap fun d => (w d).events } k =
      Work.of { outgoing := (ds.filter fun d => d.key = k).flatMap fun d => (w d).outgoing
                events := (ds.filter fun d => d.key = k).flatMap fun d => (w d).events } k := by
  induction ds with
  | nil => rfl
  | cons d ds ih =>
    have ih := ih fun e he => hw e (List.mem_cons_of_mem _ he)
    rw [Work.of_flatMap_cons, ih]
    by_cases hd : d.key = k
    · simp only [List.filter_cons, hd, decide_true, if_true]
      rw [Work.of_flatMap_cons]
    · simp [hd, (hw d List.mem_cons_self).of_ne (Ne.symm hd)]

theorem Named.advance_work (h : q.Named) (s : Session) (now : Nat) (k : Key) :
    (q.advance s now).2.2.of k = ((q.only k).advance (s.only k) now).2.2.of k := by
  unfold DeliveryQueue.advance moves
  simp only [List.flatMap_map]
  exact of_flatMap_filter fun d hd => (h d hd).about_move _ _ now

/-! A queue with the deliveries of one key, given nothing but their acknowledgments, works for
that key alone. -/

theorem Named.applyAcks_about (h : q.Named) (s : Session) {acks : List Packet}
    (hacks : ∀ ack ∈ acks, ack.addressee? = some k) : (q.applyAcks s acks).2.2.About k := by
  induction acks generalizing q s with
  | nil => exact ⟨by simp [DeliveryQueue.applyAcks], by simp [DeliveryQueue.applyAcks]⟩
  | cons ack acks ih =>
    have hrest := ih (h.applyAck s ack) (q.applyAck s ack).2.1 fun a ha =>
      hacks a (List.mem_cons_of_mem _ ha)
    exact (h.applyAck_about s (hacks ack List.mem_cons_self)).append hrest

theorem Named.advance_about (h : q.Named) (s : Session) (now : Nat)
    (hk : ∀ d ∈ q.deliveries, d.key = k) : (q.advance s now).2.2.About k := by
  have hmove : ∀ d ∈ q.deliveries, (d.move q.retryDelay q.maxAttempts now).work.About k :=
    fun d hd => hk d hd ▸ (h d hd).about_move _ _ now
  constructor
  · intro p hp
    simp only [DeliveryQueue.advance, moves, List.flatMap_map, List.mem_flatMap] at hp
    obtain ⟨d, hd, hp⟩ := hp
    exact (hmove d hd).outgoing p hp
  · intro e he
    simp only [DeliveryQueue.advance, moves, List.flatMap_map, List.mem_flatMap] at he
    obtain ⟨d, hd, he⟩ := he
    exact (hmove d hd).events e he

/-- Deliveries do not interfere. Of a pass over any queue, what is under one key afterwards, in the
queue and in the session, is what a pass would leave that had only the deliveries of that key and
the acknowledgments addressed to it. Where deliveries name no other, so are the packets with an
identifier and the events, in their order. An acknowledgment addressed elsewhere, under another
identifier or in the other direction, changes nothing and is not heard of. -/
theorem pass_only (q : DeliveryQueue) (s : Session) (acks : List Packet) (now : Nat) (k : Key) :
    let whole := q.pass s acks now
    let alone :=
      (q.only k).pass (s.only k) (acks.filter fun ack => ack.addressee? = some k) now
    whole.1.only k = alone.1 ∧ whole.2.1.only k = alone.2.1 ∧
      (q.Named → (whole.2.2.of k).events = alone.2.2.events ∧
        (whole.2.2.of k).outgoing = alone.2.2.outgoing.filter fun p => p.origin?.isSome) ∧
      ∀ ack : Packet, ack.addressee? ≠ some k →
        (q.applyAck s ack).1.only k = q.only k ∧ (q.applyAck s ack).2.1.only k = s.only k ∧
          (q.Named → (q.applyAck s ack).2.2.of k = {}) := by
  intro whole alone
  obtain ⟨hq, hs⟩ := applyAcks_only q s acks k
  obtain ⟨hq', hs'⟩ := only_advance (q.applyAcks s acks).1 (q.applyAcks s acks).2.1 now k
  rw [hq, hs] at hq' hs'
  refine ⟨hq', hs', fun h => ?_, fun ack hk => ?_⟩
  · have hsame : whole.2.2.of k = alone.2.2.of k := by
      have hmoved := (h.applyAcks s acks).advance_work (q.applyAcks s acks).2.1 now k
      rw [hq, hs] at hmoved
      simp only [whole, alone, pass, Work.of_append, h.applyAcks_work s acks k, hmoved]
    have habout : alone.2.2.About k := by
      have hmine : ∀ ack ∈ acks.filter (fun ack => ack.addressee? = some k),
          ack.addressee? = some k := fun ack ha => of_decide_eq_true (List.mem_filter.mp ha).2
      have hkeys : ∀ d ∈ ((q.applyAcks s acks).1.only k).deliveries, d.key = k := fun d hd =>
        of_decide_eq_true (List.mem_filter.mp hd).2
      rw [hq] at hkeys
      exact ((h.only k).applyAcks_about (s.only k) hmine).append
        (((h.only k).applyAcks (s.only k) _).advance_about (s.only k) now hkeys)
    rw [hsame, habout.of_self]
    exact ⟨rfl, rfl⟩
  · obtain ⟨hqueue, hsession⟩ := applyAck_other (q := q) s hk
    exact ⟨hqueue, hsession, fun h => h.applyAck_work_other s hk⟩

/-- Two messages share identifier 7: ours goes out once more, while the broker's, alone or not, is
released. -/
theorem pass_only_of_shared_id :
    let m : Publish := ⟨false, 2, false, "a", some 7, []⟩
    let q : DeliveryQueue :=
      { deliveries := [.publish 7 m, (Delivery.received m).sent .awaitPubrel 0]
        index := [⟨7, .incoming⟩, ⟨7, .outgoing⟩]
        capacity := 2, retryDelay := 1, maxAttempts := 3 }
    let after := q.pass { clientId := "c" } [.pubComp 7, .pubRel 7, .pubAck 9] 1
    q.Named ∧ after.1.only ⟨7, .incoming⟩ = { q with deliveries := [], index := [] } ∧
      (after.2.2.of ⟨7, .incoming⟩).outgoing = [.pubComp 7] ∧
      (after.2.2.of ⟨7, .incoming⟩).events = [.received m] := by
  intro m q after
  have hnamed : q.Named := by
    intro d hd
    obtain rfl | rfl : d = .publish 7 m ∨ d = (Delivery.received m).sent .awaitPubrel 0 := by
      simpa [q] using hd
    · exact Delivery.named_publish 7 m
    · exact (Delivery.named_received m).restage rfl rfl
  obtain ⟨hqueue, _, hwork, _⟩ := pass_only q { clientId := "c" }
    [.pubComp 7, .pubRel 7, .pubAck 9] 1 ⟨7, .incoming⟩
  obtain ⟨hevents, houtgoing⟩ := hwork hnamed
  exact ⟨hnamed, hqueue.trans (by decide), houtgoing.trans (by decide), hevents.trans (by decide)⟩

end DeliveryQueue
end Mqtt
