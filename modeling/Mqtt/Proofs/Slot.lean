import Mqtt.Proofs.DeliveryQueue.Sound

/-!
What a queue and a session hold under one key. A pass treats every key by itself: what becomes of
a slot, and the work about it, depend on nothing else.
-/
namespace Mqtt

structure Slot where
  queued : Option Delivery
  stored : Option Delivery
  deriving Repr, DecidableEq

namespace Slot

def ofKey (q : DeliveryQueue) (s : Session) (k : Key) : Slot :=
  { queued := q.get? k, stored := s.get? k }

/-- The stored copy after a record about the slot's own delivery. -/
def record (stored : Option Delivery) : Record → Option Delivery
  | .keep => stored
  | .put d => some d
  | .erase _ => none

/-- The slot's delivery, if the acknowledgment answers it. -/
def match? (k : Key) (x : Slot) (ack : Packet) : Option Delivery :=
  ack.answers.bind fun (key, stages) =>
    if key = k then x.queued.filter fun d => d.stage ∈ stages else none

def answer (maxAttempts : Nat) (k : Key) (x : Slot) (ack : Packet) : Slot × Work :=
  match x.match? k ack with
  | none => (x, (DeliveryQueue.unmatched ack).of k)
  | some d =>
    if ack.type = .pubRec then
      ({ x with queued := some (DeliveryQueue.release maxAttempts d) }, {})
    else ({ queued := none, stored := none }, (DeliveryQueue.completion ack d).of k)

def answers (maxAttempts : Nat) (k : Key) (x : Slot) : List Packet → Slot × Work
  | [] => (x, {})
  | ack :: acks =>
    let (x, first) := x.answer maxAttempts k ack
    let (x, rest) := x.answers maxAttempts k acks
    (x, first.append rest)

/-- The acknowledgments that answer the slot's delivery, each with the delivery as it is found. -/
def answered (maxAttempts : Nat) (k : Key) (x : Slot) : List Packet → List (Packet × Delivery)
  | [] => []
  | ack :: acks =>
    ((x.match? k ack).map fun d => (ack, d)).toList ++
      (x.answer maxAttempts k ack).1.answered maxAttempts k acks

def advance (delay maxAttempts : Nat) (k : Key) (x : Slot) (now : Nat) : Slot × Work :=
  match x.queued with
  | none => (x, {})
  | some d =>
    let m := d.move delay maxAttempts now
    ({ queued := m.next, stored := record x.stored m.record }, m.work.of k)

def pass (σ : Settings) (k : Key) (x : Slot) (acks : List Packet) (now : Nat) : Slot × Work :=
  let (x, answered) := x.answers σ.maxAttempts k acks
  let (x, moved) := x.advance σ.retryDelay σ.maxAttempts k now
  (x, answered.append moved)

end Slot

namespace DeliveryQueue

variable {σ : Settings} {q : DeliveryQueue}

def match? (q : DeliveryQueue) (ack : Packet) : Option Delivery :=
  ack.answers.bind fun (key, stages) => (q.get? key).filter fun d => d.stage ∈ stages

def answered (q : DeliveryQueue) (s : Session) : List Packet → List (Packet × Delivery)
  | [] => []
  | ack :: acks =>
    ((q.match? ack).map fun d => (ack, d)).toList ++
      (q.applyAck s ack).1.answered (q.applyAck s ack).2.1 acks

theorem match?_eq_some_iff {ack : Packet} {d : Delivery} :
    q.match? ack = some d ↔
      ∃ key stages, ack.answers = some (key, stages) ∧ q.get? key = some d ∧ d.stage ∈ stages := by
  simp [match?, Option.bind_eq_some_iff, Option.filter_eq_some_iff]

theorem Keyed.applyAck_eq (h : q.Keyed) (s : Session) (ack : Packet) :
    q.applyAck s ack =
      match q.match? ack with
      | none => (q, s, unmatched ack)
      | some d =>
        if ack.type = .pubRec then
          ({ q with deliveries := DeliveryQueue.modify d.key (release q.maxAttempts) q.deliveries },
            s, {})
        else (q.remove d.key, s.erase d.key, completion ack d) := by
  unfold DeliveryQueue.applyAck match?
  rcases ha : ack.answers with _ | ⟨key, stages⟩
  · cases ack <;> first | rfl | cases ha
  rcases hd : q.get? key with _ | d
  · simp [hd]
  have hkey := h.key_of_get? hd
  by_cases hs : d.stage ∈ stages
  · simp [hd, hs, hkey, Option.filter]
  · simp [hd, hs, Option.filter]

theorem Named.about_completion (hn : q.Named) (h : q.Keyed) {ack : Packet} {d : Delivery}
    (hd : q.match? ack = some d) : (completion ack d).About d.key := by
  obtain ⟨key, stages, ha, hget, _⟩ := match?_eq_some_iff.mp hd
  obtain ⟨_, hm, rfl⟩ := h.get?_eq_some_iff.mp hget
  exact DeliveryQueue.about_completion (hn d hm) ha

/-- A slot knows the acknowledgments for its own delivery. -/
theorem Keyed.slot_match? (h : q.Keyed) (s : Session) (ack : Packet) (k : Key) :
    (Slot.ofKey q s k).match? k ack = (q.match? ack).filter fun d => d.key = k := by
  unfold Slot.match? match? Slot.ofKey
  rcases ack.answers with _ | ⟨key, stages⟩
  · rfl
  by_cases hne : key = k
  · subst hne
    rcases hd : q.get? key with _ | d
    · simp [hd]
    have hkey := h.key_of_get? hd
    by_cases hs : d.stage ∈ stages <;> simp [hd, hs, hkey, Option.filter]
  · rcases hd : q.get? key with _ | d
    · simp [hne, hd]
    have hkey := h.key_of_get? hd
    by_cases hs : d.stage ∈ stages <;> simp [hne, hd, hs, hkey, Option.filter]

/-- An acknowledgment acts on each slot alone. -/
theorem Tidy.slot_applyAck (h : q.Tidy σ) (hn : q.Named) (s : Session) (ack : Packet) {k : Key}
    (hk : k.id ≠ 0) :
    Slot.ofKey (q.applyAck s ack).1 (q.applyAck s ack).2.1 k =
        ((Slot.ofKey q s k).answer σ.maxAttempts k ack).1 ∧
      (q.applyAck s ack).2.2.of k = ((Slot.ofKey q s k).answer σ.maxAttempts k ack).2 := by
  unfold Slot.answer
  rw [h.keyed.slot_match? s ack k, h.keyed.applyAck_eq s ack]
  rcases hm : q.match? ack with _ | d
  · exact ⟨rfl, rfl⟩
  obtain ⟨key, stages, ha, hget, _⟩ := match?_eq_some_iff.mp hm
  have hkey := h.keyed.key_of_get? hget
  have hrelease : ∀ e : Delivery, e.key = d.key → (release q.maxAttempts e).key = d.key :=
    fun e he => by simpa using he
  by_cases hdk : d.key = k
  · subst hdk
    simp only [Option.filter, decide_true, if_true]
    split
    next =>
      refine ⟨?_, rfl⟩
      unfold Slot.ofKey
      rw [h.keyed.get?_modify hrelease hk, hkey, hget, h.maxAttempts]
      simp
    next =>
      unfold Slot.ofKey
      rw [h.keyed.get?_remove hk, Session.get?_erase, if_pos rfl, if_pos rfl]
      exact ⟨rfl, rfl⟩
  · have hne : k ≠ d.key := Ne.symm hdk
    have hstray : (unmatched ack).of k = {} := (about_unmatched ha).of_ne (hkey ▸ hne)
    simp only [Option.filter, hdk, decide_false, Bool.false_eq_true, if_false, hstray]
    split
    next =>
      refine ⟨?_, rfl⟩
      unfold Slot.ofKey
      rw [h.keyed.get?_modify hrelease hk, if_neg hne]
    next =>
      refine ⟨?_, (hn.about_completion h.keyed hm).of_ne hne⟩
      unfold Slot.ofKey
      rw [h.keyed.get?_remove (hkey ▸ (h.keyed.get?_eq_some_iff.mp hget).1), Session.get?_erase,
        if_neg hne, if_neg hne]

theorem Tidy.slot_applyAcks (h : q.Tidy σ) (hn : q.Named) (s : Session) (acks : List Packet)
    {k : Key} (hk : k.id ≠ 0) :
    Slot.ofKey (q.applyAcks s acks).1 (q.applyAcks s acks).2.1 k =
        ((Slot.ofKey q s k).answers σ.maxAttempts k acks).1 ∧
      (q.applyAcks s acks).2.2.of k = ((Slot.ofKey q s k).answers σ.maxAttempts k acks).2 := by
  induction acks generalizing q s with
  | nil => exact ⟨rfl, rfl⟩
  | cons ack acks ih =>
    obtain ⟨hslot, hwork⟩ := h.slot_applyAck hn s ack hk
    obtain ⟨hslot', hwork'⟩ := ih (h.applyAck s ack) (hn.applyAck s ack) (q.applyAck s ack).2.1
    rw [hslot] at hslot' hwork'
    refine ⟨hslot', ?_⟩
    simp only [DeliveryQueue.applyAcks, Slot.answers, Work.of_append, hwork, hwork']

theorem Tidy.slot_answered (h : q.Tidy σ) (hn : q.Named) (s : Session) (acks : List Packet)
    {k : Key} (hk : k.id ≠ 0) :
    ((q.answered s acks).filter fun m => m.2.key = k) =
      (Slot.ofKey q s k).answered σ.maxAttempts k acks := by
  induction acks generalizing q s with
  | nil => rfl
  | cons ack acks ih =>
    obtain ⟨hslot, _⟩ := h.slot_applyAck hn s ack hk
    have ih := ih (h.applyAck s ack) (hn.applyAck s ack) (q.applyAck s ack).2.1
    rw [hslot] at ih
    have hfirst : (((q.match? ack).map fun d => (ack, d)).toList.filter fun m => m.2.key = k) =
        (((Slot.ofKey q s k).match? k ack).map fun d => (ack, d)).toList := by
      rw [h.keyed.slot_match? s ack k]
      rcases q.match? ack with _ | d
      · rfl
      · by_cases hdk : d.key = k <;> simp [hdk, Option.filter]
    simp only [answered, Slot.answered, List.filter_append, ih, hfirst]

/-- A list of deliveries that work on their own: under one key only its delivery's work is left. -/
theorem of_flatMap {ds : List Delivery} {w : Delivery → Work} {k : Key}
    (hd : Delivery.Distinct ds) (hk : k.id ≠ 0) (hw : ∀ d ∈ ds, (w d).About d.key) :
    Work.of { outgoing := ds.flatMap fun d => (w d).outgoing
              events := ds.flatMap fun d => (w d).events } k =
      (ds.find? fun d => d.key = k).elim {} fun d => (w d).of k := by
  induction ds with
  | nil => rfl
  | cons d ds ih =>
    obtain ⟨hhead, hds⟩ := List.pairwise_cons.mp hd
    have ih := ih hds fun e he => hw e (List.mem_cons_of_mem _ he)
    rw [Work.of_flatMap_cons, ih]
    by_cases hdk : d.key = k
    · have hrest : (ds.find? fun e => e.key = k) = none := by
        refine Delivery.find?_eq_none_iff.mpr fun e he hek => hk ?_
        rw [← hdk]
        exact hhead e he (hdk.trans hek.symm)
      simp [hrest, hdk]
    · simp [hdk, (hw d List.mem_cons_self).of_ne (Ne.symm hdk)]

theorem get?_record (s : Session) (r : Record) (k : Key) :
    (s.record r).get? k =
      if r.key? = some k then Slot.record (s.get? k) r else s.get? k := by
  cases r with
  | keep => rfl
  | put d => simp [Session.record, Session.get?_put, Slot.record, Record.key?, eq_comm]
  | erase key => simp [Session.record, Session.get?_erase, Slot.record, Record.key?, eq_comm]

theorem get?_foldl_record {ds : List Delivery} {r : Delivery → Record} {k : Key} (s : Session)
    (hd : Delivery.Distinct ds) (hk : k.id ≠ 0)
    (hr : ∀ d ∈ ds, (r d).key? = none ∨ (r d).key? = some d.key) :
    (ds.foldl (fun s d => s.record (r d)) s).get? k =
      (ds.find? fun d => d.key = k).elim (s.get? k) fun d => Slot.record (s.get? k) (r d) := by
  induction ds generalizing s with
  | nil => rfl
  | cons d ds ih =>
    obtain ⟨hhead, hds⟩ := List.pairwise_cons.mp hd
    rw [List.foldl_cons, ih (s.record (r d)) hds fun e he => hr e (List.mem_cons_of_mem _ he),
      get?_record]
    by_cases hdk : d.key = k
    · have hrest : (ds.find? fun e => e.key = k) = none := by
        refine Delivery.find?_eq_none_iff.mpr fun e he hek => hk ?_
        rw [← hdk]
        exact hhead e he (hdk.trans hek.symm)
      rcases hr d List.mem_cons_self with hnone | hsome
      · have hkeep := Record.key?_eq_none_iff.mp hnone
        simp [hrest, hdk, hkeep, Record.key?, Slot.record]
      · simp [hrest, hdk, hsome]
    · have hother : (r d).key? ≠ some k := by
        rcases hr d List.mem_cons_self with hnone | hsome
        · simp [hnone]
        · simpa [hsome] using hdk
      simp [hdk, hother]

/-- Moving all deliveries moves each slot alone. -/
theorem Tidy.slot_advance (h : q.Tidy σ) (hn : q.Named) (s : Session) (now : Nat) {k : Key}
    (hk : k.id ≠ 0) :
    Slot.ofKey (q.advance s now).1 (q.advance s now).2.1 k =
        ((Slot.ofKey q s k).advance σ.retryDelay σ.maxAttempts k now).1 ∧
      (q.advance s now).2.2.of k =
        ((Slot.ofKey q s k).advance σ.retryDelay σ.maxAttempts k now).2 := by
  have hqueued : (q.advance s now).1.get? k =
      (q.get? k).bind fun d => (d.move q.retryDelay q.maxAttempts now).next := by
    rw [(h.keyed.advance s now).get?_eq_find? hk, advance_deliveries,
      h.keyed.distinct.find?_filterMap hk (key_move q now), h.keyed.get?_eq_find? hk]
  have hstored : (q.advance s now).2.1.get? k = (q.get? k).elim (s.get? k) fun d =>
      Slot.record (s.get? k) (d.move q.retryDelay q.maxAttempts now).record := by
    simp only [DeliveryQueue.advance, moves, List.foldl_map]
    rw [h.keyed.get?_eq_find? hk]
    exact get?_foldl_record s h.keyed.distinct hk fun d _ => (Delivery.within_move d _ _ now).record
  have hwork : (q.advance s now).2.2.of k = (q.get? k).elim {} fun d =>
      (d.move q.retryDelay q.maxAttempts now).work.of k := by
    simp only [DeliveryQueue.advance, moves, List.flatMap_map]
    rw [h.keyed.get?_eq_find? hk]
    exact of_flatMap h.keyed.distinct hk fun d hd => (hn d hd).about_move _ _ now
  unfold Slot.advance Slot.ofKey
  rw [hqueued, hstored, hwork, h.retryDelay, h.maxAttempts]
  rcases q.get? k with _ | d
  · exact ⟨rfl, rfl⟩
  · exact ⟨rfl, rfl⟩

theorem Tidy.slot_pass (h : q.Tidy σ) (hn : q.Named) (s : Session) (acks : List Packet) (now : Nat)
    {k : Key} (hk : k.id ≠ 0) :
    Slot.ofKey (q.pass s acks now).1 (q.pass s acks now).2.1 k =
        ((Slot.ofKey q s k).pass σ k acks now).1 ∧
      (q.pass s acks now).2.2.of k = ((Slot.ofKey q s k).pass σ k acks now).2 := by
  obtain ⟨hslot, hwork⟩ := h.slot_applyAcks hn s acks hk
  obtain ⟨hslot', hwork'⟩ :=
    (h.applyAcks s acks).slot_advance (hn.applyAcks s acks) (q.applyAcks s acks).2.1 now hk
  rw [hslot] at hslot' hwork'
  refine ⟨hslot', ?_⟩
  simp only [DeliveryQueue.pass, Slot.pass, Work.of_append, hwork, hwork']

theorem Sound.slot_pass (h : q.Sound σ) (s : Session) (acks : List Packet) (now : Nat) {k : Key}
    (hk : k.id ≠ 0) :
    Slot.ofKey (q.pass s acks now).1 (q.pass s acks now).2.1 k =
        ((Slot.ofKey q s k).pass σ k acks now).1 ∧
      (q.pass s acks now).2.2.of k = ((Slot.ofKey q s k).pass σ k acks now).2 :=
  h.tidy.slot_pass h.named s acks now hk

end DeliveryQueue
end Mqtt
