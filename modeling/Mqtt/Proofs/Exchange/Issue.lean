import Mqtt.Proofs.Exchange.Reachable
import Mqtt.Proofs.Session.Allocation

/-!
A request is taken up as a whole or leaves no trace. Its steps change the session before the queue,
but no step behind the first change can fail.
-/
namespace Mqtt

theorem Session.put_of_new {s : Session} {d : Delivery} (h : s.get? d.key = none) :
    s.put d = { s with deliveries := s.deliveries ++ [d] } := by
  rw [Session.put, (Session.contains_eq_false_iff s d.key).mpr h]
  rfl

theorem Request.isTracked_iff (r : Request) :
    r.isTracked = true ↔ ∃ message, r = .publish message ∧ message.qos ≠ 0 := by
  cases r <;> simp [Request.isTracked]

namespace DeliveryQueue

/-- A delivery of our own is begun step by step. What a step has done stays done when a later one
fails. -/
def issueInPlace (q : DeliveryQueue) (s : Session) (build : UInt16 → Delivery) :
    Except ClientError UInt16 × DeliveryQueue × Session :=
  if q.isFull then (.error (.queueFull "inflight" q.capacity), q, s)
  else
    match s.nextId fun id => q.contains ⟨id, .outgoing⟩ with
    | none => (.error .identifiersExhausted, q, s)
    | some (id, s) =>
      let d := build id
      let s := if d.isTracked then s.put d else s
      match q.push d with
      | .error e => (.error e, q, s)
      | .ok q => (.ok id, q, s)

/-- No delivery of our own has the identifier, neither in the queue nor in the session. -/
def Unused (q : DeliveryQueue) (s : Session) (id : UInt16) : Prop :=
  (∀ d ∈ q.deliveries, d.key ≠ ⟨id, .outgoing⟩) ∧ ∀ d ∈ s.deliveries, d.key ≠ ⟨id, .outgoing⟩

variable {σ : Settings} {q : DeliveryQueue} {s : Session} {id : UInt16}

theorem Keyed.unused_iff (h : q.Keyed) (hid : id ≠ 0) :
    q.Unused s id ↔ s.Free (fun id => q.contains ⟨id, .outgoing⟩) id := by
  have hkey : ∀ d : Delivery,
      d.key ≠ ⟨id, .outgoing⟩ ↔ d.direction = .outgoing → d.id ≠ id := by
    intro d
    simp [Delivery.key, imp_not_comm]
  have hqueue : q.contains ⟨id, .outgoing⟩ = false ↔
      ∀ d ∈ q.deliveries, d.key ≠ ⟨id, .outgoing⟩ := by
    rw [h.contains_eq_false_iff, h.get?_eq_none_iff hid]
  rw [Unused, Session.Free, hqueue, and_comm]
  simp only [hkey]

/-- The room that was found at first is still there in the end, so a request comes to nothing only
before anything is changed. -/
theorem issueInPlace_eq (q : DeliveryQueue) (s : Session) (build : UInt16 → Delivery) :
    q.issueInPlace s build =
      match q.issue s build with
      | .ok (id, q', s') => (.ok id, q', s')
      | .error e => (.error e, q, s) := by
  unfold issueInPlace issue
  cases hfull : q.isFull with
  | true => rfl
  | false =>
    cases s.nextId fun id => q.contains ⟨id, .outgoing⟩ with
    | none => rfl
    | some found =>
      obtain ⟨id, t⟩ := found
      simp only [push_eq_ok fun _ => hfull]
      rfl

/-- Everything that can come of a request. -/
inductive Issued (q : DeliveryQueue) (s : Session) (build : UInt16 → Delivery) :
    Except ClientError UInt16 × DeliveryQueue × Session → Prop where
  | full (h : q.isFull = true) :
      Issued q s build (.error (.queueFull "inflight" q.capacity), q, s)
  | exhausted (room : q.isFull = false) (h : ∀ id, id ≠ 0 → ¬ q.Unused s id) :
      Issued q s build (.error .identifiersExhausted, q, s)
  | done (room : q.isFull = false) {id : UInt16} (numbered : id ≠ 0) (unused : q.Unused s id) :
      Issued q s build
        (.ok id,
          { q with
            deliveries := q.deliveries ++ [build id]
            index := ⟨id, .outgoing⟩ :: q.index },
          { s with
            lastId := id
            deliveries := s.deliveries ++ if (build id).isTracked then [build id] else [] })

theorem Keyed.issued (h : q.Keyed) {build : UInt16 → Delivery}
    (hkey : ∀ id, (build id).key = ⟨id, .outgoing⟩) :
    q.Issued s build (q.issueInPlace s build) := by
  cases hfull : q.isFull with
  | true =>
    rw [issueInPlace, hfull]
    exact .full hfull
  | false =>
    cases hnext : s.nextId fun id => q.contains ⟨id, .outgoing⟩ with
    | none =>
      rw [issueInPlace, hfull, hnext]
      exact .exhausted hfull fun id hid =>
        (h.unused_iff hid).not.mpr (Session.nextId_eq_none_iff.mp hnext id hid)
    | some found =>
      obtain ⟨id, t⟩ := found
      obtain ⟨hid, hstored, hqueued, rfl⟩ := Session.nextId_spec hnext
      obtain ⟨_, _, _, _, hfree, _⟩ := Session.nextId_eq_some_iff.mp hnext
      have hdone : q.Issued s build _ := .done hfull hid ((h.unused_iff hid).mpr hfree)
      have hnote : q.note ⟨id, .outgoing⟩ = ⟨id, .outgoing⟩ :: q.index := by
        rw [note, if_neg (by simp [hid, hqueued])]
      have hput : (if (build id).isTracked then Session.put { s with lastId := id } (build id)
          else { s with lastId := id }) =
          { s with
            lastId := id
            deliveries := s.deliveries ++ if (build id).isTracked then [build id] else [] } := by
        split
        next =>
          have hnew : Session.get? { s with lastId := id } (build id).key = none := by
            rw [hkey]
            exact hstored
          exact Session.put_of_new hnew
        next => rw [List.append_nil]
      have hqueue : q.enqueue (build id) =
          { q with
            deliveries := q.deliveries ++ [build id]
            index := ⟨id, .outgoing⟩ :: q.index } := by
        rw [DeliveryQueue.enqueue, hkey, hnote]
      rw [issueInPlace, if_neg (by simp [hfull]), hnext]
      simp only [push_eq_ok fun _ => hfull, hput, hqueue]
      exact hdone

end DeliveryQueue

namespace Exchange

open DeliveryQueue

variable {σ : Settings} {x : Exchange}

/-- Whatever session a queue is given, a request is taken up under an identifier that no delivery
of our own has on either side. It adds one delivery behind the others, which the session stores
behind its own if it is a message above quality 0. Otherwise nothing at all has changed, not even
where the steps are made one by one: the queue is full, which it is exactly if our own deliveries
have reached its capacity, or there is room and no identifier is left. -/
theorem issue_atomic (h : Reachable σ x) (s : Session) (r : Request) :
    let result := x.queue.issueInPlace s r.delivery
    let ours := x.queue.deliveries.countP fun d => d.direction = .outgoing
    result =
      (match x.queue.issue s r.delivery with
        | .ok (id, q, t) => (.ok id, q, t)
        | .error e => (.error e, x.queue, s)) ∧
    (∀ id q t, result = (.ok id, q, t) →
      id ≠ 0 ∧ x.queue.Unused s id ∧ (r.delivery id).key = ⟨id, .outgoing⟩ ∧
        q = { x.queue with
          deliveries := x.queue.deliveries ++ [r.delivery id]
          index := ⟨id, .outgoing⟩ :: x.queue.index } ∧
        t = { s with
          lastId := id
          deliveries := s.deliveries ++ if r.isTracked then [r.delivery id] else [] }) ∧
    (r.isTracked = true ↔ ∃ message, r = .publish message ∧ message.qos ≠ 0) ∧
    (∀ e q t, result = (.error e, q, t) →
      q = x.queue ∧ t = s ∧
        (e = .queueFull "inflight" σ.capacity ∨ e = .identifiersExhausted)) ∧
    ((∃ name capacity, result.1 = .error (.queueFull name capacity)) ↔ ours = σ.capacity) ∧
    ((∃ id, result.1 = .ok id) ↔ ours < σ.capacity ∧ ∃ id, id ≠ 0 ∧ x.queue.Unused s id) := by
  intro result ours
  have hq := h.sound.1
  have hissued : x.queue.Issued s r.delivery result := hq.keyed.issued r.key_delivery
  have hfits : ours ≤ σ.capacity := hq.capacity ▸ hq.fits
  have hfull : x.queue.isFull = true ↔ ours = σ.capacity := by
    rw [isFull, decide_eq_true_iff, hq.capacity]
    exact ⟨fun hover => Nat.le_antisymm hfits hover, fun heq => heq.ge⟩
  have hroom : x.queue.isFull = false ↔ ours < σ.capacity := by
    rw [← Bool.not_eq_true, hfull]
    exact ⟨fun hne => Nat.lt_of_le_of_ne hfits hne, fun hlt => hlt.ne⟩
  refine ⟨issueInPlace_eq x.queue s r.delivery, ?_, Request.isTracked_iff r, ?_, ?_, ?_⟩
  · intro id q t hok
    rw [hok] at hissued
    cases hissued with
    | done _ hid hunused =>
      rw [r.isTracked_delivery]
      exact ⟨hid, hunused, r.key_delivery id, rfl, rfl⟩
  · intro e q t herror
    rw [herror] at hissued
    cases hissued with
    | full => exact ⟨rfl, rfl, .inl (hq.capacity ▸ rfl)⟩
    | exhausted => exact ⟨rfl, rfl, .inr rfl⟩
  · rw [← hfull]
    generalize result = outcome at hissued
    cases hissued with
    | full hf => simp [hf]
    | exhausted hf => simp [hf]
    | done hf => simp [hf]
  · rw [← hroom]
    generalize result = outcome at hissued
    cases hissued with
    | full hf => simp [hf]
    | exhausted hf hnone => simpa [hf] using hnone
    | done hf hid hunused => simpa [hf] using ⟨_, hid, hunused⟩

/-- The first identifier behind 65535 is in use in the queue, and the second in the session. -/
theorem issue_atomic_of_leftover :
    let s : Session :=
      { clientId := "c", lastId := 65535
        deliveries := [.publish 2 ⟨false, 1, false, "a", none, []⟩] }
    ∃ x q t, Reachable {} x ∧
      x.queue.issueInPlace s (Request.unsubscribe ["a"]).delivery = (.ok 3, q, t) ∧
      x.queue.Unused s 3 ∧
      q.deliveries = x.queue.deliveries ++ [.unsubscribe { id := 3, filters := ["a"] }] ∧
      t = { s with lastId := 3 } := by
  intro s
  have hreach : Reachable {} _ := .step (.start {} { clientId := "c" })
    (@Step.issue _ _ (.subscribe [⟨"a", 0⟩]) _ _ _ rfl)
  obtain ⟨_, hdone, _⟩ := issue_atomic hreach s (.unsubscribe ["a"])
  obtain ⟨_, hunused, _, hq, ht⟩ := hdone 3 _ _ rfl
  exact ⟨_, _, _, hreach, rfl, hunused, congrArg DeliveryQueue.deliveries hq, ht⟩

end Exchange
end Mqtt
