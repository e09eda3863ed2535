import Mqtt.Proofs.Slot
import Mathlib.Data.List.Induction
import Mathlib.Data.List.TakeWhile

/-!
What a queue and a session go through together: requests, messages from the broker, passes and new
connections in any order, each written down with what came of it.
-/
namespace Mqtt

inductive Request where
  | publish (message : Publish)
  | subscribe (subscriptions : List Subscription)
  | unsubscribe (filters : List String)
  deriving Repr, DecidableEq

namespace Request

def delivery (r : Request) (id : UInt16) : Delivery :=
  match r with
  | .publish message => .publish id message
  | .subscribe subscriptions => .subscribe { id, subscriptions }
  | .unsubscribe filters => .unsubscribe { id, filters }

def isTracked (r : Request) : Bool :=
  match r with
  | .publish message => message.qos != 0
  | _ => false

@[simp] theorem isTracked_delivery (r : Request) (id : UInt16) :
    (r.delivery id).isTracked = r.isTracked := by
  cases r <;> rfl

@[simp] theorem key_delivery (r : Request) (id : UInt16) :
    (r.delivery id).key = ⟨id, .outgoing⟩ := by
  cases r <;> rfl

theorem coherent_delivery (r : Request) {id : UInt16} (hid : id ≠ 0) :
    (r.delivery id).Coherent := by
  cases r with
  | publish message => exact Delivery.coherent_publish hid message
  | subscribe => exact Delivery.coherent_subscribe hid
  | unsubscribe => exact Delivery.coherent_unsubscribe hid

end Request

/-- The queue of the present connection and the session behind it. -/
structure Exchange where
  queue : DeliveryQueue
  session : Session
  deriving Repr, DecidableEq

/-- Something that happened, and what came of it. -/
inductive Entry where
  | issued (request : Request) (id : UInt16)
  | refused (request : Request) (error : ClientError)
  | accepted (message : Publish) (outcome : Acceptance)
  /-- The acknowledgments that found a delivery stand beside it as they found it. -/
  | passed (acks : List Packet) (now : Nat) (answered : List (Packet × Delivery)) (work : Work)
  | reconnected (loaded : Nat)

namespace Entry

def acks : Entry → List Packet
  | .passed acks _ _ _ => acks
  | _ => []

def answered : Entry → List (Packet × Delivery)
  | .passed _ _ answered _ => answered
  | _ => []

def work : Entry → Work
  | .passed _ _ _ work => work
  | _ => {}

def isReconnect : Entry → Bool
  | .reconnected _ => true
  | _ => false

/-- A delivery of our own begins under the identifier. -/
def issues (id : UInt16) : Entry → Bool
  | .issued _ id' => id' == id
  | _ => false

/-- A message of the broker is queued under the identifier. -/
def admits (id : UInt16) : Entry → Bool
  | .accepted message .queued => message.id == some id
  | _ => false

def sent (k : Key) (e : Entry) : List Packet :=
  (e.work.of k).outgoing

def told (k : Key) (e : Entry) : List Event :=
  (e.work.of k).events

def found (k : Key) (e : Entry) : List (Packet × Delivery) :=
  e.answered.filter fun m => m.2.key = k

/-- Only such entries change what is held under the key. -/
def Concerns (k : Key) : Entry → Prop
  | .issued _ id => k = ⟨id, .outgoing⟩
  | .refused _ _ => False
  | .accepted message _ => k = (Delivery.received message).key
  | .passed _ _ _ _ | .reconnected _ => True

theorem work_of_not_concerns {k : Key} {e : Entry} (h : ¬ e.Concerns k) : e.work = {} := by
  cases e with
  | passed => exact absurd trivial h
  | _ => rfl

theorem sent_of_not_concerns {k : Key} {e : Entry} (h : ¬ e.Concerns k) : e.sent k = [] := by
  rw [sent, work_of_not_concerns h]
  rfl

theorem told_of_not_concerns {k : Key} {e : Entry} (h : ¬ e.Concerns k) : e.told k = [] := by
  rw [told, work_of_not_concerns h]
  rfl

theorem found_of_not_concerns {k : Key} {e : Entry} (h : ¬ e.Concerns k) : e.found k = [] := by
  cases e with
  | passed => exact absurd trivial h
  | _ => rfl

end Entry

namespace Exchange

/-- A client with nothing to do. -/
def start (σ : Settings) (s : Session) : Exchange :=
  { queue := .ofSettings σ, session := s.clear }

def slot (x : Exchange) (k : Key) : Slot :=
  .ofKey x.queue x.session k

/-- The things that can happen. A lost connection leaves the session, from which the next one under
the same client identifier is filled. -/
inductive Step (σ : Settings) (x : Exchange) : Entry → Exchange → Prop where
  | issue {r : Request} {id : UInt16} {q : DeliveryQueue} {s : Session}
      (h : x.queue.issue x.session r.delivery = .ok (id, q, s)) :
      Step σ x (.issued r id) { queue := q, session := s }
  | refuse {r : Request} {error : ClientError}
      (h : x.queue.issue x.session r.delivery = .error error) :
      Step σ x (.refused r error) x
  | accept {p : Publish} {outcome : Acceptance} {q : DeliveryQueue} (decoded : p.IsDecoded)
      (h : x.queue.accept p = (outcome, q)) :
      Step σ x (.accepted p outcome) { x with queue := q }
  | pass {acks : List Packet} {now : Nat} {q : DeliveryQueue} {s : Session} {work : Work}
      (h : x.queue.pass x.session acks now = (q, s, work)) :
      Step σ x (.passed acks now (x.queue.answered x.session acks) work)
        { queue := q, session := s }
  | reconnect {loaded : Nat} {q : DeliveryQueue} {s : Session}
      (h : (DeliveryQueue.ofSettings σ).resume x.session x.session.clientId false =
        (loaded, q, s)) :
      Step σ x (.reconnected loaded) { queue := q, session := s }

inductive Run (σ : Settings) (x : Exchange) : List Entry → Exchange → Prop where
  | nil : Run σ x [] x
  | snoc {t : List Entry} {e : Entry} {y z : Exchange} (run : Run σ x t y) (step : Step σ y e z) :
      Run σ x (t ++ [e]) z

variable {σ : Settings} {x y z : Exchange}

theorem Run.append {t u : List Entry} (h : Run σ x t y) (h' : Run σ y u z) :
    Run σ x (t ++ u) z := by
  induction h' with
  | nil => simpa using h
  | snoc _ step ih =>
    rw [← List.append_assoc]
    exact .snoc ih step

theorem Run.cons {e : Entry} {t : List Entry} (step : Step σ x e y) (h : Run σ y t z) :
    Run σ x (e :: t) z :=
  Run.append (.snoc .nil step) h

theorem Run.of_nil (h : Run σ x [] z) : z = x := by
  generalize hu : ([] : List Entry) = u at h
  cases h with
  | nil => rfl
  | snoc => exact absurd hu (by simp)

theorem Run.of_snoc {t : List Entry} {e : Entry} (h : Run σ x (t ++ [e]) z) :
    ∃ y, Run σ x t y ∧ Step σ y e z := by
  generalize hu : t ++ [e] = u at h
  cases h with
  | nil => exact absurd hu (by simp)
  | @snoc t' e' y _ run step =>
    obtain ⟨rfl, he⟩ := List.append_inj' hu rfl
    obtain rfl := List.singleton_inj.mp he
    exact ⟨y, run, step⟩

theorem Run.of_append {t u : List Entry} (h : Run σ x (t ++ u) z) :
    ∃ y, Run σ x t y ∧ Run σ y u z := by
  induction u using List.reverseRecOn generalizing z with
  | nil =>
    rw [List.append_nil] at h
    exact ⟨z, h, .nil⟩
  | append_singleton u e ih =>
    rw [← List.append_assoc] at h
    obtain ⟨w, hw, step⟩ := h.of_snoc
    obtain ⟨y, hy, hu⟩ := ih hw
    exact ⟨y, hy, .snoc hu step⟩

theorem Run.of_cons {e : Entry} {t : List Entry} (h : Run σ x (e :: t) z) :
    ∃ y, Step σ x e y ∧ Run σ y t z := by
  obtain ⟨y, hy, ht⟩ := Run.of_append (t := [e]) h
  obtain ⟨w, hw, step⟩ := Run.of_snoc (t := []) hy
  obtain rfl := hw.of_nil
  exact ⟨y, step, ht⟩

/-- A window of a trace ends with the trace, or an entry stands behind it that closes it. -/
theorem Run.window {t : List Entry} (h : Run σ x t y) (p : Entry → Bool) :
    ∃ z, Run σ x (t.takeWhile p) z ∧
      (t.takeWhile p = t ∧ z = y ∨
        ∃ e rest z', t = t.takeWhile p ++ e :: rest ∧ p e = false ∧ Step σ z e z') := by
  obtain ⟨z, hz, hrest⟩ : ∃ z, Run σ x (t.takeWhile p) z ∧ Run σ z (t.dropWhile p) y := by
    refine Run.of_append ?_
    rwa [List.takeWhile_append_dropWhile]
  refine ⟨z, hz, ?_⟩
  rcases hd : t.dropWhile p with _ | ⟨e, rest⟩
  · rw [hd] at hrest
    exact .inl ⟨List.takeWhile_eq_self_iff.mpr (List.dropWhile_eq_nil_iff.mp hd), hrest.of_nil.symm⟩
  · rw [hd] at hrest
    obtain ⟨z', step, _⟩ := hrest.of_cons
    refine .inr ⟨e, rest, z', ?_, ?_, step⟩
    · rw [← hd, List.takeWhile_append_dropWhile]
    · simpa [hd] using List.head_dropWhile_not p (l := t) (by simp [hd])

end Exchange
end Mqtt
