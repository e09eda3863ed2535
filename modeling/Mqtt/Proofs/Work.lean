import Mqtt.Delivery.Move

/-! Whose deliveries the packets and events of some work are about. -/
namespace Mqtt

/-- The delivery for which we send a packet; a message of quality 0 does not say. -/
def Packet.origin? : Packet → Option Key
  | .publish p => p.id.map fun id => ⟨id, .outgoing⟩
  | .pubRel id => some ⟨id, .outgoing⟩
  | .subscribe p => some ⟨p.id, .outgoing⟩
  | .unsubscribe p => some ⟨p.id, .outgoing⟩
  | .pubAck id | .pubRec id | .pubComp id => some ⟨id, .incoming⟩
  | _ => none

/-- The delivery that an event is about. -/
def Event.origin : Event → Key
  | .received p => ⟨p.id.getD 0, .incoming⟩
  | .published id _ | .subscribed id _ | .subscribeFailed id | .unsubscribed id
  | .unsubscribeFailed id => ⟨id, .outgoing⟩

namespace Work

/-- The part of the work that is about one delivery. -/
def of (w : Work) (k : Key) : Work :=
  { outgoing := w.outgoing.filter fun p => p.origin? = some k
    events := w.events.filter fun e => e.origin = k }

@[simp] theorem of_empty (k : Key) : ({} : Work).of k = {} := rfl

@[simp] theorem of_append (v w : Work) (k : Key) :
    (v.append w).of k = (v.of k).append (w.of k) := by
  simp [of, append]

@[simp] theorem empty_append (w : Work) : ({} : Work).append w = w := rfl

@[simp] theorem append_empty (w : Work) : w.append {} = w := by
  simp [append]

theorem append_assoc (u v w : Work) : (u.append v).append w = u.append (v.append w) := by
  simp [append]

theorem of_flatMap_cons {α : Type} (w : α → Work) (a : α) (as : List α) (k : Key) :
    Work.of { outgoing := (a :: as).flatMap fun a => (w a).outgoing
              events := (a :: as).flatMap fun a => (w a).events } k =
      ((w a).of k).append (Work.of { outgoing := as.flatMap fun a => (w a).outgoing
                                     events := as.flatMap fun a => (w a).events } k) := by
  simp [of, append]

/-- The work is about one delivery. -/
structure About (w : Work) (k : Key) : Prop where
  outgoing : ∀ p ∈ w.outgoing, p.origin? = none ∨ p.origin? = some k
  events : ∀ e ∈ w.events, e.origin = k

theorem About.of_ne {w : Work} {k l : Key} (h : w.About k) (hl : l ≠ k) : w.of l = {} := by
  have ho : w.outgoing.filter (fun p => p.origin? = some l) = [] := by
    refine List.filter_eq_nil_iff.mpr fun p hp => ?_
    rcases h.outgoing p hp with hn | hs
    · simp [hn]
    · simp [hs, Ne.symm hl]
  have he : w.events.filter (fun e => e.origin = l) = [] := by
    refine List.filter_eq_nil_iff.mpr fun e he => ?_
    simp [h.events e he, Ne.symm hl]
  rw [of, ho, he]

theorem About.append {v w : Work} {k : Key} (hv : v.About k) (hw : w.About k) :
    (v.append w).About k := by
  constructor
  · intro p hp
    exact (List.mem_append.mp hp).elim (hv.outgoing p) (hw.outgoing p)
  · intro e he
    exact (List.mem_append.mp he).elim (hv.events e) (hw.events e)

/-- Work about one delivery is that delivery's part, but for the packets that say nothing. -/
theorem About.of_self {w : Work} {k : Key} (h : w.About k) :
    w.of k = { w with outgoing := w.outgoing.filter fun p => p.origin?.isSome } := by
  have ho : w.outgoing.filter (fun p => p.origin? = some k) =
      w.outgoing.filter fun p => p.origin?.isSome := by
    refine List.filter_congr fun p hp => ?_
    rcases h.outgoing p hp with hn | hs
    · simp [hn]
    · simp [hs]
  have he : w.events.filter (fun e => e.origin = k) = w.events :=
    List.filter_eq_self.mpr fun e he => by simpa using h.events e he
  rw [of, ho, he]

end Work

end Mqtt
