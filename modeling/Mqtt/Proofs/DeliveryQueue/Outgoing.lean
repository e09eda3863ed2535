import Mqtt.Proofs.DeliveryQueue.Sound

/-!
What a pass sends. Its acknowledgments are answered by PUBCOMPs alone, one for each PUBREL whatever
is held, and none of its moves sends one.
-/
namespace Mqtt

/-- What a PUBREL is answered with; nothing else is answered. -/
def Packet.confirmation? : Packet → Option Packet
  | .pubRel id => some (.pubComp id)
  | _ => none

def PacketType.isMove : PacketType → Bool
  | .publish | .subscribe | .unsubscribe | .pubAck | .pubRec | .pubRel => true
  | _ => false

namespace Delivery

variable {d : Delivery}

theorem Fits.isMove_packet (h : d.Fits) : d.packet.type.isMove = true := by
  cases hd : d.direction with
  | outgoing =>
    obtain ⟨p, hp, _⟩ | ⟨p, hp, _⟩ | ⟨p, hp, _⟩ := h.outgoing_cases hd
    all_goals
      rw [hp]
      rfl
  | incoming =>
    obtain ⟨p, hp, _⟩ := h.incoming_cases hd
    rw [hp]
    rfl

theorem Fits.isMove_of_mem {maxAttempts now : Nat} {m : Move} {p : Packet} (h : d.Fits)
    (hm : d.Moves maxAttempts now m) (hp : p ∈ m.work.outgoing) : p.type.isMove = true := by
  cases hm with
  | send =>
    obtain rfl := List.mem_singleton.mp hp
    unfold wire
    split
    next => rfl
    next => exact h.isMove_packet
  | sendAgain =>
    obtain rfl := List.mem_singleton.mp hp
    unfold repeated
    split
    next => rfl
    next => exact (h.withDup true).isMove_packet
  | fire =>
    obtain rfl := List.mem_singleton.mp hp
    exact h.isMove_packet
  | answer | confirm =>
    obtain rfl := List.mem_singleton.mp hp
    rfl
  | wait | giveUp | hand => cases hp

end Delivery

namespace DeliveryQueue

variable {σ : Settings} {q : DeliveryQueue} {p : Packet}

theorem unmatched_eq (ack : Packet) : unmatched ack = { outgoing := ack.confirmation?.toList } := by
  cases ack <;> rfl

theorem outgoing_completion (ack : Packet) (d : Delivery) :
    (completion ack d).outgoing = ack.confirmation?.toList := by
  cases ack <;> rfl

theorem confirmation?_of_answers_eq_none {ack : Packet} (h : ack.answers = none) :
    ack.confirmation? = none := by
  cases ack <;> first | rfl | cases h

theorem confirmation?_of_pubRec {ack : Packet} (h : ack.type = .pubRec) :
    ack.confirmation? = none := by
  cases ack <;> first | rfl | cases h

/-- Whatever the queue holds, the answer to one acknowledgment is the same. -/
theorem outgoing_applyAck (q : DeliveryQueue) (s : Session) (ack : Packet) :
    (q.applyAck s ack).2.2.outgoing = ack.confirmation?.toList := by
  unfold applyAck
  split
  next hanswers =>
    rw [confirmation?_of_answers_eq_none hanswers]
    rfl
  next key stages _ =>
    split
    next => rw [unmatched_eq]
    next d _ =>
      split
      next => rw [unmatched_eq]
      next =>
        split
        next hrec =>
          rw [confirmation?_of_pubRec hrec]
          rfl
        next => exact outgoing_completion ack d

theorem outgoing_applyAcks (q : DeliveryQueue) (s : Session) (acks : List Packet) :
    (q.applyAcks s acks).2.2.outgoing = acks.filterMap Packet.confirmation? := by
  induction acks generalizing q s with
  | nil => rfl
  | cons ack acks ih =>
    have hrest := ih (q.applyAck s ack).1 (q.applyAck s ack).2.1
    simp only [applyAcks, Work.append, outgoing_applyAck, hrest, List.filterMap_cons]
    cases ack.confirmation? <;> rfl

theorem exists_pubComp_of_mem_applyAcks {s : Session} {acks : List Packet}
    (hp : p ∈ (q.applyAcks s acks).2.2.outgoing) : ∃ id, p = .pubComp id := by
  rw [outgoing_applyAcks] at hp
  obtain ⟨ack, _, hack⟩ := List.mem_filterMap.mp hp
  cases ack with
  | pubRel id => exact ⟨id, (Option.some.inj hack).symm⟩
  | _ => cases hack

theorem count_confirmation? (acks : List Packet) (id : UInt16) :
    (acks.filterMap Packet.confirmation?).count (.pubComp id) = acks.count (.pubRel id) := by
  rw [List.count_filterMap, List.count]
  refine List.countP_congr fun ack _ => ?_
  cases ack <;> simp [Packet.confirmation?]

theorem Sound.isMove_of_mem_advance (h : q.Sound σ) (s : Session) (now : Nat)
    (hp : p ∈ (q.advance s now).2.2.outgoing) : p.type.isMove = true := by
  simp only [advance, moves, List.flatMap_map, List.mem_flatMap] at hp
  obtain ⟨d, hd, hp⟩ := hp
  have hfits := (h.coherent d hd).fits
  exact hfits.isMove_of_mem (hfits.moves _ _ now) hp

end DeliveryQueue
end Mqtt
