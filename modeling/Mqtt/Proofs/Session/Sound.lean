import Mqtt.Proofs.DeliveryQueue.Sound

/-! What every operation on a session preserves. -/
namespace Mqtt

namespace Delivery

/-- A move stores nothing without an identifier. -/
theorem Coherent.id_ne_zero_of_put {d e : Delivery} {maxAttempts now : Nat} {m : Move}
    (h : d.Coherent) (hm : d.Moves maxAttempts now m) (he : m.record = .put e) : e.id ≠ 0 := by
  have hid : e.id = d.id := congrArg Key.id (hm.key_next (hm.next_of_put he))
  intro hz
  obtain ⟨hd, hq⟩ := h.numbered.mp (hid ▸ hz)
  cases hm with
  | send hout | sendAgain hout =>
    rw [hd] at hout
    cases hout
  | confirm _ hs =>
    obtain ⟨p, hp, ⟨_, hs'⟩ | ⟨_, hs'⟩ | ⟨hq', _⟩⟩ := h.incoming_cases hd
    · simp [hs] at hs'
    · simp [hs] at hs'
    · simp [qos, message?, hp, hq'] at hq
  | _ => cases he

end Delivery

namespace Session

/-- One coherent delivery under a key, and each with an identifier. -/
structure Sound (s : Session) : Prop where
  keyed : s.Keyed
  coherent : ∀ d ∈ s.deliveries, d.Coherent
  numbered : ∀ d ∈ s.deliveries, d.id ≠ 0

theorem sound_clear (s : Session) : s.clear.Sound :=
  ⟨List.nodup_nil, by simp [clear], by simp [clear]⟩

theorem mem_put {s : Session} {d e : Delivery} (h : e ∈ (s.put d).deliveries) :
    e ∈ s.deliveries ∨ e = d := by
  unfold put at h
  split at h
  next =>
    obtain ⟨f, hf, rfl⟩ := List.mem_map.mp h
    split
    next => exact .inr rfl
    next => exact .inl hf
  next => simpa using h

theorem forall_record {s : Session} {P : Delivery → Prop} (h : ∀ e ∈ s.deliveries, P e)
    {r : Record} (hr : ∀ d, r = .put d → P d) : ∀ e ∈ (s.record r).deliveries, P e := by
  cases r with
  | keep => exact h
  | put d =>
    intro e he
    rcases mem_put he with he | rfl
    · exact h e he
    · exact hr e rfl
  | erase key => exact fun e he => h e (List.mem_of_mem_filter he)

theorem Sound.record {s : Session} (h : s.Sound) {r : Record}
    (hr : ∀ d, r = .put d → d.Coherent ∧ d.id ≠ 0) : (s.record r).Sound :=
  ⟨h.keyed.record r, forall_record h.coherent fun d hd => (hr d hd).1,
    forall_record h.numbered fun d hd => (hr d hd).2⟩

theorem Sound.put {s : Session} (h : s.Sound) {d : Delivery} (hc : d.Coherent) (hid : d.id ≠ 0) :
    (s.put d).Sound := by
  refine h.record (r := .put d) fun e he => ?_
  cases he
  exact ⟨hc, hid⟩

theorem Sound.erase {s : Session} (h : s.Sound) (key : Key) : (s.erase key).Sound :=
  h.record (r := .erase key) fun _ he => by cases he

theorem Sound.map_rewound {s : Session} (h : s.Sound) :
    Sound { s with deliveries := s.deliveries.map Delivery.rewound } := by
  refine ⟨h.keyed.map_rewound, fun e he => ?_, fun e he => ?_⟩ <;>
    obtain ⟨d, hd, rfl⟩ := List.mem_map.mp he
  · exact (h.coherent d hd).rewound
  · simpa using h.numbered d hd

end Session

namespace DeliveryQueue

variable {σ : Settings} {q : DeliveryQueue} {s : Session}

theorem session_applyAck {R : Session → Prop} (hs : R s) (herase : ∀ s key, R s → R (s.erase key))
    (ack : Packet) : R (q.applyAck s ack).2.1 := by
  unfold applyAck
  split
  next => exact hs
  next key stages _ =>
    split
    next => exact hs
    next d _ =>
      split
      next => exact hs
      next =>
        split
        next => exact hs
        next => exact herase s key hs

theorem session_applyAcks {R : Session → Prop} (hs : R s)
    (herase : ∀ s key, R s → R (s.erase key)) (acks : List Packet) :
    R (q.applyAcks s acks).2.1 := by
  induction acks generalizing q s with
  | nil => exact hs
  | cons ack acks ih => exact ih (session_applyAck hs herase ack)

/-- A pass changes a session by erasing entries and by the records of its moves. -/
theorem Tidy.session_pass {R : Session → Prop} (h : q.Tidy σ) (hs : R s)
    (herase : ∀ s key, R s → R (s.erase key)) (acks : List Packet) (now : Nat)
    (hrecord : ∀ d ∈ (q.applyAcks s acks).1.deliveries, ∀ t, R t →
      R (t.record (d.move σ.retryDelay σ.maxAttempts now).record)) :
    R (q.pass s acks now).2.1 := by
  have hq := h.applyAcks s acks
  have hanswered : R (q.applyAcks s acks).2.1 := session_applyAcks hs herase acks
  rw [← hq.retryDelay, ← hq.maxAttempts] at hrecord
  have hmoved := List.foldlRecOn (q.applyAcks s acks).1.deliveries
    (fun t d => t.record (d.move (q.applyAcks s acks).1.retryDelay
      (q.applyAcks s acks).1.maxAttempts now).record) hanswered fun t ht d hd => hrecord d hd t ht
  simpa only [DeliveryQueue.pass, DeliveryQueue.advance, moves, List.foldl_map] using hmoved

theorem Sound.session_pass (h : q.Sound σ) (hs : s.Sound) (acks : List Packet) (now : Nat) :
    (q.pass s acks now).2.1.Sound := by
  have hq := h.applyAcks s acks
  refine h.tidy.session_pass hs (fun _ key hs => hs.erase key) acks now fun d hd s hs => ?_
  refine hs.record fun e he => ?_
  have hmoves := (hq.coherent d hd).moves σ.retryDelay σ.maxAttempts now
  exact ⟨(hq.coherent d hd).next hmoves (hmoves.next_of_put he),
    (hq.coherent d hd).id_ne_zero_of_put hmoves he⟩

end DeliveryQueue
end Mqtt
