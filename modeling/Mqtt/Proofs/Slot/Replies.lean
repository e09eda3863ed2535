import Mqtt.Proofs.Slot

/-! Everything that an acknowledgment can do to a slot. -/
namespace Mqtt

namespace Delivery

/-- The acknowledgment ends a delivery of our own, which is reported by the event. -/
inductive Finishes (d : Delivery) : Packet → Event → Prop where
  | pubAck (stage : d.stage = .awaitPuback) : d.Finishes (.pubAck d.id) (.published d.id true)
  | pubComp (stage : d.stage = .awaitPubcomp) : d.Finishes (.pubComp d.id) (.published d.id true)
  | subAck {codes : Octets} (stage : d.stage = .awaitSuback) :
      d.Finishes (.subAck { id := d.id, codes }) (.subscribed d.id codes)
  | unsubAck (stage : d.stage = .awaitUnsuback) : d.Finishes (.unsubAck d.id) (.unsubscribed d.id)

theorem Finishes.type_ne {d : Delivery} {ack : Packet} {e : Event} (h : d.Finishes ack e) :
    ack.type ≠ .pubRec := by
  cases h <;> simp [Packet.type]

theorem Finishes.completion_of {d : Delivery} {ack : Packet} {e : Event} (h : d.Finishes ack e)
    (hd : d.direction = .outgoing) :
    (DeliveryQueue.completion ack d).of d.key = { events := [e] } := by
  cases h <;> simp [DeliveryQueue.completion, Work.of, Event.origin, key, hd]

theorem answered_cases {d : Delivery} {ack : Packet} {stages : List Stage}
    (ha : ack.answers = some (d.key, stages)) (hs : d.stage ∈ stages) :
    (d.direction = .outgoing ∧ ack = .pubRec d.id ∧
        (d.stage = .awaitPubrec ∨ d.stage = .awaitPubcomp)) ∨
      (d.direction = .outgoing ∧ ∃ e, d.Finishes ack e) ∨
      (d.direction = .incoming ∧ ack = .pubRel d.id ∧
        (d.stage = .awaitPubrel ∨ d.stage = .queued2)) := by
  cases ack <;>
    simp only [Packet.answers, key, Option.some.injEq, Prod.mk.injEq, Key.mk.injEq,
      reduceCtorEq] at ha <;>
    obtain ⟨⟨hid, hd⟩, rfl⟩ := ha <;> simp only [List.mem_cons, List.not_mem_nil, or_false] at hs
  case pubAck => exact .inr (.inl ⟨hd.symm, .published d.id true, hid ▸ Finishes.pubAck hs⟩)
  case pubRec => exact .inl ⟨hd.symm, hid ▸ rfl, hs⟩
  case pubRel => exact .inr (.inr ⟨hd.symm, hid ▸ rfl, hs⟩)
  case pubComp => exact .inr (.inl ⟨hd.symm, .published d.id true, hid ▸ Finishes.pubComp hs⟩)
  case subAck p =>
    obtain ⟨id, codes⟩ := p
    dsimp only at hid
    exact .inr (.inl ⟨hd.symm, .subscribed d.id codes, hid ▸ .subAck hs⟩)
  case unsubAck => exact .inr (.inl ⟨hd.symm, .unsubscribed d.id, hid ▸ Finishes.unsubAck hs⟩)

end Delivery

namespace Slot

/-- The slot's delivery is coherent and has the slot's key. -/
def Owned (k : Key) (x : Slot) : Prop :=
  ∀ d, x.queued = some d → d.key = k ∧ d.Coherent

/-- What an acknowledgment finds, leaves and gives to do. -/
inductive Replies (maxAttempts : Nat) (k : Key) (x : Slot) :
    Packet → Option Delivery → Slot → Work → Prop where
  | stray {ack : Packet} : x.Replies maxAttempts k ack none x ((DeliveryQueue.unmatched ack).of k)
  | release {d : Delivery} (held : x.queued = some d) (direction : d.direction = .outgoing)
      (asked : d.stage = .awaitPubrec ∨ d.stage = .awaitPubcomp) :
      x.Replies maxAttempts k (.pubRec d.id) (some d)
        { x with queued := some (DeliveryQueue.release maxAttempts d) } {}
  | finish {d : Delivery} {ack : Packet} {e : Event} (held : x.queued = some d)
      (direction : d.direction = .outgoing) (finishes : d.Finishes ack e) :
      x.Replies maxAttempts k ack (some d) { queued := none, stored := none } { events := [e] }
  | hand {d : Delivery} (held : x.queued = some d) (direction : d.direction = .incoming)
      (asked : d.stage = .awaitPubrel ∨ d.stage = .queued2) :
      x.Replies maxAttempts k (.pubRel d.id) (some d) { queued := none, stored := none }
        { outgoing := [.pubComp d.id], events := d.report }

variable {maxAttempts : Nat} {k : Key} {x : Slot}

theorem match?_eq_some_iff {ack : Packet} {d : Delivery} :
    x.match? k ack = some d ↔
      x.queued = some d ∧ ∃ stages, ack.answers = some (k, stages) ∧ d.stage ∈ stages := by
  unfold match?
  rcases ack.answers with _ | ⟨key, stages⟩
  · simp
  · by_cases hk : key = k
    · simp [hk, Option.filter_eq_some_iff]
    · simp [hk]

theorem Owned.replies (h : x.Owned k) (ack : Packet) :
    x.Replies maxAttempts k ack (x.match? k ack) (x.answer maxAttempts k ack).1
      (x.answer maxAttempts k ack).2 := by
  rcases hm : x.match? k ack with _ | d
  · simp only [answer, hm]
    exact .stray
  obtain ⟨hx, stages, ha, hs⟩ := match?_eq_some_iff.mp hm
  obtain ⟨hkey, hc⟩ := h d hx
  subst hkey
  rcases Delivery.answered_cases ha hs with ⟨hd, rfl, hs⟩ | ⟨hd, e, he⟩ | ⟨hd, rfl, hs⟩
  · simp only [answer, hm]
    exact .release hx hd hs
  · simp only [answer, hm, he.type_ne, if_false, he.completion_of hd]
    exact .finish hx hd he
  · have hwork : (DeliveryQueue.completion (.pubRel d.id) d).of d.key =
        { outgoing := [.pubComp d.id], events := d.report } := by
      have hpubComp : (Packet.pubComp d.id).origin? = some d.key := by
        simp [Packet.origin?, Delivery.key, hd]
      have hreport : d.report.filter (fun e => e.origin = d.key) = d.report :=
        List.filter_eq_self.mpr fun e he => by simpa using hc.about_report hd e he
      simp [DeliveryQueue.completion, Work.of, hpubComp, hreport]
    have htype : (Packet.pubRel d.id).type ≠ .pubRec := by simp [Packet.type]
    simp only [answer, hm, htype, if_false, hwork]
    exact .hand hx hd hs

theorem Owned.answer (h : x.Owned k) (ack : Packet) : (x.answer maxAttempts k ack).1.Owned k := by
  have hreplies : x.Replies maxAttempts k ack _ _ _ := h.replies ack
  generalize x.match? k ack = found, (x.answer maxAttempts k ack).1 = y,
    (x.answer maxAttempts k ack).2 = w at hreplies ⊢
  cases hreplies with
  | stray => exact h
  | release hx hd hs =>
    rintro e he
    obtain rfl := Option.some.inj he
    obtain ⟨hkey, hc⟩ := h _ hx
    exact ⟨by simpa using hkey, hc.release maxAttempts hs⟩
  | finish | hand => exact fun e he => by cases he

/-- What holds before an acknowledgment and is kept by each reply holds after all of them. -/
theorem Owned.answers_induction {P : Slot → List (Packet × Delivery) → Work → Prop}
    (h : x.Owned k) (start : P x [] {})
    (step : ∀ {y z : Slot} {ms : List (Packet × Delivery)} {v w : Work} {ack : Packet}
      {found : Option Delivery}, y.Owned k → P y ms v → y.Replies maxAttempts k ack found z w →
      P z (ms ++ (found.map fun d => (ack, d)).toList) (v.append w))
    (acks : List Packet) :
    P (x.answers maxAttempts k acks).1 (x.answered maxAttempts k acks)
      (x.answers maxAttempts k acks).2 := by
  have hall : ∀ (acks : List Packet) (y : Slot) (ms : List (Packet × Delivery)) (v : Work),
      y.Owned k → P y ms v →
        P (y.answers maxAttempts k acks).1 (ms ++ y.answered maxAttempts k acks)
          (v.append (y.answers maxAttempts k acks).2) := by
    intro acks
    induction acks with
    | nil =>
      intro y ms v _ hy
      simpa [answers, answered] using hy
    | cons ack acks ih =>
      intro y ms v ho hy
      have hrest := ih _ _ _ (ho.answer ack) (step ho hy (ho.replies ack))
      rw [List.append_assoc, Work.append_assoc] at hrest
      exact hrest
  simpa using hall acks x [] {} h start

theorem Owned.answers (h : x.Owned k) (acks : List Packet) :
    (x.answers maxAttempts k acks).1.Owned k := by
  induction acks generalizing x with
  | nil => exact h
  | cons ack acks ih => exact ih (h.answer ack)

theorem Owned.advance_cases (h : x.Owned k) (delay maxAttempts now : Nat) :
    (x.queued = none ∧ x.advance delay maxAttempts k now = (x, {})) ∨
      ∃ d m, x.queued = some d ∧ d.Moves maxAttempts now m ∧
        x.advance delay maxAttempts k now =
          ({ queued := m.next, stored := record x.stored m.record }, m.work.of k) := by
  unfold advance
  rcases hx : x.queued with _ | d
  · exact .inl ⟨rfl, rfl⟩
  · exact .inr ⟨d, _, rfl, (h d hx).2.moves delay maxAttempts now, rfl⟩

theorem Owned.pass_cases (h : x.Owned k) (σ : Settings) (acks : List Packet) (now : Nat) :
    ∃ y w, x.answers σ.maxAttempts k acks = (y, w) ∧ y.Owned k ∧
      (y.queued = none ∧ x.pass σ k acks now = (y, w) ∨
        ∃ d m, y.queued = some d ∧ d.Moves σ.maxAttempts now m ∧
          x.pass σ k acks now =
            ({ queued := m.next, stored := record y.stored m.record },
              w.append (m.work.of k))) := by
  have ho : (x.answers σ.maxAttempts k acks).1.Owned k := h.answers acks
  refine ⟨_, _, rfl, ho, ?_⟩
  rcases ho.advance_cases σ.retryDelay σ.maxAttempts now with ⟨hy, he⟩ | ⟨d, m, hy, hm, he⟩
  · exact .inl ⟨hy, by simp [pass, he]⟩
  · exact .inr ⟨d, m, hy, hm, by simp [pass, he]⟩

theorem Owned.pass_induction {P Q : Slot → List (Packet × Delivery) → Work → Prop}
    (h : x.Owned k) (σ : Settings) (now : Nat) (start : P x [] {})
    (reply : ∀ {y z : Slot} {ms : List (Packet × Delivery)} {v w : Work} {ack : Packet}
      {found : Option Delivery}, y.Owned k → P y ms v → y.Replies σ.maxAttempts k ack found z w →
      P z (ms ++ (found.map fun d => (ack, d)).toList) (v.append w))
    (rest : ∀ {y : Slot} {ms : List (Packet × Delivery)} {v : Work}, P y ms v → y.queued = none →
      Q y ms v)
    (move : ∀ {y : Slot} {ms : List (Packet × Delivery)} {v : Work} {d : Delivery} {m : Move},
      y.Owned k → P y ms v → y.queued = some d → d.Moves σ.maxAttempts now m →
      Q { queued := m.next, stored := record y.stored m.record } ms (v.append (m.work.of k)))
    (acks : List Packet) :
    Q (x.pass σ k acks now).1 (x.answered σ.maxAttempts k acks) (x.pass σ k acks now).2 := by
  have hanswers : P (x.answers σ.maxAttempts k acks).1 (x.answered σ.maxAttempts k acks)
      (x.answers σ.maxAttempts k acks).2 := h.answers_induction start reply acks
  obtain ⟨y, w, hy, hyo, ⟨hnone, hpass⟩ | ⟨d, m, hd, hm, hpass⟩⟩ := h.pass_cases σ acks now
  · rw [hy] at hanswers
    rw [hpass]
    exact rest hanswers hnone
  · rw [hy] at hanswers
    rw [hpass]
    exact move hyo hanswers hd hm

theorem Owned.pass_held (h : x.Owned k) (σ : Settings) (acks : List Packet) (now : Nat)
    (hx : x.queued ≠ none) :
    (x.pass σ k acks now).1.queued ≠ none ∨ (x.pass σ k acks now).2.events ≠ [] := by
  refine h.pass_induction (P := fun y _ w => y.queued ≠ none ∨ w.events ≠ [])
    (Q := fun y _ w => y.queued ≠ none ∨ w.events ≠ []) σ now (.inl hx) ?_ (fun hy _ => hy) ?_ acks
  · intro y z ms v w ack found ho hy hr
    cases hr with
    | stray => exact hy.imp id fun hv => by simp [Work.append, hv]
    | release => exact .inl (Option.some_ne_none _)
    | finish => exact .inr (by simp [Work.append])
    | hand hheld hin =>
      have hreport := (ho _ hheld).2.report_ne_nil hin
      exact .inr (by simp [Work.append, hreport])
  · intro y ms v d m ho hy hd hm
    obtain ⟨hkey, hc⟩ := ho d hd
    have hevents : (m.work.of k).events = m.work.events :=
      List.filter_eq_self.mpr fun e he => by simpa [hkey] using (hc.about hm).events e he
    rw [Work.append, hevents]
    cases hm with
    | send | wait | sendAgain | confirm => exact .inl (Option.some_ne_none _)
    | giveUp | fire => exact .inr (by simp)
    | hand hin | answer hin => exact .inr (by simp [hc.report_ne_nil hin])

end Slot

/-- The slots of a sound queue hold their own deliveries. -/
theorem DeliveryQueue.Sound.owned {σ : Settings} {q : DeliveryQueue} (h : q.Sound σ) (s : Session)
    (k : Key) : (Slot.ofKey q s k).Owned k :=
  fun _ hd => ⟨h.keyed.key_of_get? hd, h.coherent_of_get? hd⟩

end Mqtt
