import Mqtt.Proofs.Slot.Mirrored

/-!
A slot with a broker's message of quality 2: what is handed over of it, and how long it is kept once
it is confirmed.
-/
namespace Mqtt

namespace Delivery

theorem rewound_of_awaitPubrel {d : Delivery} (h : d.stage = .awaitPubrel) :
    d.rewound = { d with attempts := 0, sentAt := none } := by
  simp [rewound, h]

@[simp] theorem packet_reopened (d : Delivery) : d.reopened.packet = d.packet := by
  unfold reopened
  split <;> rfl

end Delivery

namespace Slot

variable {maxAttempts : Nat} {id : UInt16} {p : Publish} {x y : Slot} {events : List Event}

/-- Both copies of a broker's message carry the same packet. -/
theorem Mirrored.packet_stored {k : Key} (h : x.Mirrored k) (hk : k.direction = .incoming)
    {d : Delivery} (hd : x.stored = some d) :
    ∃ e, x.queued = some e ∧ e.packet = d.packet ∧ d.stage = .awaitPubrel := by
  cases h with
  | settled h =>
    cases h with
    | ours hout => simp [hk] at hout
    | theirs _ hs => exact ⟨d, hd, rfl, hs d hd⟩
  | arrived => cases hd
  | repeated _ hs =>
    obtain rfl := Option.some.inj hd
    exact ⟨_, rfl, rfl, hs⟩

/-- What was handed over of a message: nothing while it is held, and at most the message. -/
inductive Receipts (p : Publish) : Slot → List Event → Prop where
  | held {x : Slot} {d : Delivery} (queued : x.queued = some d) (packet : d.packet = .publish p) :
      Receipts p x []
  | gone {x : Slot} {events : List Event} (queued : x.queued = none)
      (once : events = [] ∨ events = [.received p]) : Receipts p x events

theorem Receipts.reply {ack : Packet} {found : Option Delivery} {w : Work}
    (h : Receipts p x events) (ho : x.Owned ⟨id, .incoming⟩)
    (hr : x.Replies maxAttempts ⟨id, .incoming⟩ ack found y w) :
    Receipts p y (events ++ w.events) := by
  have hstray : ((DeliveryQueue.unmatched ack).of ⟨id, .incoming⟩).events = [] := by
    cases ack <;> rfl
  have hdir : ∀ d, x.queued = some d → d.direction = .incoming := fun d hd =>
    congrArg Key.direction (ho d hd).1
  cases hr with
  | stray =>
    rw [hstray, List.append_nil]
    exact h
  | release hx hout | finish hx hout => simp [hdir _ hx] at hout
  | hand hx =>
    cases h with
    | held hx' hp =>
      obtain rfl := Option.some.inj (hx.symm.trans hx')
      exact .gone rfl (.inr (by simp [Delivery.report, Delivery.message?, hp]))
    | gone hnone => simp [hnone] at hx

theorem Receipts.move {d : Delivery} {m : Move} {now : Nat} (h : Receipts p x events)
    (hq : p.qos = 2) (ho : x.Owned ⟨id, .incoming⟩) (hx : x.queued = some d)
    (hm : d.Moves maxAttempts now m) :
    Receipts p { queued := m.next, stored := record x.stored m.record }
      (events ++ (m.work.of ⟨id, .incoming⟩).events) := by
  obtain ⟨hkey, hc⟩ := ho d hx
  have hdir : d.direction = .incoming := congrArg Key.direction hkey
  cases h with
  | gone hnone => simp [hx] at hnone
  | held hx' hp =>
    obtain rfl := Option.some.inj (hx.symm.trans hx')
    obtain ⟨p', hp', hcases⟩ := hc.incoming_cases hdir
    obtain rfl : p = p' := by simpa [hp] using hp'
    cases hm with
    | wait | confirm => exact .held rfl hp
    | hand _ hs | answer _ hs => simp [hq, hs] at hcases
    | send hout | sendAgain hout | giveUp hout | fire hout => simp [hdir] at hout

theorem Receipts.pass (h : Receipts p x events) (hq : p.qos = 2) (ho : x.Owned ⟨id, .incoming⟩)
    (σ : Settings) (acks : List Packet) (now : Nat) :
    Receipts p (x.pass σ ⟨id, .incoming⟩ acks now).1
      (events ++ (x.pass σ ⟨id, .incoming⟩ acks now).2.events) := by
  refine ho.pass_induction (P := fun y _ w => Receipts p y (events ++ w.events))
    (Q := fun y _ w => Receipts p y (events ++ w.events)) σ now ?_ ?_ (fun hy _ => hy) ?_ acks
  · simpa using h
  · intro y z ms v w ack found hyo hy hr
    simpa [Work.append, List.append_assoc] using hy.reply hyo hr
  · intro y ms v d m hyo hy hd hm
    simpa [Work.append, List.append_assoc] using hy.move hq hyo hd hm

/-! Only a PUBREL acts on a broker's message. -/

theorem key_received {p : Publish} (h : p.id = some id) :
    (Delivery.received p).key = ⟨id, .incoming⟩ := by
  simp [Delivery.received, Delivery.key, h]

theorem answer_of_ne {ack : Packet} (h : ack ≠ .pubRel id) :
    x.answer maxAttempts ⟨id, .incoming⟩ ack = (x, {}) := by
  have hmatch : x.match? ⟨id, .incoming⟩ ack = none := by
    cases ack <;> simp_all [match?, Packet.answers]
  have hwork : (DeliveryQueue.unmatched ack).of ⟨id, .incoming⟩ = {} := by
    cases ack <;> simp_all [DeliveryQueue.unmatched, Work.of, Packet.origin?]
  simp [answer, hmatch, hwork]

theorem answers_of_not_mem {acks : List Packet} (h : .pubRel id ∉ acks) :
    x.answers maxAttempts ⟨id, .incoming⟩ acks = (x, {}) := by
  induction acks with
  | nil => rfl
  | cons ack acks ih =>
    rw [List.mem_cons, not_or] at h
    obtain ⟨hne, hrest⟩ := h
    simp [answers, answer_of_ne (Ne.symm hne), ih hrest]

theorem answers_of_empty (maxAttempts : Nat) {k : Key} (h : x.queued = none) (acks : List Packet) :
    (x.answers maxAttempts k acks).1 = x ∧ (x.answers maxAttempts k acks).2.events = [] := by
  induction acks with
  | nil => exact ⟨rfl, rfl⟩
  | cons ack acks ih =>
    have hmatch : x.match? k ack = none := by
      cases hfound : x.match? k ack with
      | none => rfl
      | some d => simp [(match?_eq_some_iff.mp hfound).1] at h
    have hstray : ((DeliveryQueue.unmatched ack).of k).events = [] := by
      cases ack <;> rfl
    simp [answers, answer, hmatch, ih, Work.append, hstray]

/-- The first PUBREL hands a held message over, and the others do nothing more. -/
theorem Owned.answers_of_mem (ho : x.Owned ⟨id, .incoming⟩) (maxAttempts : Nat) {d : Delivery}
    (hx : x.queued = some d) (hp : d.packet = .publish p) (hq : p.qos = 2) {acks : List Packet}
    (h : .pubRel id ∈ acks) :
    (x.answers maxAttempts ⟨id, .incoming⟩ acks).1.queued = none ∧
      (x.answers maxAttempts ⟨id, .incoming⟩ acks).2.events = [.received p] ∧
      .pubComp id ∈ (x.answers maxAttempts ⟨id, .incoming⟩ acks).2.outgoing := by
  obtain ⟨hkey, hc⟩ := ho d hx
  obtain ⟨p', hp', hcases⟩ := hc.incoming_cases (congrArg Key.direction hkey)
  obtain rfl : p = p' := by simpa [hp] using hp'
  have hstage : d.stage = .queued2 ∨ d.stage = .awaitPubrel := by
    simpa [hq] using hcases
  have hreport : d.report.filter (fun e => e.origin = ⟨id, .incoming⟩) = [.received p] := by
    have horigin := hc.about_report (congrArg Key.direction hkey) (.received p)
      (by simp [Delivery.report, Delivery.message?, hp])
    simp [Delivery.report, Delivery.message?, hp, horigin, hkey]
  have hanswer : x.answer maxAttempts ⟨id, .incoming⟩ (.pubRel id) =
      ({ queued := none, stored := none },
        { outgoing := [.pubComp id], events := [.received p] }) := by
    have hmatch : x.match? ⟨id, .incoming⟩ (.pubRel id) = some d :=
      match?_eq_some_iff.mpr ⟨hx, _, rfl, by rcases hstage with hs | hs <;> simp [hs]⟩
    have htype : (Packet.pubRel id).type ≠ .pubRec := by simp [Packet.type]
    simp [Slot.answer, hmatch, htype, DeliveryQueue.completion, Work.of, Packet.origin?, hreport]
  induction acks with
  | nil => cases h
  | cons ack acks ih =>
    by_cases hack : ack = .pubRel id
    · subst hack
      obtain ⟨hslot, hevents⟩ := answers_of_empty maxAttempts (k := ⟨id, .incoming⟩)
        (x := { queued := none, stored := none }) rfl acks
      simp [Slot.answers, hanswer, hslot, hevents, Work.append]
    · have hrest := ih (by simpa [Ne.symm hack] using h)
      simpa [Slot.answers, answer_of_ne hack] using hrest

def Confirmed (p : Publish) (x : Slot) : Prop :=
  ∃ d e, x.queued = some d ∧ d.packet = .publish p ∧ x.stored = some e

theorem Confirmed.pass (h : Confirmed p x) (hq : p.qos = 2) (ho : x.Owned ⟨id, .incoming⟩)
    (σ : Settings) {acks : List Packet} (hacks : .pubRel id ∉ acks) (now : Nat) :
    Confirmed p (x.pass σ ⟨id, .incoming⟩ acks now).1 := by
  obtain ⟨d, e, hx, hp, hs⟩ := h
  obtain ⟨hkey, hc⟩ := ho d hx
  obtain ⟨y, w, hy, _, hcases⟩ := ho.pass_cases σ acks now
  obtain ⟨rfl, rfl⟩ := Prod.mk.inj ((answers_of_not_mem hacks).symm.trans hy)
  rcases hcases with ⟨hnone, _⟩ | ⟨d', m, hx', hm, hpass⟩
  · simp [hx] at hnone
  · obtain rfl := Option.some.inj (hx.symm.trans hx')
    obtain ⟨p', hp', hstage⟩ := hc.incoming_cases (congrArg Key.direction hkey)
    obtain rfl : p = p' := by simpa [hp] using hp'
    have hdir : d.direction = .incoming := congrArg Key.direction hkey
    rw [hpass]
    cases hm with
    | wait => exact ⟨d, e, rfl, hp, hs⟩
    | confirm => exact ⟨_, _, rfl, hp, rfl⟩
    | hand _ hs' | answer _ hs' => simp [hq, hs'] at hstage
    | send hout | sendAgain hout | giveUp hout | fire hout => simp [hdir] at hout

theorem Confirmed.pass_of_mem (h : Confirmed p x) (hq : p.qos = 2) (ho : x.Owned ⟨id, .incoming⟩)
    (σ : Settings) {acks : List Packet} (hacks : .pubRel id ∈ acks) (now : Nat) :
    (x.pass σ ⟨id, .incoming⟩ acks now).2.events = [.received p] ∧
      .pubComp id ∈ (x.pass σ ⟨id, .incoming⟩ acks now).2.outgoing := by
  obtain ⟨d, e, hx, hp, _⟩ := h
  have hanswers := ho.answers_of_mem σ.maxAttempts hx hp hq hacks
  obtain ⟨y, w, hy, _, ⟨_, hpass⟩ | ⟨d', m, hd', _, _⟩⟩ := ho.pass_cases σ acks now
  · rw [hy] at hanswers
    rw [hpass]
    exact hanswers.2
  · rw [hy] at hanswers
    have hnone : y.queued = none := hanswers.1
    simp [hnone] at hd'

theorem Owned.confirmed_of_pubRec (ho : x.Owned ⟨id, .incoming⟩) (σ : Settings) (acks : List Packet)
    (now : Nat) (h : .pubRec id ∈ (x.pass σ ⟨id, .incoming⟩ acks now).2.outgoing) :
    ∃ d, (x.pass σ ⟨id, .incoming⟩ acks now).1 = { queued := some d, stored := some d } := by
  refine ho.pass_induction (P := fun _ _ w => .pubRec id ∉ w.outgoing)
    (Q := fun y _ w => .pubRec id ∈ w.outgoing → ∃ d, y = { queued := some d, stored := some d })
    σ now (by simp) ?_ (fun hw _ hm => absurd hm hw) ?_ acks h
  · intro y z ms v w ack found _ hv hr
    have hw : .pubRec id ∉ w.outgoing := by
      cases hr with
      | stray => cases ack <;> simp [DeliveryQueue.unmatched, Work.of, List.filter_cons]
      | _ => simp
    simpa [Work.append] using ⟨hv, hw⟩
  · intro y ms v d m hyo hv hd hm hsent
    have hmove : .pubRec id ∈ (m.work.of ⟨id, .incoming⟩).outgoing := by
      simpa [Work.append, hv] using hsent
    have hmove := List.mem_of_mem_filter hmove
    have hdir : d.direction = .incoming := congrArg Key.direction (hyo d hd).1
    cases hm with
    | confirm => exact ⟨_, rfl⟩
    | send hout | sendAgain hout | giveUp hout | fire hout => simp [hdir] at hout
    | _ => simp at hmove

theorem Owned.pass_of_answered (ho : x.Owned ⟨id, .incoming⟩) (σ : Settings) (acks : List Packet)
    (now : Nat) (h : x.answered σ.maxAttempts ⟨id, .incoming⟩ acks ≠ []) :
    (x.pass σ ⟨id, .incoming⟩ acks now).1 = { queued := none, stored := none } := by
  refine ho.pass_induction (P := fun y ms _ => ms = [] ∨ y = { queued := none, stored := none })
    (Q := fun y ms _ => ms ≠ [] → y = { queued := none, stored := none }) σ now (.inl rfl) ?_
    (fun hy _ hms => hy.resolve_left hms) ?_ acks h
  · intro y z ms v w ack found hyo hy hr
    cases hr with
    | stray => simpa using hy
    | release hx hout | finish hx hout =>
      simp [← Delivery.direction_key, (hyo _ hx).1] at hout
    | hand => exact .inr rfl
  · intro y ms v d m _ hy hd _ hms
    have hnone : y.queued = none := congrArg Slot.queued (hy.resolve_left hms)
    simp [hd] at hnone

end Slot
end Mqtt
