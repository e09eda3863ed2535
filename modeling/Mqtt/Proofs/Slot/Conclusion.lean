import Mqtt.Proofs.Slot.Reception

/-!
A slot whose delivery waits for the acknowledgment that ends it. That acknowledgment ends the
delivery wherever it stands among others, unless a repeated PUBREC in front of a PUBCOMP sends the
delivery back to its release.
-/
namespace Mqtt

/-- The kind of acknowledgment that ends a delivery in this stage. -/
def Stage.awaited? : Stage → Option PacketType
  | .awaitPuback => some .pubAck
  | .awaitPubcomp => some .pubComp
  | .awaitPubrel => some .pubRel
  | .awaitSuback => some .subAck
  | .awaitUnsuback => some .unsubAck
  | _ => none

namespace Delivery

/-- The delivery waits for the acknowledgment, which ends it. -/
def Awaits (d : Delivery) (ack : Packet) : Prop :=
  d.stage.awaited? = some ack.type ∧ ack.id? = some d.id

/-- The delivery waits for the acknowledgment, and the event reports the end. -/
inductive Concludes (d : Delivery) : Packet → Event → Prop where
  | finish {ack : Packet} {e : Event} (finishes : d.Finishes ack e) : d.Concludes ack e
  | hand {p : Publish} (stage : d.stage = .awaitPubrel) (packet : d.packet = .publish p) :
      d.Concludes (.pubRel d.id) (.received p)

/-- A repeated PUBREC stands in front of the first PUBCOMP, and the release may be sent again. -/
def Overtaken (maxAttempts : Nat) (d : Delivery) (acks : List Packet) : Prop :=
  d.stage = .awaitPubcomp ∧ d.attempts < maxAttempts ∧
    .pubRec d.id ∈ acks.takeWhile fun ack => ack ≠ .pubComp d.id

instance (maxAttempts : Nat) (d : Delivery) (acks : List Packet) :
    Decidable (d.Overtaken maxAttempts acks) :=
  inferInstanceAs (Decidable (_ ∧ _ ∧ _))

variable {d : Delivery} {ack : Packet} {e : Event}

theorem Concludes.awaits (h : d.Concludes ack e) : d.Awaits ack := by
  cases h with
  | finish h => cases h <;> rename_i hs <;> exact ⟨by rw [hs]; rfl, rfl⟩
  | hand hs => exact ⟨by rw [hs]; rfl, rfl⟩

theorem Concludes.eq_of_awaitPubcomp (h : d.Concludes ack e) (hs : d.stage = .awaitPubcomp) :
    e = .published d.id true := by
  cases h with
  | finish h => cases h <;> simp_all
  | hand hs' => simp [hs] at hs'

theorem Awaits.type_ne (h : d.Awaits ack) : ack.type ≠ .pubRec := by
  obtain ⟨htype, _⟩ := h
  intro heq
  rw [heq] at htype
  cases hs : d.stage <;> simp [hs, Stage.awaited?] at htype

/-- A waiting delivery is ours, unless it is a broker's message that waits for its PUBREL. -/
theorem Coherent.direction_of_awaits (h : d.Coherent) (hw : d.Awaits ack) :
    d.direction = if d.stage = .awaitPubrel then .incoming else .outgoing := by
  obtain ⟨htype, _⟩ := hw
  cases hd : d.direction with
  | outgoing =>
    rcases h.fits.outgoing_cases hd with
      ⟨p, hp, ⟨_, hs⟩ | ⟨_, hs | hs⟩ | ⟨_, _, hs | hs | hs | hs⟩⟩ |
      ⟨_, _, hs | hs⟩ | ⟨_, _, hs | hs⟩ <;> simp [hs]
  | incoming =>
    obtain ⟨p, hp, ⟨_, hs⟩ | ⟨_, hs⟩ | ⟨_, hs | hs⟩⟩ := h.incoming_cases hd <;>
      simp_all [Stage.awaited?]

theorem Coherent.answers_of_awaits (h : d.Coherent) (hw : d.Awaits ack) :
    ∃ stages, ack.answers = some (d.key, stages) ∧ d.stage ∈ stages := by
  have hdir := h.direction_of_awaits hw
  obtain ⟨htype, hid⟩ := hw
  cases hs : d.stage <;>
    simp only [hs, Stage.awaited?, Option.some.injEq, reduceCtorEq] at htype <;>
    cases ack <;> cases htype <;> simp_all [Packet.answers, Packet.id?, key]

end Delivery

namespace Slot

variable {maxAttempts : Nat} {k : Key} {x : Slot} {d : Delivery} {ack : Packet}

theorem unmatched_of_outgoing (hk : k.direction = .outgoing) (ack : Packet) :
    (DeliveryQueue.unmatched ack).of k = {} := by
  cases ack with
  | pubRel id =>
    have hne : (Key.mk id .incoming) ≠ k := by
      rintro rfl
      cases hk
    simp [DeliveryQueue.unmatched, Work.of, Packet.origin?, hne]
  | _ => rfl

theorem Owned.match?_of_awaits (ho : x.Owned k) (hx : x.queued = some d) (hw : d.Awaits ack) :
    x.match? k ack = some d := by
  obtain ⟨hkey, hc⟩ := ho d hx
  exact match?_eq_some_iff.mpr ⟨hx, hkey ▸ hc.answers_of_awaits hw⟩

theorem Owned.answer_of_awaits (ho : x.Owned k) (maxAttempts : Nat) (hx : x.queued = some d)
    (hw : d.Awaits ack) :
    ∃ e, d.Concludes ack e ∧
      (x.answer maxAttempts k ack).1 = { queued := none, stored := none } ∧
      (x.answer maxAttempts k ack).2.events = [e] := by
  have hm := ho.match?_of_awaits hx hw
  have hr : x.Replies maxAttempts k ack _ _ _ := ho.replies ack
  rw [hm] at hr
  obtain ⟨hkey, hc⟩ := ho d hx
  generalize (x.answer maxAttempts k ack).1 = y, (x.answer maxAttempts k ack).2 = w at hr ⊢
  cases hr with
  | release => exact absurd rfl hw.type_ne
  | finish _ _ hf => exact ⟨_, .finish hf, rfl, rfl⟩
  | hand _ hdir =>
    have hs : d.stage = .awaitPubrel := by
      obtain ⟨htype, _⟩ := hw
      cases hs : d.stage <;> simp_all [Stage.awaited?, Packet.type]
    obtain ⟨p, hp, _⟩ := hc.incoming_cases hdir
    exact ⟨.received p, .hand hs hp, rfl, by simp [Delivery.report, Delivery.message?, hp]⟩

/-- Only what is awaited ends a waiting delivery; a repeated PUBREC is all else that it heeds. -/
theorem Owned.answer_of_not_awaits (ho : x.Owned k) (maxAttempts : Nat) (hx : x.queued = some d)
    (hwait : d.stage.awaited?.isSome) (hw : ¬ d.Awaits ack)
    (hrec : ack = .pubRec d.id → d.stage = .awaitPubcomp → maxAttempts ≤ d.attempts) :
    (x.answer maxAttempts k ack).1 = x ∧ (x.answer maxAttempts k ack).2.events = [] ∧
      (k.direction = .outgoing → (x.answer maxAttempts k ack).2 = {}) := by
  have hr : x.Replies maxAttempts k ack _ _ _ := ho.replies ack
  generalize x.match? k ack = found, (x.answer maxAttempts k ack).1 = y,
    (x.answer maxAttempts k ack).2 = w at hr ⊢
  cases hr with
  | stray =>
    exact ⟨rfl, by cases ack <;> rfl, fun hk => unmatched_of_outgoing hk ack⟩
  | release hx' _ hs =>
    obtain rfl := Option.some.inj (hx.symm.trans hx')
    have hs : d.stage = .awaitPubcomp := by
      rcases hs with hs | hs
      · simp [hs, Stage.awaited?] at hwait
      · exact hs
    -- no attempt is left, and the delivery stays as it is
    have hsame : DeliveryQueue.release maxAttempts d = d := by
      have hle := hrec rfl hs
      simp [DeliveryQueue.release, hs, Nat.not_lt.mpr hle]
    exact ⟨by rw [hsame, ← hx], rfl, fun _ => rfl⟩
  | finish hx' _ hf =>
    obtain rfl := Option.some.inj (hx.symm.trans hx')
    exact absurd (Delivery.Concludes.finish hf).awaits hw
  | hand hx' hdir hs =>
    obtain rfl := Option.some.inj (hx.symm.trans hx')
    have hs : d.stage = .awaitPubrel := by
      rcases hs with hs | hs
      · exact hs
      · simp [hs, Stage.awaited?] at hwait
    exact absurd ⟨by rw [hs]; rfl, rfl⟩ hw

/-- The first awaited acknowledgment that no repeated PUBREC overtakes ends the delivery. -/
theorem Owned.answers_of_awaits (ho : x.Owned k) (hx : x.queued = some d) {acks : List Packet}
    (hmem : ∃ ack ∈ acks, d.Awaits ack) (hfirst : ¬ d.Overtaken maxAttempts acks) :
    (x.answers maxAttempts k acks).1 = { queued := none, stored := none } ∧
      ∃ ack ∈ acks, ∃ e, d.Concludes ack e ∧ (x.answers maxAttempts k acks).2.events = [e] := by
  induction acks with
  | nil => simp at hmem
  | cons ack acks ih =>
    by_cases hw : d.Awaits ack
    · obtain ⟨e, he, hslot, hevents⟩ := ho.answer_of_awaits maxAttempts hx hw
      obtain ⟨hrest, hnone⟩ := answers_of_empty maxAttempts (k := k)
        (x := { queued := none, stored := none }) rfl acks
      refine ⟨by simpa [Slot.answers, hslot] using hrest, ack, by simp, e, he, ?_⟩
      simp [Slot.answers, hslot, Work.append, hevents, hnone]
    · obtain ⟨later, hlater, hw'⟩ : ∃ ack ∈ acks, d.Awaits ack := by
        simpa [hw] using hmem
      have hcomp : d.stage = .awaitPubcomp → ack ≠ .pubComp d.id := by
        rintro hs rfl
        exact hw ⟨by rw [hs]; rfl, rfl⟩
      have hrec : ack = .pubRec d.id → d.stage = .awaitPubcomp → maxAttempts ≤ d.attempts := by
        rintro rfl hs
        by_contra hlt
        exact hfirst ⟨hs, Nat.not_le.mp hlt, by simp⟩
      obtain ⟨hslot, hevents, _⟩ := ho.answer_of_not_awaits maxAttempts hx (by simp [hw'.1]) hw hrec
      have hfirst' : ¬ d.Overtaken maxAttempts acks := by
        rintro ⟨hs, hlt, hm⟩
        refine hfirst ⟨hs, hlt, ?_⟩
        rw [List.takeWhile_cons_of_pos (by simpa using hcomp hs)]
        exact List.mem_cons_of_mem _ hm
      obtain ⟨hrest, a, ha, e, he, hevents'⟩ := ih ⟨later, hlater, hw'⟩ hfirst'
      refine ⟨by simpa [Slot.answers, hslot] using hrest, a, List.mem_cons_of_mem _ ha, e, he, ?_⟩
      simpa [Slot.answers, hslot, Work.append, hevents] using hevents'

theorem answers_of_no_match (hk : k.direction = .outgoing) (hx : ∀ ack, x.match? k ack = none)
    (acks : List Packet) : x.answers maxAttempts k acks = (x, {}) := by
  induction acks with
  | nil => rfl
  | cons ack acks ih => simp [answers, answer, hx ack, unmatched_of_outgoing hk ack, ih]

/-- No acknowledgment answers a delivery that is to send its release. -/
theorem answers_of_sendPubrel (maxAttempts : Nat) (hk : k.direction = .outgoing)
    (hx : x.queued = some d) (hs : d.stage = .sendPubrel) (acks : List Packet) :
    x.answers maxAttempts k acks = (x, {}) := by
  refine answers_of_no_match hk (fun ack => ?_) acks
  rw [Option.eq_none_iff_forall_ne_some]
  intro d' hd'
  obtain ⟨hx', stages, ha, hmem⟩ := match?_eq_some_iff.mp hd'
  obtain rfl := Option.some.inj (hx.symm.trans hx')
  cases ack <;> simp only [Packet.answers, Option.some.injEq, Prod.mk.injEq, reduceCtorEq]
    at ha <;> obtain ⟨_, rfl⟩ := ha <;> simp [hs] at hmem

theorem pass_of_gone (hk : k.direction = .outgoing) (hx : x.queued = none) (σ : Settings)
    (acks : List Packet) (now : Nat) : x.pass σ k acks now = (x, {}) := by
  have hmatch : ∀ ack, x.match? k ack = none := by
    intro ack
    rw [Option.eq_none_iff_forall_ne_some]
    intro d hd
    simp [(match?_eq_some_iff.mp hd).1] at hx
  simp [pass, answers_of_no_match hk hmatch, advance, hx]

/-- A PUBCOMP that a repeated PUBREC overtakes is lost: the delivery is to send its release. -/
theorem Owned.answers_of_overtaken (ho : x.Owned k) (hk : k.direction = .outgoing)
    (hx : x.queued = some d) {acks : List Packet} (hlost : d.Overtaken maxAttempts acks) :
    x.answers maxAttempts k acks =
      ({ x with queued := some { d with stage := .sendPubrel } }, {}) := by
  obtain ⟨hs, hlt, hmem⟩ := hlost
  have hkey : d.key = k := (ho d hx).1
  induction acks with
  | nil => cases hmem
  | cons ack acks ih =>
    have hcomp : ack ≠ .pubComp d.id := by
      rintro rfl
      simp at hmem
    by_cases hrec : ack = .pubRec d.id
    · subst hrec
      have hmatch : x.match? k (.pubRec d.id) = some d :=
        match?_eq_some_iff.mpr ⟨hx, [.awaitPubrec, .awaitPubcomp],
          by simp [Packet.answers, ← hkey, Delivery.key, ← hk], by simp [hs]⟩
      have hrelease : DeliveryQueue.release maxAttempts d = { d with stage := .sendPubrel } := by
        simp [DeliveryQueue.release, hs, hlt]
      have hrest := answers_of_sendPubrel maxAttempts hk
        (x := { x with queued := some { d with stage := .sendPubrel } }) rfl rfl acks
      simp [Slot.answers, Slot.answer, hmatch, Packet.type, hrelease, hrest]
    · rw [List.takeWhile_cons_of_pos (by simpa using hcomp), List.mem_cons] at hmem
      have hw : ¬ d.Awaits ack := by
        rintro ⟨htype, hid⟩
        rw [hs] at htype
        cases ack <;> simp_all [Stage.awaited?, Packet.type, Packet.id?]
      obtain ⟨hslot, _, hwork⟩ := ho.answer_of_not_awaits maxAttempts hx
        (by simp [hs, Stage.awaited?]) hw fun h => absurd h hrec
      have hanswer : x.answer maxAttempts k ack = (x, {}) := Prod.ext hslot (hwork hk)
      simp [Slot.answers, hanswer, ih (hmem.resolve_left (Ne.symm hrec))]

/-! A whole pass. -/

/-- The awaited acknowledgment ends the delivery in its pass. -/
theorem Owned.pass_of_awaits (ho : x.Owned k) (σ : Settings) (hx : x.queued = some d)
    {acks : List Packet} (hmem : ∃ ack ∈ acks, d.Awaits ack)
    (hfirst : ¬ d.Overtaken σ.maxAttempts acks) (now : Nat) :
    (x.pass σ k acks now).1 = { queued := none, stored := none } ∧
      ∃ ack ∈ acks, ∃ e, d.Concludes ack e ∧ (x.pass σ k acks now).2.events = [e] := by
  have hanswers := ho.answers_of_awaits hx hmem hfirst
  obtain ⟨y, w, hy, _, ⟨_, hpass⟩ | ⟨d', m, hd', _, _⟩⟩ := ho.pass_cases σ acks now
  · rw [hy] at hanswers
    rw [hpass]
    exact hanswers
  · rw [hy] at hanswers
    have hnone : y.queued = none := congrArg Slot.queued hanswers.1
    simp [hnone] at hd'

/-- An overtaken PUBCOMP costs another round: the release is sent again. -/
theorem Owned.pass_of_overtaken (ho : x.Owned k) (σ : Settings) (hx : x.queued = some d)
    {acks : List Packet} (hlost : d.Overtaken σ.maxAttempts acks) (now : Nat) :
    x.pass σ k acks now =
      ({ queued := some (d.sent .awaitPubcomp now), stored := some (d.sent .awaitPubcomp now) },
        { outgoing := [.pubRel d.id] }) := by
  obtain ⟨hkey, hc⟩ := ho d hx
  have hs := hlost.1
  have hdir : d.direction = .outgoing := by
    have hw : d.Awaits (.pubComp d.id) := ⟨by rw [hs]; rfl, rfl⟩
    rw [hc.direction_of_awaits hw, hs]
    rfl
  have hk : k.direction = .outgoing := by rw [← hkey, Delivery.direction_key, hdir]
  have htracked : d.isTracked = true := by
    have hrelease := hc.release (d.attempts + 1) (.inr hs)
    simp only [DeliveryQueue.release, hs, reduceCtorEq, if_false, Nat.lt_succ_self, if_true]
      at hrelease
    exact hrelease.isTracked_of_stage hdir rfl
  have hmove : ∀ e : Delivery, e.direction = .outgoing → e.stage = .sendPubrel →
      e.isTracked = true → e.move σ.retryDelay σ.maxAttempts now =
        { next := some (e.sent .awaitPubcomp now), record := .put (e.sent .awaitPubcomp now)
          work := { outgoing := [.pubRel e.id] } } := by
    intro e hd hs ht
    simp only [Delivery.move, hd, hs, Delivery.transmit, ht, if_true]
  have horigin : (Packet.pubRel d.id).origin? = some k := by
    rw [← hkey, Delivery.key, hdir]
    rfl
  have hsent : Delivery.sent { d with stage := .sendPubrel } .awaitPubcomp now =
      d.sent .awaitPubcomp now := rfl
  simp only [Slot.pass, ho.answers_of_overtaken hk hx hlost, Slot.advance,
    hmove { d with stage := .sendPubrel } hdir rfl htracked, record, hsent]
  simp [Work.of, horigin]

end Slot
end Mqtt
